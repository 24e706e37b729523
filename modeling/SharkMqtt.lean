import SharkMqtt.Broker.Takeover
import SharkMqtt.Broker.WriteOrder
import SharkMqtt.Broker.WillLifecycle
import SharkMqtt.Broker.NoLoss
import SharkMqtt.Broker.Publishers
import SharkMqtt.Client.Receiver
import SharkMqtt.Broker.Exchanges
import SharkMqtt.Broker.Expiry
import SharkMqtt.Broker.Owners
import SharkMqtt.Broker.NegotiatedVersion
import SharkMqtt.Broker.Negotiation
import SharkMqtt.Broker.RetainedLimit
import SharkMqtt.Broker.DeliveredContent
import SharkMqtt.Broker.FlowBuffer
import SharkMqtt.Broker.Oversized
import SharkMqtt.Broker.QueueOrder
import SharkMqtt.Broker.ResendOrder
import SharkMqtt.Broker.TreeInvariants
import SharkMqtt.Plugin.Lifecycle
import SharkMqtt.Broker.Server
import SharkMqtt.Broker.WsConn
import SharkMqtt.Broker.Shutdown
import SharkMqtt.Broker.ConnectionSlots
import SharkMqtt.Broker.Acl
import SharkMqtt.Broker.PublishAnswers
import SharkMqtt.Broker.SavedSessions
import SharkMqtt.Broker.RetainedReplay
import SharkMqtt.Broker.Flapping
import SharkMqtt.Broker.TopicAliases
import SharkMqtt.Broker.RejectedFilters
import SharkMqtt.Broker.RateLimits
import SharkMqtt.Broker.FileAuth
import SharkMqtt.Plugin.EventBus
import SharkMqtt.Store.BadgerMessages
import SharkMqtt.Config.Duration
