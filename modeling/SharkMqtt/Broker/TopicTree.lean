import Mathlib.Data.List.AList
import Mathlib.Order.Bounds.Basic
import SharkMqtt.Lib.Trie
import SharkMqtt.Protocol.Topic

/-!
# The subscription trie

`broker/topic_tree.go`, the part that stores ordinary subscriptions:
`Subscribe`, `Unsubscribe` and `Match` with their recursive helpers.

A Go map is the list of its entries in the order a `range` visits them; lookup,
assignment and `delete` are Mathlib's `dlookup`, `kinsert` and `kerase`. Go
leaves the visiting order open, so results about `Match` are stated for every
tree with the same maps (`SameMaps`), whatever the order of the entries.

The source passes `parts` with a `depth`; here the recursion runs over the
levels that are left, and `depth` is kept because `matchNodeWithSys` reads it.
-/

namespace SharkMqtt.Broker

open Protocol Lib

/-! ## Nodes, insertion and removal -/

/-- `TopicNode`: the children by level, and as its value the subscribers, the QoS by client
identifier. -/
abbrev TopicNode := Trie Str (List (Σ _ : Str, ℕ))

abbrev TopicNode.subscribers (n : TopicNode) : List (Σ _ : Str, ℕ) := n.value

/-- `TopicTree`; `totalSubs` is the counter behind `SubscriberCount`. -/
structure TopicTree where
  root : TopicNode
  totalSubs : ℤ

def newTopicTree : TopicTree := ⟨Trie.empty, 0⟩

/-- `subscribeNode`: the counter and the node afterwards. -/
def subscribeNode (total : ℤ) (node : TopicNode) (parts : List Str) (clientID : Str) (qos : ℕ) :
    ℤ × TopicNode :=
  match parts with
  | [] =>
    (if (node.subscribers.dlookup clientID).isSome then total else total + 1,
      .mk node.children (node.subscribers.kinsert clientID qos))
  | part :: rest =>
    let child := (node.children.dlookup part).getD Trie.empty
    let r := subscribeNode total child rest clientID qos
    (r.1, .mk (node.children.kinsert part r.2) node.subscribers)

/-- `unsubscribeNode`: the counter, the node, and whether the caller should
delete the node. -/
def unsubscribeNode (total : ℤ) (node : TopicNode) (parts : List Str) (clientID : Str) :
    ℤ × TopicNode × Bool :=
  match parts with
  | [] =>
    let subs := node.subscribers.kerase clientID
    (if (node.subscribers.dlookup clientID).isSome then total - 1 else total,
      .mk node.children subs, subs.isEmpty && node.children.isEmpty)
  | part :: rest =>
    match node.children.dlookup part with
    | none => (total, node, false)
    | some child =>
      let r := unsubscribeNode total child rest clientID
      let children := if r.2.2 then node.children.kerase part else node.children.kinsert part r.2.1
      (r.1, .mk children node.subscribers, node.subscribers.isEmpty && children.isEmpty)

/-- `Subscribe`; the boolean is its result. -/
def TopicTree.subscribe (tt : TopicTree) (topic clientID : Str) (qos : ℕ) : TopicTree × Bool :=
  if !validateTopicFilter topic then (tt, false)
  else
    let r := subscribeNode tt.totalSubs tt.root (splitTopic topic) clientID qos
    (⟨r.2, r.1⟩, true)

def TopicTree.unsubscribe (tt : TopicTree) (topic clientID : Str) : TopicTree :=
  let r := unsubscribeNode tt.totalSubs tt.root (splitTopic topic) clientID
  ⟨r.2.1, r.1⟩

/-! ## Matching -/

structure Subscriber where
  clientID : Str
  qos : ℕ
deriving DecidableEq

/-- The two accumulators of `Match`: the result slice and the `visited` map. -/
structure MatchAcc where
  results : List Subscriber
  visited : AList (fun _ : Str => ℕ)

/-- The inner loop of `addSubscriber`: overwrite the first entry of a client. -/
def setQoS (clientID : Str) (qos : ℕ) : List Subscriber → List Subscriber
  | [] => []
  | s :: rest =>
    if s.clientID = clientID then ⟨clientID, qos⟩ :: rest
    else s :: setQoS clientID qos rest

def addSubscriber (acc : MatchAcc) (clientID : Str) (qos : ℕ) : MatchAcc :=
  match acc.visited.lookup clientID with
  | none => ⟨acc.results ++ [⟨clientID, qos⟩], acc.visited.insert clientID qos⟩
  | some old =>
    if qos > old then ⟨setQoS clientID qos acc.results, acc.visited.insert clientID qos⟩
    else acc

/-- `for clientID, qos := range subscribers { addSubscriber(...) }` -/
def addSubscribers (acc : MatchAcc) (subs : List (Σ _ : Str, ℕ)) : MatchAcc :=
  subs.foldl (fun acc s => addSubscriber acc s.1 s.2) acc

mutual

def collectAllSubscribers : TopicNode → MatchAcc → MatchAcc
  | .mk children subscribers, acc => collectChildren children (addSubscribers acc subscribers)

def collectChildren : List (Σ _ : Str, TopicNode) → MatchAcc → MatchAcc
  | [], acc => acc
  | ⟨_, child⟩ :: rest, acc => collectChildren rest (collectAllSubscribers child acc)

end

def matchNodeWithSys (node : TopicNode) (parts : List Str) (depth : ℕ) (acc : MatchAcc)
    (isSystemTopic wildcardsAllowed : Bool) : MatchAcc :=
  let acc := addSubscribers acc node.subscribers
  let acc :=
    if wildcardsAllowed then
      match node.children.dlookup hashLevel with
      | some hashChild => collectAllSubscribers hashChild acc
      | none => acc
    else acc
  match parts with
  | [] => acc
  | part :: rest =>
    let acc :=
      match node.children.dlookup part with
      | some child =>
        matchNodeWithSys child rest (depth + 1) acc isSystemTopic
          (wildcardsAllowed || (isSystemTopic && depth == 0 && startsWithDollar part))
      | none => acc
    if wildcardsAllowed then
      match node.children.dlookup plusLevel with
      | some plusChild => matchNodeWithSys plusChild rest (depth + 1) acc isSystemTopic true
      | none => acc
    else acc

def TopicTree.match (tt : TopicTree) (topic : Str) : List Subscriber :=
  let parts := splitTopic topic
  let isSystemTopic := startsWithDollar (firstLevel parts)
  (matchNodeWithSys tt.root parts 0 ⟨[], ∅⟩ isSystemTopic (!isSystemTopic)).results

/-! ## The trie read by path -/

/-- The QoS of the client at the end of the path. -/
def TopicNode.qosAt (n : TopicNode) (path : List Str) (clientID : Str) : Option ℕ :=
  (n.get path).dlookup clientID

/-- Every map of the tree has each key once. -/
structure TopicNode.Keyed (n : TopicNode) : Prop where
  children : n.WF
  subscribers : ∀ path, (n.get path).NodupKeys

variable {total : ℤ} {c : Str} (parts : List Str)

theorem TopicNode.qosAt_empty (path : List Str) (c : Str) :
    TopicNode.qosAt Trie.empty path c = none := by
  rw [TopicNode.qosAt, Trie.get_empty]
  rfl

theorem TopicNode.keyed_empty : TopicNode.Keyed Trie.empty where
  children := Trie.wf_empty
  subscribers path := by
    rw [Trie.get_empty]
    exact List.nodupKeys_nil

theorem TopicNode.qosAt_cons (n : TopicNode) (p : Str) (ps : List Str) (c : Str) :
    n.qosAt (p :: ps) c = (n.children.dlookup p).bind fun child => TopicNode.qosAt child ps c := by
  unfold TopicNode.qosAt
  rw [Trie.get_cons]
  cases n.children.dlookup p <;> rfl

/-! ## What `subscribeNode` and `unsubscribeNode` do to the entries -/

/-- The walk is the update of the trie, and counts a new client. -/
theorem subscribeNode_eq {q : ℕ} : ∀ n : TopicNode, subscribeNode total n parts c q =
    (if (n.qosAt parts c).isSome then total else total + 1,
      n.update (fun subs => subs.kinsert c q) parts) := by
  induction parts with
  | nil =>
    intro n
    rfl
  | cons part rest ih =>
    intro n
    rw [subscribeNode, ih, TopicNode.qosAt_cons, Trie.update]
    cases n.children.dlookup part with
    | none => simp only [Option.getD_none, TopicNode.qosAt_empty]; rfl
    | some child => rfl

/-- The other walk prunes the trie, and discounts a client that was there. -/
theorem unsubscribeNode_eq : ∀ n : TopicNode, unsubscribeNode total n parts c =
    (if (n.qosAt parts c).isSome then total - 1 else total,
      n.prune List.isEmpty (fun subs => subs.kerase c) parts) := by
  induction parts with
  | nil =>
    intro n
    rfl
  | cons part rest ih =>
    intro n
    rw [TopicNode.qosAt_cons]
    unfold unsubscribeNode Trie.prune
    cases n.children.dlookup part with
    | none => rfl
    | some child => simp only [ih, Option.bind_some]

variable {n : TopicNode}

theorem TopicNode.Keyed.subscribeNode {q : ℕ} (h : n.Keyed) :
    TopicNode.Keyed (subscribeNode total n parts c q).2 := by
  rw [subscribeNode_eq]
  refine ⟨h.children.update _ _, fun path => ?_⟩
  rw [Trie.get_update]
  split_ifs
  · exact List.kinsert_nodupKeys _ _ (h.subscribers parts)
  · exact h.subscribers path

theorem qosAt_subscribeNode {q : ℕ} (path : List Str) (c' : Str) :
    TopicNode.qosAt (subscribeNode total n parts c q).2 path c' =
      if path = parts ∧ c' = c then some q else n.qosAt path c' := by
  rw [subscribeNode_eq, TopicNode.qosAt, Trie.get_update, TopicNode.qosAt]
  by_cases hpath : path = parts
  · subst hpath
    by_cases hc : c' = c
    · subst hc
      simp
    · simp [hc]
  · simp [hpath]

theorem get_unsubscribeNode (h : n.Keyed) (path : List Str) :
    (unsubscribeNode total n parts c).2.1.get path =
      if path = parts then (n.get parts).kerase c else n.get path := by
  rw [unsubscribeNode_eq]
  exact Trie.get_prune parts _ (fun _ => List.isEmpty_iff.mp) rfl h.children path

theorem TopicNode.Keyed.unsubscribeNode (h : n.Keyed) :
    TopicNode.Keyed (unsubscribeNode total n parts c).2.1 where
  children := by
    rw [unsubscribeNode_eq]
    exact h.children.prune _ _ _
  subscribers path := by
    rw [get_unsubscribeNode parts h]
    split_ifs
    · exact (h.subscribers parts).kerase _
    · exact h.subscribers path

theorem qosAt_unsubscribeNode (h : n.Keyed) (path : List Str) (c' : Str) :
    TopicNode.qosAt (unsubscribeNode total n parts c).2.1 path c' =
      if path = parts ∧ c' = c then none else n.qosAt path c' := by
  rw [TopicNode.qosAt, get_unsubscribeNode parts h, TopicNode.qosAt]
  by_cases hpath : path = parts
  · subst hpath
    by_cases hc : c' = c
    · subst hc
      simp [List.dlookup_kerase _ (h.subscribers path)]
    · simp [hc, List.dlookup_kerase_ne hc]
  · simp [hpath]

end SharkMqtt.Broker
