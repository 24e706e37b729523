import SharkMqtt.Lib.Runs
import SharkMqtt.Protocol.Framing

/-!
# MQTT over WebSocket

`broker/ws_conn.go`: a WebSocket connection as the stream of bytes that the codec reads. A packet
may come in several messages and a message may hold several packets; `Read` keeps what is left of
a message for its next call. Neither where the messages end nor how much a call asks for shows in
what is decoded (`decodeMany_reads`).
-/

namespace SharkMqtt.Broker

open Protocol Lib

/-- What `NextReader` returns, call by call: whether a message is binary, and its payload. -/
abbrev Messages := List (Except String (Bool × Bytes))

structure WsConn where
  incoming : Messages
  /-- What is left of the current message. -/
  reader : Option Bytes := none
  err : Option String := none

namespace WsConn

/-- `io.EOF` -/
def eof : String := "EOF"

/-- How the reader of a message answers, when that much is left: the number of bytes it copies,
and the error. It reports the end with the last byte or behind it. -/
structure Copy where
  answer : Bytes → ℕ × Option String
  ends : ∀ msg, (answer msg).2 = some eof → (answer msg).1 = msg.length

variable (copy : Copy)

/-- A round of the loop of `Read` with a message at hand; `next` is the rest of the loop. The error
that is returned is the one that is kept. -/
def readMessage (msg : Bytes) (rest : Messages) (next : Option (Bytes × WsConn)) :
    Option (Bytes × WsConn) :=
  let (n, err) := copy.answer msg
  if err = some eof then
    if 0 < n then some (msg.take n, { incoming := rest }) else next
  else some (msg.take n, { incoming := rest, reader := some (msg.drop n), err := err })

/-- The loop from `NextReader` on, which blocks when nothing more comes. -/
def readNext : Messages → Option (Bytes × WsConn)
  | [] => none
  | .error e :: rest => some ([], { incoming := rest, err := some e })
  | .ok (false, _) :: rest =>
    some ([], ⟨rest, none, some "broker: MQTT-over-WebSocket requires binary frames"⟩)
  | .ok (true, msg) :: rest => readMessage copy msg rest (readNext rest)

def read (c : WsConn) : Option (Bytes × WsConn) :=
  if c.err.isSome then some ([], c)
  else
    match c.reader with
    | none => readNext copy c.incoming
    | some msg => readMessage copy msg c.incoming (readNext copy c.incoming)

/-- The payloads up to an error or a message that is refused. -/
def payloads : Messages → Bytes
  | .ok (true, msg) :: rest => msg ++ payloads rest
  | _ => []

/-- What there is still to read. -/
def stream (c : WsConn) : Bytes := c.reader.getD [] ++ payloads c.incoming

/-- A call takes what it returns off the stream; one that blocks has found the stream empty. -/
def Serves (s : Bytes) : Option (Bytes × WsConn) → Prop
  | none => s = []
  | some (bs, c) => bs <+: s ∧ (c.err = none → s = bs ++ c.stream)

theorem serves_readMessage {msg : Bytes} {rest : Messages} {next : Option (Bytes × WsConn)}
    (hnext : Serves (payloads rest) next) :
    Serves (msg ++ payloads rest) (readMessage copy msg rest next) := by
  have hend := copy.ends msg
  simp only [readMessage]
  split_ifs with heof hpos
  · rw [hend heof, List.take_length]
    exact ⟨List.prefix_append _ _, fun _ => rfl⟩
  · -- an empty read at the end of a message: it is used up
    rw [hend heof, Nat.pos_iff_ne_zero, not_not, List.length_eq_zero_iff] at hpos
    rw [hpos]
    exact hnext
  · refine ⟨(List.take_prefix _ _).trans (List.prefix_append _ _), fun _ => ?_⟩
    simp [stream, ← List.append_assoc]

theorem serves_readNext (incoming : Messages) :
    Serves (payloads incoming) (readNext copy incoming) := by
  fun_induction readNext copy incoming with
  | case1 => rfl
  | case2 | case3 => exact ⟨List.nil_prefix, nofun⟩
  | case4 msg rest ih => exact serves_readMessage copy ih

theorem serves_read {c : WsConn} (herr : c.err = none) : Serves c.stream (c.read copy) := by
  have hnext := serves_readNext copy c.incoming
  unfold read stream
  rw [herr, if_neg (by decide)]
  cases c.reader with
  | none => exact hnext
  | some msg => exact serves_readMessage copy hnext

/-- `Read` once more; the bytes read so far are kept. -/
def step (st : WsConn × Bytes) (copy : Copy) : Option (WsConn × Bytes) :=
  (st.1.read copy).map fun r => (r.2, st.2 ++ r.1)

/-- Whatever the calls ask for, they return the stream in order, up to the first error. -/
theorem reads_prefix {copies : List Copy} {c c' : WsConn} {got : Bytes}
    (hrun : exec step (c, []) copies = some (c', got)) :
    got <+: c.stream ∧ (c'.err = none → c.stream = got ++ c'.stream) := by
  refine exec_preserves
    (fun st => st.2 <+: c.stream ∧ (st.1.err = none → c.stream = st.2 ++ st.1.stream))
    ?_ ⟨List.nil_prefix, fun _ => rfl⟩ hrun
  rintro ⟨c₁, got₁⟩ copy st' ⟨hpre, hall⟩ hstep
  obtain ⟨⟨bs, c₂⟩, hread, rfl⟩ := Option.map_eq_some_iff.mp hstep
  cases herr : c₁.err with
  | some e =>
    -- the error is returned again
    simp only [read, herr, Option.isSome_some, if_true, Option.some.injEq, Prod.mk.injEq] at hread
    obtain ⟨rfl, rfl⟩ := hread
    simpa [herr] using hpre
  | none =>
    have hserves := serves_read copy herr
    rw [hread] at hserves
    rw [hall herr]
    refine ⟨(List.prefix_append_right_inj _).mpr hserves.1, fun hnone => ?_⟩
    rw [List.append_assoc, ← hserves.2 hnone]

/-- **The codec sees packets and no messages.** Frames that the codec accepts one after the other
come in binary messages, cut anywhere. However `Read` is called, what it has returned decodes to
the packets once it is as long as the frames; and `Read` blocks only when all has been returned. -/
theorem decodeMany_reads {dec dec' : Codec} {fs : List Bytes} {ps : List Packet}
    (haccepted : Codec.Accepted dec fs ps dec') {incoming : Messages} {t : Bytes}
    (hsent : payloads incoming = fs.flatten ++ t) {copies : List Copy} {c : WsConn} {got : Bytes}
    (hrun : exec step ({ incoming := incoming }, []) copies = some (c, got)) :
    (fs.flatten.length ≤ got.length →
      Codec.decodeMany fs.length dec got = (.ok ps, dec', got.drop fs.flatten.length)) ∧
    ∀ copy, c.read copy = none → got = fs.flatten ++ t := by
  obtain ⟨hpre, hall⟩ := reads_prefix hrun
  have hstream : stream { incoming := incoming } = fs.flatten ++ t := hsent
  rw [hstream] at hpre hall
  refine ⟨fun hlen => ?_, fun copy hblocks => ?_⟩
  · obtain ⟨rest, rfl⟩ := List.prefix_of_prefix_length_le (List.prefix_append _ t) hpre hlen
    rw [List.drop_left]
    exact Codec.decodeMany_accepted haccepted rest
  · cases herr : c.err with
    | some e => simp [read, herr] at hblocks
    | none =>
      have hempty := serves_read copy herr
      rw [hblocks] at hempty
      rw [hall herr, show c.stream = [] from hempty, List.append_nil]

/-- A reader that copies up to three bytes. -/
def three : Copy where
  answer msg := if msg.length ≤ 3 then (msg.length, some eof) else (3, none)
  ends msg := by split_ifs <;> simp

/-- A PINGREQ in two messages, the second of which also holds a PINGRESP. -/
def pings : Messages := [.ok (true, [0xC0]), .ok (true, []), .ok (true, [0x00, 0xD0, 0x00])]

theorem decodeMany_reads_pings :
    ∃ c got, exec step (⟨pings, none, none⟩, []) [three, three] = some (c, got) ∧
      Codec.decodeMany 2 (.new 0) got =
        (.ok [.pingReq { packetType := .pingReq, headerSize := 2 },
          .pingResp { packetType := .pingResp, headerSize := 2 }], .new 0, []) :=
  ⟨_, _, rfl, (@decodeMany_reads (.new 0) (.new 0) [[0xC0, 0x00], [0xD0, 0x00]] _
    (.cons rfl (.cons rfl (.nil _))) pings [] rfl [three, three] _ _ rfl).1 (by decide)⟩

end WsConn

end SharkMqtt.Broker
