import SharkMqtt.Lib.Bytes
import SharkMqtt.Protocol.Packets

/-!
# Wire primitives

The integer and string fields of `protocol/codec.go` and the helpers at the end of
`protocol/properties.go`. A reader fails with the error the source returns; what it
took off its input is known in that case too, which is what framing is about.

Each field comes with three facts: the bytes the writer produces are read back
(`parses_…`), what the reader returns is something the writer accepts (`returns_…`),
and how much of a stream it takes (`takes_…`).
-/

namespace SharkMqtt.Protocol

open Lib Lib.Reader

/-- The errors of the codec. A sentinel that is wrapped with a text of its own is a
constructor with the data of that text. -/
inductive Err where
  | eof
  | unexpectedEOF
  | invalidPacket
  | packetTooLarge
  | malformedPacket
  /-- `"protocol: invalid UTF-8 byte sequence"` -/
  | invalidUTF8
  /-- `"protocol: control character U+%04X not allowed in MQTT string"` -/
  | controlCharacter (r : ℕ)
  /-- `"protocol: string length %d exceeds MQTT max 65535"` -/
  | stringTooLong (len : ℕ)
  /-- `"protocol: will message length %d exceeds MQTT max 65535"` -/
  | willMessageTooLong (len : ℕ)
  /-- `"protocol: password length %d exceeds MQTT max 65535"` -/
  | passwordTooLong (len : ℕ)
  /-- `"protocol: varint exceeds 4 bytes"` -/
  | varIntTooLong
  /-- `ErrMalformedPacket`, `"unknown property ID 0x%02X"` -/
  | unknownProperty (id : UInt8)
  /-- `ErrMalformedPacket`, `"property 0x%02X is not valid in this packet type"` -/
  | propertyNotValid (id : UInt8)
  /-- `ErrProtocolError`, `"property 0x%02X appears more than once"` -/
  | propertyRepeated (id : UInt8)
  /-- `ErrUnsupportedVersion`, `"packet properties require MQTT 5, codec is bound to
  version %d"` -/
  | propertiesBeforeV5 (version : UInt8)
  /-- `fmt.Errorf("<context>: %w", e)` -/
  | wrap (context : String) (e : Err)
deriving DecidableEq

/-- A decoder over a stream or over a `bytes.Reader`. -/
abbrev Read (α : Type) := Reader Err UInt8 α

/-! ## UTF-8 -/

/-- The range Go's table gives for the second byte of a sequence. -/
def acceptRange (lead : UInt8) : UInt8 × UInt8 :=
  if lead = 0xE0 then (0xA0, 0xBF)
  else if lead = 0xED then (0x80, 0x9F)
  else if lead = 0xF0 then (0x90, 0xBF)
  else if lead = 0xF4 then (0x80, 0x8F)
  else (0x80, 0xBF)

def second (lead b : UInt8) : Bool := (acceptRange lead).1 ≤ b && b ≤ (acceptRange lead).2

def continuation (b : UInt8) : Bool := 0x80 ≤ b && b ≤ 0xBF

/-- The runes of a string, or `none` when `utf8.ValidString` is false. -/
def runes : Str → Option (List ℕ)
  | [] => some []
  | b0 :: s0 =>
    if b0 < 0x80 then (runes s0).map (b0.toNat :: ·)
    else match s0 with
    | [] => none
    | b1 :: s1 =>
      if 0xC2 ≤ b0 && b0 ≤ 0xDF then
        if second b0 b1 then
          (runes s1).map ((b0.toNat % 32 * 64 + b1.toNat % 64) :: ·)
        else none
      else match s1 with
      | [] => none
      | b2 :: s2 =>
        if 0xE0 ≤ b0 && b0 ≤ 0xEF then
          if second b0 b1 && continuation b2 then
            (runes s2).map (((b0.toNat % 16 * 64 + b1.toNat % 64) * 64 + b2.toNat % 64) :: ·)
          else none
        else match s2 with
        | [] => none
        | b3 :: s3 =>
          if 0xF0 ≤ b0 && b0 ≤ 0xF4 then
            if second b0 b1 && continuation b2 && continuation b3 then
              (runes s3).map
                ((((b0.toNat % 8 * 64 + b1.toNat % 64) * 64 + b2.toNat % 64) * 64
                  + b3.toNat % 64) :: ·)
            else none
          else none

def controlRune (r : ℕ) : Bool := r ≤ 0x1F || (0x7F ≤ r && r ≤ 0x9F)

/-- `validateUTF8`; `none` is a nil error. -/
def validateUTF8 (s : Str) : Option Err :=
  match runes s with
  | none => some .invalidUTF8
  | some rs => (rs.find? controlRune).map .controlCharacter

/-! ## Readers and writers -/

def maxUint16 : ℕ := 65535

def readByte : Read UInt8 := next .eof

def readFull (n : ℕ) : Read Bytes := Reader.readFull .eof .unexpectedEOF n

/-- `readUint16`, also `readUint16FromReader`. -/
def readUint16 : Read UInt16 := do
  let buf ← readFull 2
  pure (UInt16.ofNat (ofBigEndian buf))

def readUint32 : Read UInt32 := do
  let buf ← readFull 4
  pure (UInt32.ofNat (ofBigEndian buf))

/-- `readVarInt`, also `readVarIntFromReader`: at most four bytes, padding allowed. -/
def readVarInt : Read UInt32 := do
  let v ← readBase128 .eof .varIntTooLong false 4 0 0
  pure (UInt32.ofNat v.1)

/-- The bytes of a string of known length. -/
def readStringBody (length : ℕ) : Read Str := do
  let s ← readFull length
  failWith (validateUTF8 s)
  pure s

def readStringBounded (maxLen : ℕ) : Read Str := do
  let lenBuf ← readFull 2
  if ofBigEndian lenBuf = 0 then pure []
  else do
    failIf (maxLen < ofBigEndian lenBuf) .malformedPacket
    readStringBody (ofBigEndian lenBuf)

def readString : Read Str := readStringBounded maxUint16

/-- The length prefix of `readStringFromReader` and `readBinaryDataFromReader`, read
byte by byte. -/
def readLength : Read ℕ := do
  let hi ← readByte
  let lo ← readByte
  pure (ofBigEndian [hi, lo])

def readStringFromReader : Read Str := do
  let length ← readLength
  if length = 0 then pure [] else readStringBody length

/-- `readBinaryDataFromReader`; the nil it returns for an empty value is `[]`. -/
def readBinaryDataFromReader : Read Bytes := do
  let length ← readLength
  readFull length

/-- The Will Message and the Password of a CONNECT. -/
def readBlob : Read Bytes := do
  let length ← readUint16
  readFull length.toNat

def writeUint16 (v : UInt16) : Bytes := bigEndian 2 v.toNat

def writeUint32 (v : UInt32) : Bytes := bigEndian 4 v.toNat

def writeVarInt (v : UInt32) : Bytes := base128 v.toNat

/-- A length prefix of 16 bits, whatever the length. -/
def writeBinaryData (data : Bytes) : Bytes := bigEndian 2 data.length ++ data

def writeString (s : Str) : Except Err Bytes :=
  if maxUint16 < s.length then .error (.stringTooLong s.length)
  else match validateUTF8 s with
    | some e => if s = [] then .ok (writeBinaryData s) else .error (.wrap "protocol" e)
    | none => .ok (writeBinaryData s)

/-! ## Integers -/

variable {n maxLen : ℕ} {s : Str}

theorem parses_readFull {bs : Bytes} (h : bs.length = n) : Parses (readFull n) bs bs := by
  subst h
  exact Reader.parses_readFull _ _ bs

theorem parses_bigEndian {α : Type} (f : ℕ → α) {v : ℕ} (h : v < 256 ^ n) :
    Parses (do let buf ← readFull n; pure (f (ofBigEndian buf))) (bigEndian n v) (f v) := by
  have hall := (parses_readFull (length_bigEndian n v)).bind_pure (g := fun buf => f (ofBigEndian buf))
  rwa [ofBigEndian_bigEndian, Nat.mod_eq_of_lt h] at hall

theorem parses_readUint16 (v : UInt16) : Parses readUint16 (writeUint16 v) v := by
  have hread : Parses readUint16 (writeUint16 v) _ := parses_bigEndian UInt16.ofNat v.toNat_lt
  rwa [UInt16.ofNat_toNat] at hread

theorem parses_readUint32 (v : UInt32) : Parses readUint32 (writeUint32 v) v := by
  have hread : Parses readUint32 (writeUint32 v) _ := parses_bigEndian UInt32.ofNat v.toNat_lt
  rwa [UInt32.ofNat_toNat] at hread

def maxVarInt : ℕ := 268435455

theorem parses_readVarInt {v : UInt32} (h : v.toNat ≤ maxVarInt) :
    Parses readVarInt (writeVarInt v) v := by
  have hlt : v.toNat < 128 ^ 4 := Nat.lt_of_le_of_lt h (by decide)
  have hread : Parses (readBase128 Err.eof .varIntTooLong false 4 0 0) (writeVarInt v) _ :=
    parses_base128 (by omega) hlt
  have hall := hread.bind_pure (g := fun v => UInt32.ofNat v.1)
  rwa [UInt32.ofNat_toNat] at hall

theorem takes_readFull {m : ℕ} (h : m ≤ n) :
    Takes n (fun a k => a.length = m ∧ k = m) (readFull m) := Reader.takes_readFull h

theorem takes_readUint16 (h : 2 ≤ n) : Takes n (fun _ k => k = 2) readUint16 :=
  (takes_readFull h).bind fun _ _ hk _ => Takes.pure hk.2

theorem returns_readByte : Returns readByte fun _ k => k = 1 := returns_next

theorem returns_readFull : Returns (readFull n) fun a k => a.length = n ∧ k = n :=
  (takes_readFull (Nat.le_refl n)).returns

theorem returns_readUint16 : Returns readUint16 fun _ k => k = 2 :=
  (takes_readUint16 (Nat.le_refl 2)).returns

theorem returns_readUint32 : Returns readUint32 fun _ k => k = 4 :=
  returns_readFull.bind fun _ _ hk => Returns.pure hk.2

/-- What is read fits four bytes, and neither its minimal form nor that of a smaller
value is longer than what was read. -/
theorem returns_readVarInt :
    Returns readVarInt fun v k => v.toNat ≤ maxVarInt ∧ ∀ w ≤ v.toNat, (base128 w).length ≤ k := by
  refine ((takes_readBase128 (Nat.le_refl 4) (by decide)).returns).bind fun v k hk => Returns.pure ?_
  obtain ⟨-, hpos, hle, hlt⟩ := hk
  rw [Nat.zero_add] at hlt
  have hmax : v.1 < 128 ^ 4 := Nat.lt_of_lt_of_le hlt (Nat.pow_le_pow_right (by omega) hle)
  have hval : (UInt32.ofNat v.1).toNat = v.1 := by exact Nat.mod_eq_of_lt (by omega)
  rw [hval]
  refine ⟨Nat.le_of_lt_succ hmax, fun w hw => ?_⟩
  exact length_base128_le hpos (Nat.lt_of_le_of_lt hw hlt)

/-! ## Strings -/

/-- The strings a 16-bit length prefix and the UTF-8 rules admit. -/
def WireString (s : Str) : Prop := s.length ≤ maxUint16 ∧ validateUTF8 s = none

theorem wireString_nil : WireString [] := ⟨by decide, rfl⟩

/-- **`writeString` accepts exactly the admitted strings.** -/
theorem writeString_eq_ok {b : Bytes} :
    writeString s = .ok b ↔ WireString s ∧ b = writeBinaryData s := by
  unfold writeString WireString
  by_cases hlen : maxUint16 < s.length
  · rw [if_pos hlen]
    constructor
    · intro h
      cases h
    · omega
  · rw [if_neg hlen]
    have hle : s.length ≤ maxUint16 := Nat.not_lt.mp hlen
    rcases hv : validateUTF8 s with - | e
    · simp [hle, eq_comm]
    · have hne : s ≠ [] := by
        rintro rfl
        cases hv
      simp [hne]

theorem length_writeBinaryData (data : Bytes) : (writeBinaryData data).length = 2 + data.length := by
  rw [writeBinaryData, List.length_append, length_bigEndian]

theorem ofBigEndian_length {s : Bytes} (h : s.length ≤ maxUint16) :
    ofBigEndian (bigEndian 2 s.length) = s.length := by
  have hlt : s.length < 256 ^ 2 := Nat.lt_succ_of_le h
  rw [ofBigEndian_bigEndian, Nat.mod_eq_of_lt hlt]

theorem parses_readStringBody (h : validateUTF8 s = none) :
    Parses (readStringBody s.length) s s := by
  refine Parses.bind_last (parses_readFull rfl) ?_
  exact (parses_failWith h).bind_nil (Parses.pure s)

theorem parses_readStringBounded (h : WireString s) (hmax : s.length ≤ maxLen) :
    Parses (readStringBounded maxLen) (writeBinaryData s) s := by
  refine Parses.bind (parses_readFull (length_bigEndian 2 _)) ?_
  rw [ofBigEndian_length h.1]
  by_cases hs : s = []
  · subst hs
    exact Parses.pure []
  · rw [if_neg (by simpa using hs)]
    exact (parses_failIf (by omega)).bind_nil (parses_readStringBody h.2)

theorem parses_readString (h : WireString s) :
    Parses readString (writeBinaryData s) s := parses_readStringBounded h h.1

theorem parses_readLength {s : Bytes} (h : s.length ≤ maxUint16) :
    Parses readLength (bigEndian 2 s.length) s.length := by
  have hval := ofBigEndian_length h
  intro t
  -- the two bytes of the prefix, read one at a time
  have hbytes : bigEndian 2 s.length =
      [UInt8.ofNat (s.length / 256), UInt8.ofNat s.length] := rfl
  rw [hbytes] at hval ⊢
  have hread : readLength ([UInt8.ofNat (s.length / 256), UInt8.ofNat s.length] ++ t) =
      (.ok (ofBigEndian [UInt8.ofNat (s.length / 256), UInt8.ofNat s.length]), t) := rfl
  rw [hread, hval]

theorem parses_readStringFromReader (h : WireString s) :
    Parses readStringFromReader (writeBinaryData s) s := by
  refine Parses.bind (parses_readLength h.1) ?_
  by_cases hs : s = []
  · subst hs
    exact Parses.pure []
  · rw [if_neg (by simpa using hs)]
    exact parses_readStringBody h.2

theorem parses_readBinaryData {data : Bytes} (h : data.length ≤ maxUint16) :
    Parses readBinaryDataFromReader (writeBinaryData data) data :=
  Parses.bind (parses_readLength h) (parses_readFull rfl)

theorem parses_readBlob {data : Bytes} (h : data.length ≤ maxUint16) :
    Parses readBlob (writeBinaryData data) data := by
  have hlt : data.length < 2 ^ 16 := Nat.lt_succ_of_le h
  have hlen : (UInt16.ofNat data.length).toNat = data.length := by exact Nat.mod_eq_of_lt hlt
  have hlength : Parses readUint16 _ _ := parses_bigEndian UInt16.ofNat hlt
  exact hlength.bind (parses_readFull hlen.symm)

theorem takes_readStringBody {length : ℕ} (hn : length ≤ n) (h : length ≤ maxUint16) :
    Takes n (fun s k => WireString s ∧ s.length = length ∧ k = length) (readStringBody length) := by
  refine (takes_readFull hn).bind fun s k hs _ => ?_
  refine takes_failWith.bind fun _ j hj _ => Takes.pure ?_
  obtain ⟨hlen, rfl⟩ := hs
  obtain ⟨hvalid, rfl⟩ := hj
  exact ⟨⟨hlen ▸ h, hvalid⟩, hlen, rfl⟩

theorem ofBigEndian_le {bs : Bytes} (h : bs.length = 2) : ofBigEndian bs ≤ maxUint16 := by
  have hlt := ofBigEndian_lt bs
  rw [h] at hlt
  exact Nat.le_of_lt_succ hlt

theorem takes_readStringBounded (h : 2 + maxLen ≤ n) :
    Takes n (fun s k => WireString s ∧ s.length ≤ maxLen ∧ k = 2 + s.length)
      (readStringBounded maxLen) := by
  refine (takes_readFull (by omega)).bind fun lenBuf k hk _ => ?_
  obtain ⟨hlen, rfl⟩ := hk
  split
  · exact Takes.pure ⟨wireString_nil, Nat.zero_le _, rfl⟩
  · refine Takes.after_failIf fun hmax => ?_
    refine (takes_readStringBody (by omega) (ofBigEndian_le hlen)).mono (Nat.le_refl _) ?_
    rintro s i ⟨hs, hslen, rfl⟩
    exact ⟨hs, by omega, by omega⟩

theorem returns_readStringBounded :
    Returns (readStringBounded maxLen) fun s k =>
      WireString s ∧ s.length ≤ maxLen ∧ k = (writeBinaryData s).length := by
  refine (takes_readStringBounded (Nat.le_refl _)).returns.mono ?_
  rintro s k ⟨hs, hmax, rfl⟩
  exact ⟨hs, hmax, (length_writeBinaryData s).symm⟩

theorem returns_readString :
    Returns readString fun s k => WireString s ∧ k = (writeBinaryData s).length :=
  returns_readStringBounded.mono fun _ _ h => ⟨h.1, h.2.2⟩

theorem returns_readLength : Returns readLength fun n k => n ≤ maxUint16 ∧ k = 2 := by
  refine returns_readByte.bind fun hi k hk => ?_
  refine returns_readByte.bind fun lo j hj => Returns.pure ?_
  subst hk hj
  exact ⟨ofBigEndian_le rfl, rfl⟩

/-- The data behind a length prefix of two bytes. -/
theorem returns_prefixed (h : n ≤ maxUint16) : Returns (readFull n) fun data k =>
    data.length ≤ maxUint16 ∧ 2 + k = (writeBinaryData data).length := by
  refine returns_readFull.mono ?_
  rintro data k ⟨rfl, rfl⟩
  exact ⟨h, (length_writeBinaryData data).symm⟩

theorem returns_readStringFromReader :
    Returns readStringFromReader fun s k => WireString s ∧ k = (writeBinaryData s).length := by
  refine returns_readLength.bind fun length k hk => ?_
  obtain ⟨hmax, rfl⟩ := hk
  split
  · exact Returns.pure ⟨wireString_nil, rfl⟩
  · refine (takes_readStringBody (Nat.le_refl _) hmax).returns.mono ?_
    rintro s i ⟨hs, hslen, rfl⟩
    exact ⟨hs, by rw [length_writeBinaryData, hslen]⟩

theorem returns_readBinaryData :
    Returns readBinaryDataFromReader fun data k =>
      data.length ≤ maxUint16 ∧ k = (writeBinaryData data).length := by
  refine returns_readLength.bind fun length k hk => ?_
  obtain ⟨hmax, rfl⟩ := hk
  exact returns_prefixed hmax

theorem returns_readBlob :
    Returns readBlob fun data k => data.length ≤ maxUint16 ∧ k = (writeBinaryData data).length := by
  refine returns_readUint16.bind fun length k hk => ?_
  subst hk
  exact returns_prefixed (Nat.le_of_lt_succ length.toNat_lt)

end SharkMqtt.Protocol
