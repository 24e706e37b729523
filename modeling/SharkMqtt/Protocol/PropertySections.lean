import Mathlib.Algebra.BigOperators.Group.Finset.Basic
import Mathlib.Algebra.Order.BigOperators.Group.Finset
import SharkMqtt.Protocol.Properties

/-!
# What a property section carries

Encoder and decoder of a property section, compared. The encoder checks the value
rules, the section an identifier may stand in and its strings; the decoder checks
those and, on top, three limits the encoder does not know: the 16-bit length of a
binary value, the four bytes of a variable byte integer, and how often a property may
occur. `Properties.Fits` is those three.

* `parses_section`: what is accepted and fits is read back, up to absence;
* `returns_section`: what is read is accepted, fits, and takes no more bytes when it
  is written again.
-/

namespace SharkMqtt.Protocol

open Lib Lib.Reader

/-! ## Single values -/

/-- The check `writeString` makes. -/
def Kind.Writable : (k : Kind) → k.Val → Prop
  | .string, (s : Str) => WireString s
  | .pair, (u : UserProperty) => WireString u.key ∧ WireString u.value
  | _, _ => True

/-- The room the wire has. -/
def Kind.Fits : (k : Kind) → k.Val → Prop
  | .varInt, (v : UInt32) => v.toNat ≤ maxVarInt
  | .binary, (data : Bytes) => data.length ≤ maxUint16
  | _, _ => True

def valueBytes : (k : Kind) → k.Val → Bytes
  | .byte, (v : UInt8) => [v]
  | .uint16, v => writeUint16 v
  | .uint32, v => writeUint32 v
  | .varInt, v => writeVarInt v
  | .string, s => writeBinaryData s
  | .binary, data => writeBinaryData data
  | .pair, (u : UserProperty) => writeBinaryData u.key ++ writeBinaryData u.value

theorem writes_writeValue (k : Kind) : Writes (writeValue k) k.Writable (valueBytes k) := by
  intro v b
  cases k with
  | string => exact writeString_eq_ok
  | pair =>
    unfold writeValue
    rw [bind_written fun _ => writeString_eq_ok, bind_written fun _ => writeString_eq_ok,
      pure_eq_ok, ← and_assoc]
    rfl
  | _ => simp [writeValue, Kind.Writable, valueBytes, eq_comm]

theorem parses_readValue {k : Kind} {v : k.Val} (hw : k.Writable v) (hf : k.Fits v) :
    Parses (readValue k) (valueBytes k v) v := by
  cases k with
  | byte => exact parses_next _ v
  | uint16 => exact parses_readUint16 v
  | uint32 => exact parses_readUint32 v
  | varInt => exact parses_readVarInt hf
  | string => exact parses_readStringFromReader hw
  | binary => exact parses_readBinaryData hf
  | pair =>
    obtain ⟨hkey, hvalue⟩ := hw
    have hsecond := (parses_readStringFromReader hvalue).bind_pure
      (g := fun value => (⟨UserProperty.key v, value⟩ : UserProperty))
    exact (parses_readStringFromReader hkey).bind hsecond

theorem returns_readValue (k : Kind) :
    Returns (readValue k) fun v n => k.Writable v ∧ k.Fits v ∧ (valueBytes k v).length ≤ n := by
  cases k with
  | byte => exact returns_readByte.mono fun v n hn => ⟨trivial, trivial, hn.ge⟩
  | uint16 => exact returns_readUint16.mono fun v n hn => ⟨trivial, trivial, hn.ge⟩
  | uint32 => exact returns_readUint32.mono fun v n hn => ⟨trivial, trivial, hn.ge⟩
  | varInt => exact returns_readVarInt.mono fun v n hn => ⟨trivial, hn.1, hn.2 _ (Nat.le_refl _)⟩
  | string => exact returns_readStringFromReader.mono fun s n hs => ⟨hs.1, trivial, hs.2.ge⟩
  | binary => exact returns_readBinaryData.mono fun data n hd => ⟨trivial, hd.1, hd.2.ge⟩
  | pair =>
    refine returns_readStringFromReader.bind fun key n hkey => ?_
    refine returns_readStringFromReader.bind fun value m hvalue => Returns.pure ?_
    refine ⟨⟨hkey.1, hvalue.1⟩, trivial, ?_⟩
    rw [hkey.2, hvalue.2, Nat.add_zero, ← List.length_append]
    exact Nat.le_refl _

/-! ## Items -/

def itemBytes (i : Item) : Bytes := i.1.code :: valueBytes i.1.kind i.2

/-- The checks the encoder makes of one property instance. -/
structure ItemAccepted (locus : Locus) (i : Item) : Prop where
  allowed : locus ∈ i.1.loci
  value : i.1.refuses i.2 = false
  writable : i.1.kind.Writable i.2

theorem writes_encodeProperty :
    Writes encodeProperty (fun i => i.1.kind.Writable i.2) itemBytes := by
  intro i b
  unfold encodeProperty
  rw [bind_written (writes_writeValue i.1.kind i.2), pure_eq_ok]
  rfl

namespace PropID

theorem mem_propertyProbes (id : PropID) : id ∈ propertyProbes := by cases id <;> decide

theorem nodup_propertyProbes : propertyProbes.Nodup := by decide

theorem ofCode_code (id : PropID) : ofCode id.code = some id := by cases id <;> decide

end PropID

namespace Properties

variable {p : Properties}

theorem mem_items {i : Item} : i ∈ p.items ↔ i.2 ∈ p.get i.1 := by
  obtain ⟨id, v⟩ := i
  constructor
  · intro h
    obtain ⟨id', -, hmem⟩ := List.mem_flatMap.mp h
    obtain ⟨v', hv', heq⟩ := List.mem_map.mp hmem
    cases heq
    exact hv'
  · intro h
    exact List.mem_flatMap.mpr ⟨id, PropID.mem_propertyProbes id, List.mem_map_of_mem h⟩

theorem forall_items {P : Item → Prop} :
    (∀ i ∈ p.items, P i) ↔ ∀ id, ∀ v ∈ p.get id, P ⟨id, v⟩ := by
  constructor
  · intro h id v hv
    exact h ⟨id, v⟩ (mem_items.mpr hv)
  · intro h i hi
    exact h i.1 i.2 (mem_items.mp hi)

/-- The bytes between the length and the end of the section. -/
def dataBytes (p : Properties) : Bytes := p.items.flatMap itemBytes

def sectionBytes (p : Properties) : Bytes :=
  writeVarInt (UInt32.ofNat p.dataBytes.length) ++ p.dataBytes

theorem validatePropertyLoci_eq_none {locus : Locus} :
    validatePropertyLoci p locus = none ↔ ∀ i ∈ p.items, locus ∈ i.1.loci := by
  unfold validatePropertyLoci
  rw [Option.map_eq_none_iff, List.find?_eq_none, forall_items]
  constructor
  · intro h id v hv
    have hid := h id (PropID.mem_propertyProbes id)
    by_contra hlocus
    exact hid (decide_eq_true ⟨List.ne_nil_of_mem hv, hlocus⟩)
  · intro h id _ hbad
    obtain ⟨hne, hlocus⟩ := of_decide_eq_true hbad
    obtain ⟨v, hv⟩ := List.exists_mem_of_ne_nil _ hne
    exact hlocus (h id v hv)

/-- **What `encodeProperties` accepts and writes.** -/
theorem encodeProperties_eq_ok {locus : Locus} {b : Bytes} :
    encodeProperties p locus = .ok b ↔
      (∀ i ∈ p.items, ItemAccepted locus i) ∧ b = p.sectionBytes := by
  unfold encodeProperties validateProperties
  split_ifs with hrefuse
  · obtain ⟨i, hi, hbad⟩ := List.any_eq_true.mp hrefuse
    constructor
    · intro h
      cases h
    · rintro ⟨hall, -⟩
      rw [(hall i hi).value] at hbad
      cases hbad
  · have hvalue : ∀ i ∈ p.items, i.1.refuses i.2 = false := by
      intro i hi
      by_contra hbad
      exact hrefuse (List.any_eq_true.mpr ⟨i, hi, eq_true_of_ne_false hbad⟩)
    rcases hloci : validatePropertyLoci p locus with - | e
    · have hallowed := validatePropertyLoci_eq_none.mp hloci
      rw [bind_written (writes_writeAll writes_encodeProperty p.items), pure_eq_ok]
      refine and_congr_left fun _ => ?_
      constructor
      · exact fun hw i hi => ⟨hallowed i hi, hvalue i hi, hw i hi⟩
      · exact fun hall i hi => (hall i hi).writable
    · constructor
      · intro h
        cases h
      · rintro ⟨hall, -⟩
        rw [validatePropertyLoci_eq_none.mpr fun i hi => (hall i hi).allowed] at hloci
        cases hloci

/-! ## Reading back what was written -/

/-- What only the decoder checks. -/
structure Fits (locus : Locus) (p : Properties) : Prop where
  values : ∀ i ∈ p.items, i.1.kind.Fits i.2
  users : p.userProperties.length ≤ maxUserProperties
  single : locus ≠ .publish → p.subscriptionIdentifier.length ≤ 1

theorem sum_probes_single {f : PropID → ℕ} (id : PropID) (h : ∀ id' ≠ id, f id' = 0) :
    (propertyProbes.map f).sum = f id := by
  rw [← List.sum_toFinset f PropID.nodup_propertyProbes]
  refine Finset.sum_eq_single id (fun id' _ hne => h id' hne) fun hmem => ?_
  exact absurd (List.mem_toFinset.mpr (PropID.mem_propertyProbes id)) hmem

/-- An identifier occurs in the section as often as the record has values for it. -/
theorem count_items (p : Properties) (id : PropID) :
    (p.items.map Sigma.fst).count id = (p.get id).length := by
  have hblock : ∀ id' : PropID,
      ((p.get id').map fun v => (⟨id', v⟩ : Item)).map Sigma.fst =
        List.replicate (p.get id').length id' := by
    intro id'
    rw [List.eq_replicate_iff]
    simp
  unfold items
  rw [List.map_flatMap, List.count_flatMap, sum_probes_single id]
  · exact (congrArg (List.count id) (hblock id)).trans List.count_replicate_self
  · intro id' hne
    refine (congrArg (List.count id) (hblock id')).trans ?_
    rw [List.count_replicate]
    simp [hne]

end Properties

/-- The state of the decoder and the items still to come. -/
structure Expecting (locus : Locus) (st : Section) (l : List Item) : Prop where
  accepted : ∀ i ∈ l, ItemAccepted locus i
  fits : ∀ i ∈ l, i.1.kind.Fits i.2
  once : ∀ id, propertyMayRepeat locus id = false → st.seen.count id + (l.map Sigma.fst).count id ≤ 1
  users : st.props.userProperties.length + (l.map Sigma.fst).count .userProperty ≤ maxUserProperties

variable {locus : Locus} {st : Section} (p : Properties)

theorem Properties.expecting_items {p : Properties} (ha : ∀ i ∈ p.items, ItemAccepted locus i)
    (hf : p.Fits locus) : Expecting locus {} p.items where
  accepted := ha
  fits := hf.values
  once id hid := by
    show 0 + _ ≤ 1
    rw [Nat.zero_add, p.count_items id]
    by_cases hslice : id.isSlice = false
    · exact p.length_get_le_one hslice
    · -- a slice that may not repeat is a Subscription Identifier outside PUBLISH
      have hsub : id = .subscriptionIdentifier ∧ locus ≠ .publish := by
        simp only [PropID.isSlice, propertyMayRepeat, Bool.or_eq_false_iff,
          Bool.and_eq_false_iff, decide_eq_false_iff_not] at hslice hid
        by_cases hs : id = .subscriptionIdentifier
        · exact ⟨hs, hid.2.resolve_left (fun h => h hs)⟩
        · exact absurd ⟨hs, hid.1⟩ hslice
      obtain ⟨rfl, hlocus⟩ := hsub
      exact hf.single hlocus
  users := by
    show 0 + _ ≤ _
    rw [Nat.zero_add, p.count_items .userProperty]
    exact hf.users

theorem userProperties_put (i : Item) :
    (p.put i.1 i.2).userProperties.length =
      p.userProperties.length + if i.1 = .userProperty then 1 else 0 := by
  obtain ⟨id, v⟩ := i
  by_cases hid : id = .userProperty
  · subst hid
    exact List.length_append
  · have hget := p.get_put_ne v (Ne.symm hid)
    show ((p.put id v).get .userProperty).length = _
    rw [hget, if_neg hid]
    rfl

theorem Expecting.round {i : Item} {l : List Item} (h : Expecting locus st (i :: l)) :
    Parses (decodeProperty locus st) (itemBytes i) (st.add i) ∧ Expecting locus (st.add i) l := by
  obtain ⟨hi, hl⟩ := List.forall_mem_cons.mp h.accepted
  obtain ⟨hfi, hfl⟩ := List.forall_mem_cons.mp h.fits
  have hcount : ∀ id, ((i :: l).map Sigma.fst).count id =
      (l.map Sigma.fst).count id + if i.1 = id then 1 else 0 := by
    intro id
    rw [List.map_cons, List.count_cons]
    simp
  have husers := h.users
  rw [hcount] at husers
  constructor
  · refine Parses.bind (parses_next _ i.1.code) ?_
    rw [PropID.ofCode_code]
    have hseen : ¬ (i.1 ∈ st.seen ∧ propertyMayRepeat locus i.1 = false) := by
      rintro ⟨hmem, hrep⟩
      have honce := h.once i.1 hrep
      have hpos := List.count_pos_iff.mpr hmem
      rw [hcount, if_pos rfl] at honce
      omega
    have hroom : ¬ (i.1 = .userProperty ∧
        maxUserProperties ≤ st.props.userProperties.length) := by
      rintro ⟨hid, hfull⟩
      rw [if_pos hid] at husers
      omega
    refine (parses_failIf (not_not.mpr hi.allowed)).bind_nil ?_
    refine (parses_failIf hseen).bind_nil ?_
    refine (parses_failIf hroom).bind_nil ?_
    refine (parses_readValue hi.writable hfi).bind_last ?_
    have haccept : ¬ i.1.refuses i.2 = true := by
      rw [hi.value]
      exact Bool.false_ne_true
    exact (parses_failIf haccept).bind_nil (Parses.pure (st.add i))
  · refine ⟨hl, hfl, fun id hid => ?_, ?_⟩
    · have honce := h.once id hid
      rw [hcount] at honce
      show (i.1 :: st.seen).count id + _ ≤ 1
      rw [List.count_cons]
      simp only [beq_iff_eq]
      omega
    · show (st.props.put i.1 i.2).userProperties.length + _ ≤ _
      rw [userProperties_put]
      omega

namespace Properties

/-- The record as it comes back: an empty binary value is nil. -/
def norm (p : Properties) : Properties :=
  { p with
    correlationData := p.correlationData.bind nonNil
    authenticationData := p.authenticationData.bind nonNil }

theorem toList_bind_nonNil (o : Option Bytes) :
    (o.bind nonNil).toList = o.toList.filter fun data => !Kind.blank .binary data := by
  cases o with
  | none => rfl
  | some data =>
    by_cases hd : data = []
    · subst hd
      rfl
    · have hkeep : (!Kind.blank .binary data) = true := by simpa [Kind.blank] using hd
      rw [Option.bind_some, nonNil, if_neg hd]
      exact (List.filter_cons_of_pos (p := fun data => !Kind.blank .binary data) (l := [])
        hkeep).symm

theorem filter_present (s : Str) :
    (present s).filter (fun s => !Kind.blank .string s) = present s := by
  unfold present
  split
  · rfl
  · rename_i hs
    have hkeep : (!Kind.blank .string s) = true := by simpa [Kind.blank] using hs
    exact List.filter_cons_of_pos hkeep

variable (p : Properties)

theorem get_norm (id : PropID) : p.norm.get id = (p.get id).filter fun v => !id.kind.blank v := by
  have hall : ∀ {α : Type} (l : List α), l = l.filter fun _ => !false := by simp
  cases id <;>
    first
    | exact hall _
    | exact (filter_present _).symm
    | exact toList_bind_nonNil _

def putAll (p : Properties) (id : PropID) (vs : List id.kind.Val) : Properties :=
  vs.foldl (fun q v => q.put id v) p

theorem get_putAll_ne {id id' : PropID} (vs : List id.kind.Val) (h : id' ≠ id) :
    (p.putAll id vs).get id' = p.get id' := by
  induction vs generalizing p with
  | nil => rfl
  | cons v vs ih => exact (ih (p.put id v)).trans (p.get_put_ne v h)

theorem get_putAll_self {p : Properties} {id : PropID} {vs : List id.kind.Val}
    (hp : p.get id = []) (hvs : id.isSlice = false → vs.length ≤ 1) :
    (p.putAll id vs).get id = vs.filter fun v => !id.kind.blank v := by
  by_cases hslice : id.isSlice = true
  · -- a slice grows at its end
    have hgrow : ∀ (vs : List id.kind.Val) (q : Properties), (q.putAll id vs).get id =
        q.get id ++ vs.filter fun v => !id.kind.blank v := by
      intro vs
      induction vs with
      | nil =>
        intro q
        exact (List.append_nil _).symm
      | cons v vs ih =>
        intro q
        have hput := q.get_put_self id v
        rw [if_pos hslice] at hput
        refine (ih (q.put id v)).trans ?_
        rw [hput]
        by_cases hblank : id.kind.blank v = true <;> simp [hblank]
    rw [hgrow, hp, List.nil_append]
  · have hone := hvs (eq_false_of_ne_true hslice)
    match vs, hone with
    | [], _ => exact hp
    | [v], _ =>
      have hput := p.get_put_self id v
      rw [if_neg hslice] at hput
      refine hput.trans ?_
      by_cases hblank : id.kind.blank v = true <;> simp [hblank]

theorem get_foldl_putAll (id : PropID) :
    ∀ (l : List PropID) (q : Properties), l.Nodup → (∀ id ∈ l, q.get id = []) →
      (l.foldl (fun q id => q.putAll id (p.get id)) q).get id =
        if id ∈ l then p.norm.get id else q.get id := by
  intro l
  induction l with
  | nil =>
    intro q _ _
    rfl
  | cons id' l ih =>
    intro q hnodup hempty
    obtain ⟨hnotin, hnodup'⟩ := List.nodup_cons.mp hnodup
    obtain ⟨hhead, htail⟩ := List.forall_mem_cons.mp hempty
    have hq : ∀ id ∈ l, (q.putAll id' (p.get id')).get id = [] := by
      intro j hj
      have hne : j ≠ id' := by
        rintro rfl
        exact hnotin hj
      rw [q.get_putAll_ne _ hne, htail j hj]
    rw [List.foldl_cons, ih _ hnodup' hq]
    by_cases hid : id = id'
    · subst hid
      rw [if_neg hnotin, if_pos List.mem_cons_self,
        get_putAll_self hhead (fun hs => p.length_get_le_one hs), get_norm]
    · rw [q.get_putAll_ne _ hid]
      simp [hid]

/-- **Storing all items gives the record back.** -/
theorem foldl_items : (p.items.foldl Section.add {}).props = p.norm := by
  have hprops : ∀ (l : List Item) (st : Section), (l.foldl Section.add st).props =
      l.foldl (fun q i => Properties.put q i.1 i.2) st.props := by
    intro l
    induction l with
    | nil =>
      intro st
      rfl
    | cons i l ih =>
      intro st
      exact ih (st.add i)
  have hblocks : p.items.foldl (fun q i => Properties.put q i.1 i.2) {} =
      propertyProbes.foldl (fun q id => Properties.putAll q id (p.get id)) {} := by
    unfold items putAll
    rw [List.foldl_flatMap]
    simp only [List.foldl_map]
  rw [hprops, hblocks]
  refine ext_get fun id => ?_
  rw [p.get_foldl_putAll id propertyProbes {} PropID.nodup_propertyProbes fun id _ => get_empty id,
    if_pos (PropID.mem_propertyProbes id)]

end Properties

/-! ## Whole sections -/

theorem returns_decodeProperty :
    Returns (decodeProperty locus st) fun st' k =>
      ∃ i : Item, st' = st.add i ∧ ItemAccepted locus i ∧ i.1.kind.Fits i.2 ∧
        (itemBytes i).length ≤ k ∧
        ¬ (i.1 ∈ st.seen ∧ propertyMayRepeat locus i.1 = false) ∧
        ¬ (i.1 = .userProperty ∧ maxUserProperties ≤ st.props.userProperties.length) := by
  refine returns_readByte.bind fun propType k hk => ?_
  rcases hcode : PropID.ofCode propType with - | id
  · exact Returns.throw
  · refine returns_failIf.bind fun _ k₁ h₁ => ?_
    refine returns_failIf.bind fun _ k₂ h₂ => ?_
    refine returns_failIf.bind fun _ k₃ h₃ => ?_
    refine (returns_readValue id.kind).bind fun v k₄ h₄ => ?_
    refine returns_failIf.bind fun _ k₅ h₅ => Returns.pure ?_
    obtain ⟨hallowed, rfl⟩ := h₁
    obtain ⟨hseen, rfl⟩ := h₂
    obtain ⟨hroom, rfl⟩ := h₃
    obtain ⟨hwritable, hfits, hlen⟩ := h₄
    obtain ⟨hvalue, rfl⟩ := h₅
    refine ⟨⟨id, v⟩, rfl, ⟨not_not.mp hallowed, eq_false_of_ne_true hvalue, hwritable⟩, hfits,
      ?_, hseen, hroom⟩
    show (valueBytes id.kind v).length + 1 ≤ _
    omega

theorem decodeProperty_takes (locus : Locus) (st : Section) :
    Returns (decodeProperty locus st) fun _ k => 0 < k := by
  refine returns_decodeProperty.mono ?_
  rintro st' k ⟨i, -, -, -, hlen, -, -⟩
  have hpos : 0 < (itemBytes i).length := Nat.succ_pos _
  omega

theorem Properties.length_dataBytes : p.dataBytes.length =
    (propertyProbes.map fun id =>
      ((p.get id).map fun v => (itemBytes ⟨id, v⟩).length).sum).sum := by
  unfold dataBytes items
  rw [List.flatMap_assoc, List.length_flatMap]
  congr 2
  funext id
  rw [List.length_flatMap, List.map_map]
  rfl

theorem Properties.length_dataBytes_put (i : Item) :
    (p.put i.1 i.2).dataBytes.length ≤ p.dataBytes.length + (itemBytes i).length := by
  obtain ⟨id, v⟩ := i
  show (p.put id v).dataBytes.length ≤ p.dataBytes.length + (itemBytes ⟨id, v⟩).length
  rw [length_dataBytes, length_dataBytes, ← List.sum_toFinset _ PropID.nodup_propertyProbes,
    ← List.sum_toFinset _ PropID.nodup_propertyProbes]
  have hmem : id ∈ propertyProbes.toFinset := List.mem_toFinset.mpr (PropID.mem_propertyProbes id)
  rw [← Finset.add_sum_erase _ _ hmem, ← Finset.add_sum_erase _ _ hmem]
  have hothers : ∀ id' ∈ propertyProbes.toFinset.erase id,
      (((p.put id v).get id').map fun w => (itemBytes ⟨id', w⟩).length).sum =
        ((p.get id').map fun w => (itemBytes ⟨id', w⟩).length).sum := by
    intro id' hid'
    rw [p.get_put_ne v (Finset.ne_of_mem_erase hid')]
  rw [Finset.sum_congr rfl hothers]
  have hself : (((p.put id v).get id).map fun w => (itemBytes ⟨id, w⟩).length).sum ≤
      ((p.get id).map fun w => (itemBytes ⟨id, w⟩).length).sum + (itemBytes ⟨id, v⟩).length := by
    rw [p.get_put_self id v, List.map_append, List.sum_append]
    have hold : ((if id.isSlice then p.get id else []).map
        fun w => (itemBytes ⟨id, w⟩).length).sum ≤
          ((p.get id).map fun w => (itemBytes ⟨id, w⟩).length).sum := by
      split <;> simp
    have hnew : ((if id.kind.blank v then [] else [v]).map
        fun w => (itemBytes ⟨id, w⟩).length).sum ≤ (itemBytes ⟨id, v⟩).length := by
      split <;> simp
    omega
  omega

/-- What the loop of `decodeProperties` maintains after `k` bytes. -/
structure Section.Sound (locus : Locus) (st : Section) (k : ℕ) : Prop where
  items : ∀ id, ∀ v ∈ st.props.get id,
    ItemAccepted locus ⟨id, v⟩ ∧ id.kind.Fits v ∧ id.kind.blank v = false
  users : st.props.userProperties.length ≤ maxUserProperties
  unseen : ∀ id, id ∉ st.seen → st.props.get id = []
  single : locus ≠ .publish → st.props.subscriptionIdentifier.length ≤ 1
  size : st.props.dataBytes.length ≤ k

theorem Section.sound_empty (locus : Locus) : Section.Sound locus {} 0 where
  items id v hv := by
    rw [Properties.get_empty] at hv
    cases hv
  users := Nat.zero_le _
  unseen id _ := Properties.get_empty id
  single _ := Nat.zero_le _
  size := by decide

theorem Section.Sound.add {k n : ℕ} {i : Item} (h : st.Sound locus k) (hi : ItemAccepted locus i)
    (hf : i.1.kind.Fits i.2) (hlen : (itemBytes i).length ≤ n)
    (hseen : ¬ (i.1 ∈ st.seen ∧ propertyMayRepeat locus i.1 = false))
    (hroom : ¬ (i.1 = .userProperty ∧ maxUserProperties ≤ st.props.userProperties.length)) :
    (st.add i).Sound locus (k + n) := by
  obtain ⟨id, v⟩ := i
  have hself := st.props.get_put_self id v
  refine ⟨fun id' v' hv' => ?_, ?_, fun id' hid' => ?_, fun hlocus => ?_, ?_⟩
  · by_cases hid : id' = id
    · subst hid
      have hv : v' ∈ (if id'.isSlice then st.props.get id' else []) ++
          if id'.kind.blank v then [] else [v] := hself ▸ hv'
      rcases List.mem_append.mp hv with hold | hnew
      · have hmem : v' ∈ st.props.get id' := by
          split at hold
          · exact hold
          · cases hold
        exact h.items id' v' hmem
      · split at hnew
        · cases hnew
        · rename_i hblank
          rw [List.mem_singleton.mp hnew]
          exact ⟨hi, hf, eq_false_of_ne_true hblank⟩
    · have hget : (st.add ⟨id, v⟩).props.get id' = st.props.get id' := st.props.get_put_ne v hid
      rw [hget] at hv'
      exact h.items id' v' hv'
  · show (st.props.put id v).userProperties.length ≤ maxUserProperties
    have hput := userProperties_put st.props ⟨id, v⟩
    have husers := h.users
    by_cases hid : id = .userProperty
    · have hfree : ¬ maxUserProperties ≤ st.props.userProperties.length := fun hc =>
        hroom ⟨hid, hc⟩
      rw [hput, if_pos hid]
      omega
    · rw [hput, if_neg hid]
      omega
  · have hmem : id' ≠ id ∧ id' ∉ st.seen := by
      simpa [Section.add] using hid'
    exact (st.props.get_put_ne v hmem.1).trans (h.unseen id' hmem.2)
  · show ((st.props.put id v).get .subscriptionIdentifier).length ≤ 1
    by_cases hid : id = .subscriptionIdentifier
    · subst hid
      -- outside PUBLISH a Subscription Identifier must be the first
      have hrep : propertyMayRepeat locus .subscriptionIdentifier = false := by
        simp [propertyMayRepeat, hlocus]
      have hfirst : st.props.get .subscriptionIdentifier = [] :=
        h.unseen _ fun hmem => hseen ⟨hmem, hrep⟩
      rw [hself, hfirst]
      exact Nat.le_refl 1
    · rw [st.props.get_put_ne v (Ne.symm hid)]
      exact h.single hlocus
  · have hput : (st.props.put id v).dataBytes.length ≤ _ :=
      st.props.length_dataBytes_put ⟨id, v⟩
    have hsize := h.size
    show (st.props.put id v).dataBytes.length ≤ k + n
    omega

namespace Properties

/-- A section `decodeProperties` returns: accepted by the encoder, within the
decoder's limits, and without values that come back as absence. -/
structure Plain (locus : Locus) (p : Properties) : Prop where
  accepted : ∀ i ∈ p.items, ItemAccepted locus i
  fits : p.Fits locus
  norm : p.norm = p

end Properties

theorem Section.Sound.plain {k : ℕ} (h : st.Sound locus k) : st.props.Plain locus where
  accepted := Properties.forall_items.mpr fun id v hv => (h.items id v hv).1
  fits := ⟨Properties.forall_items.mpr fun id v hv => (h.items id v hv).2.1, h.users, h.single⟩
  norm := by
    refine Properties.ext_get fun id => ?_
    rw [Properties.get_norm, List.filter_eq_self]
    intro v hv
    rw [(h.items id v hv).2.2]
    rfl

def sectionWire : Option Properties → Bytes
  | none => writeVarInt 0
  | some p => p.sectionBytes

/-- A section up to what the wire does not carry: an all-absent record is nil, and so
is an empty binary value. -/
def canonSection : Option Properties → Option Properties
  | none => none
  | some p => if p.norm = {} then none else some p.norm

def SectionAccepted (locus : Locus) (o : Option Properties) : Prop :=
  ∀ p ∈ o, ∀ i ∈ p.items, ItemAccepted locus i

def SectionFits (locus : Locus) (o : Option Properties) : Prop := ∀ p ∈ o, p.Fits locus

def SectionPlain (locus : Locus) (o : Option Properties) : Prop := ∀ p ∈ o, p.Plain locus

/-- The loop of `decodeProperties` on the bytes of a record. -/
theorem whole_items {p : Properties} (ha : ∀ i ∈ p.items, ItemAccepted locus i)
    (hf : p.Fits locus) :
    Whole (untilEmpty (decodeProperty locus) {}) p.dataBytes (p.items.foldl Section.add {}) :=
  untilEmpty_chunks (decodeProperty_takes locus) itemBytes Section.add (Expecting locus)
    (fun _ => List.cons_ne_nil _ _) (fun _ _ _ h => Expecting.round h) p.items {}
    (Properties.expecting_items ha hf)

theorem Properties.norm_norm : p.norm.norm = p.norm := by
  refine ext_get fun id => ?_
  rw [get_norm, get_norm]
  simp

/-- **What is written is read back.** -/
theorem parses_section {o : Option Properties} (ha : SectionAccepted locus o)
    (hf : SectionFits locus o) (hsize : (sectionWire o).length ≤ maxVarInt) :
    ∃ r, Parses (decodeProperties locus) (sectionWire o) r ∧ canonSection r = canonSection o := by
  cases o with
  | none =>
    refine ⟨none, ?_, rfl⟩
    exact (parses_readVarInt (by decide)).bind_last (Parses.pure none)
  | some p =>
    have hdata : p.dataBytes.length ≤ maxVarInt := by
      have happ : (sectionWire (some p)).length =
          (writeVarInt (UInt32.ofNat p.dataBytes.length)).length + p.dataBytes.length :=
        List.length_append
      omega
    have hmax : maxVarInt < 2 ^ 32 := by decide
    have hlen : (UInt32.ofNat p.dataBytes.length).toNat = p.dataBytes.length := by
      exact Nat.mod_eq_of_lt (by omega)
    have hvarint := parses_readVarInt (hlen ▸ hdata)
    have hloop := whole_items (ha p rfl) (hf p rfl)
    have hnorm := p.foldl_items
    by_cases hnil : p.dataBytes = []
    · -- nothing on the wire: the loop stops at once, so the record is all absent
      have hempty : p.norm = {} := by
        rw [hnil] at hloop
        rw [← hnorm, hloop.unique rfl]
      refine ⟨none, ?_, by simp [canonSection, hempty]⟩
      have hzero : UInt32.ofNat p.dataBytes.length = 0 := by
        rw [hnil]
        rfl
      refine Parses.bind hvarint ?_
      rw [hnil]
      exact Parses.pure none
    · refine ⟨some p.norm, ?_, by simp [canonSection, p.norm_norm]⟩
      have hne : UInt32.ofNat p.dataBytes.length ≠ 0 := by
        intro hzero
        rw [hzero] at hlen
        exact absurd hlen.symm (by simpa using hnil)
      refine Parses.bind hvarint ?_
      rw [if_neg hne, hlen]
      refine parses_remaining fun n hn => ?_
      refine (parses_failIf (by omega)).bind_nil ?_
      refine (parses_readFull rfl).bind_last ?_
      rw [← hnorm]
      exact (parses_inside hloop).bind_pure (g := fun st => some st.props)

/-- **What is read can be written again, in no more bytes.** -/
theorem returns_section (locus : Locus) :
    Returns (decodeProperties locus) fun o k =>
      SectionPlain locus o ∧ (sectionWire o).length ≤ k := by
  refine returns_readVarInt.bind fun propLen k hk => ?_
  obtain ⟨hmax, hlen⟩ := hk
  split
  · have hnone : SectionPlain locus none := by
      intro p hp
      cases hp
    exact Returns.pure ⟨hnone, hlen 0 (Nat.zero_le _)⟩
  · refine returns_remaining.bind fun len k₁ hk₁ => ?_
    refine returns_failIf.bind fun _ k₂ hk₂ => ?_
    refine returns_readFull.bind fun buf k₃ hk₃ => ?_
    obtain ⟨hbuf, rfl⟩ := hk₃
    have hloop : Returns (inside buf (untilEmpty (decodeProperty locus) {})) fun st j =>
        st.Sound locus buf.length ∧ j = 0 := by
      intro s st rest hr
      rcases hrun : untilEmpty (decodeProperty locus) {} buf with ⟨res, left⟩
      have hst : (res, s) = (Except.ok st, rest) := by
        rw [← hr]
        unfold inside
        rw [hrun]
      cases hst
      have hround : ∀ (st : Section) (k : ℕ), st.Sound locus k →
          Returns (decodeProperty locus st) fun st' j => st'.Sound locus (k + j) := by
        intro st k hst
        refine returns_decodeProperty.mono ?_
        rintro st' j ⟨i, rfl, hi, hf, hbytes, hseen, hroom⟩
        exact hst.add hi hf hbytes hseen hroom
      have hend := returns_untilEmpty (decodeProperty_takes locus) hround buf {} 0 st left
        (Section.sound_empty locus) hrun
      rw [Nat.zero_add] at hend
      exact ⟨[], rfl, hend.2, rfl⟩
    refine hloop.bind fun st k₄ hk₄ => Returns.pure ?_
    obtain ⟨hsound, rfl⟩ := hk₄
    refine ⟨fun p hp => ?_, ?_⟩
    · cases hp
      exact hsound.plain
    · have hdata : st.props.dataBytes.length ≤ propLen.toNat := hbuf ▸ hsound.size
      have hmod : (UInt32.ofNat st.props.dataBytes.length).toNat =
          st.props.dataBytes.length := by
        have hbound : maxVarInt < 2 ^ 32 := by decide
        exact Nat.mod_eq_of_lt (by omega)
      have hlenBytes := hlen _ hdata
      show (writeVarInt _ ++ st.props.dataBytes).length ≤ _
      rw [List.length_append, writeVarInt, hmod]
      omega

end SharkMqtt.Protocol
