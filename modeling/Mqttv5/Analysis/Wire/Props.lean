import Mqttv5.Analysis.Wire.Reading
import Mqttv5.Analysis.Wire.Writing

/-!
# Walking an encoded property section

The walks over the bytes of a section find the properties it was built from: the lookup of an
identifier, the list of the user properties, and the check, which has no objection to a section
whose identifiers are permitted and occur once and whose values are in range.
-/

set_option autoImplicit false

namespace Mqttv5.Analysis.Wire

open Interface.Wire
open Model (Bytes ReasonCode)
open Model.Wire
open Program (decodeVarint decodeVarintLoop propValueSize propLayout PropLayout uint16
  putUint32)
open Program.Wire
open List hiding lookup

variable {bs s buf rest raw : Bytes} {v : PropVal} {k n : ℕ} {id : UInt8} {e : Entry}
  {es : List Entry} {α : Type} {p : Properties} {t : PacketType} {allowed ids : List UInt8}

/-- The layout of a value. -/
def PropVal.layout : PropVal → PropLayout
  | .byte _ => .fixed 1
  | .uint16 _ => .fixed 2
  | .uint32 _ => .fixed 4
  | .varint _ => .varint
  | .text _ => .prefixed
  | .pair _ _ => .stringPair

/-- A property whose value is of the kind its identifier says, and fits. -/
def Fits (e : Entry) : Prop := propLayout e.id = PropVal.layout e.val ∧ e.val.Sized

theorem putUint16_bytes (a b : UInt8) : putUint16 (a.toNat * 256 + b.toNat) = [a, b] := by
  have ha := a.toNat_lt
  have hb := b.toNat_lt
  simp only [putUint16, List.cons.injEq, and_true]
  constructor <;> apply UInt8.toNat_inj.mp <;> simp only [UInt8.toNat_ofNat'] <;> omega

theorem putUint32_bytes (a b c d : UInt8) :
    putUint32 (((a.toNat * 256 + b.toNat) * 256 + c.toNat) * 256 + d.toNat) = [a, b, c, d] := by
  have ha := a.toNat_lt
  have hb := b.toNat_lt
  have hc := c.toNat_lt
  have hd := d.toNat_lt
  simp only [putUint32, List.cons.injEq, and_true]
  refine ⟨?_, ?_, ?_, ?_⟩ <;> apply UInt8.toNat_inj.mp <;>
    simp only [UInt8.toNat_ofNat'] <;> omega

theorem readText_text (h : s.length ≤ 0xffff) (rest : Bytes) :
    readText (text s ++ rest) = some (s, rest) := by
  have hu := uint16_put h (s ++ rest)
  rw [text, append_assoc]
  change (if uint16 (putUint16 s.length ++ (s ++ rest)) ≤ (s ++ rest).length then
    some ((s ++ rest).take (uint16 (putUint16 s.length ++ (s ++ rest))),
      (s ++ rest).drop (uint16 (putUint16 s.length ++ (s ++ rest)))) else none) = _
  rw [hu, if_pos (by simp), take_left, drop_left]

theorem readText_some (h : readText buf = some (s, rest)) :
    s.length ≤ 0xffff ∧ buf = text s ++ rest := by
  match buf, h with
  | a :: b :: tail, h =>
    simp only [readText] at h
    split at h
    · next hle =>
      cases h
      have ha := a.toNat_lt
      have hb := b.toNat_lt
      rw [text, length_take, Nat.min_eq_left hle, putUint16_bytes]
      exact ⟨by omega, by simp⟩
    · cases h

/-- What is read as a property fits, and stands in the section as it would be written; a
variable byte integer may be longer than that. -/
theorem readVal_some (h : readVal id buf = some (v, rest)) :
    Fits ⟨id, v⟩ ∧ (buf = v.bytes ++ rest ∨ ∃ i n, v = .varint i ∧
      decodeVarint buf = some (i.toNat, n) ∧ rest = buf.drop n) := by
  unfold readVal at h
  rw [layoutOf_eq] at h
  split at h
  · next hl =>
    split at h
    · cases h
      exact ⟨⟨hl, trivial⟩, .inl rfl⟩
    · cases h
  · next hl =>
    split at h
    · next a b _ =>
      cases h
      have hb : (UInt16.ofNat (a.toNat * 256 + b.toNat)).toNat = a.toNat * 256 + b.toNat := by
        have := a.toNat_lt
        have := b.toNat_lt
        rw [UInt16.toNat_ofNat']
        omega
      exact ⟨⟨hl, trivial⟩, .inl (by rw [PropVal.bytes, hb, putUint16_bytes]; rfl)⟩
    · cases h
  · next hl =>
    split at h
    · next a b c d _ =>
      cases h
      refine ⟨⟨hl, trivial⟩, .inl ?_⟩
      rw [PropVal.bytes, UInt32.toNat_ofNat', Nat.mod_eq_of_lt, putUint32_bytes]
      · rfl
      · have := a.toNat_lt
        have := b.toNat_lt
        have := c.toNat_lt
        have := d.toNat_lt
        omega
    · cases h
  · next hl =>
    obtain ⟨⟨i, n⟩, hd, h⟩ := Option.map_eq_some_iff.mp h
    cases h
    have hlen := (decodeVarint_length hd).2.2
    have hlt : i < 128 ^ 4 := lt_of_lt_of_le (decodeVarint_value hd)
      (Nat.pow_le_pow_right (by omega) hlen)
    have hi : (UInt32.ofNat i).toNat = i := by
      rw [UInt32.toNat_ofNat']
      omega
    refine ⟨⟨hl, ?_⟩, .inr ⟨_, n, rfl, by rw [hi, hd], rfl⟩⟩
    change (UInt32.ofNat i).toNat ≤ 268435455
    omega
  · next hl =>
    obtain ⟨⟨s, rest⟩, hs, h⟩ := Option.map_eq_some_iff.mp h
    cases h
    obtain ⟨hlen, rfl⟩ := readText_some hs
    exact ⟨⟨hl, hlen⟩, .inl rfl⟩
  · next hl =>
    obtain ⟨⟨k, mid⟩, hk, h⟩ := Option.bind_eq_some_iff.mp h
    obtain ⟨⟨s, rest⟩, hs, h⟩ := Option.bind_eq_some_iff.mp h
    cases h
    obtain ⟨hklen, rfl⟩ := readText_some hk
    obtain ⟨hslen, rfl⟩ := readText_some hs
    exact ⟨⟨hl, hklen, hslen⟩, .inl (by simp [PropVal.bytes])⟩
  · cases h

theorem readVal_entry (h : Fits e) (rest : Bytes) :
    readVal e.id (e.val.bytes ++ rest) = some (e.val, rest) := by
  obtain ⟨id, val⟩ := e
  obtain ⟨hl, hs⟩ := h
  unfold readVal
  rw [layoutOf_eq]
  rw [hl]
  cases val with
  | byte v => rfl
  | uint16 v => exact congrArg (fun x => some (PropVal.uint16 x, rest)) (uint16_toNat v rest)
  | uint32 v => exact congrArg (fun x => some (PropVal.uint32 x, rest)) (uint32_toNat v rest)
  | varint v =>
    have : v.toNat ≤ maxVarintValue := hs
    simp [PropVal.layout, PropVal.bytes, decodeVarint_varint this]
  | text s => simp [PropVal.layout, PropVal.bytes, readText_text hs]
  | pair k v =>
    simp [PropVal.layout, PropVal.bytes, readText_text hs.1, readText_text hs.2]

/-- The walks and the parse agree on where a value ends. -/
theorem propValueSize_of_readVal (h : readVal id buf = some (v, rest)) :
    ∃ n, propValueSize id buf = some n ∧
      n ≤ buf.length ∧ rest = buf.drop n ∧ readVal id (buf.take n) = some (v, []) := by
  obtain ⟨⟨hl, hs⟩, rfl | ⟨i, n, rfl, hd, rfl⟩⟩ := readVal_some h
  · refine ⟨v.bytes.length, ?_, by simp, by simp, ?_⟩
    · unfold propValueSize
      have hl : propLayout id = PropVal.layout v := hl
      rw [hl]
      cases v with
      | byte v => rfl
      | uint16 v => rfl
      | uint32 v => rfl
      | varint v =>
        have : v.toNat ≤ maxVarintValue := hs
        simp only [PropVal.layout, PropVal.bytes, decodeVarint_varint this]
        rfl
      | text s =>
        have hlen : s.length ≤ 0xffff := hs
        simp only [PropVal.layout, PropVal.bytes, length_append, text_length]
        rw [if_neg (by omega), text, append_assoc, uint16_put hlen]
      | pair k v =>
        obtain ⟨hk, hv⟩ : k.length ≤ 0xffff ∧ v.length ≤ 0xffff := hs
        have hu : uint16 (text k ++ text v ++ rest) = k.length := by
          rw [text, append_assoc, append_assoc, uint16_put hk]
        have hd : (text k ++ text v ++ rest).drop (2 + k.length) = text v ++ rest := by
          rw [append_assoc, drop_text]
        have hu' : uint16 (text v ++ rest) = v.length := by
          rw [text, append_assoc, uint16_put hv]
        simp only [PropVal.layout, PropVal.bytes, hu, hd, hu', length_append, text_length]
        rw [if_neg (by omega), if_neg (by omega)]
        congr 1
        omega
    · have := readVal_entry (e := ⟨id, v⟩) ⟨hl, hs⟩ []
      simpa using this
  · have hl : propLayout id = .varint := hl
    refine ⟨n, by simp [propValueSize, hl, hd], (decodeVarint_length hd).2.1, rfl, ?_⟩
    have hle := (decodeVarint_length hd).2.1
    have htake := decodeVarint_take hd []
    rw [append_nil] at htake
    simp [readVal, layoutOf_eq, hl, htake]

theorem fixed_size (h : propLayout id = .fixed n) : n = 1 ∨ n = 2 ∨ n = 4 := by
  unfold propLayout at h
  split_ifs at h <;> cases h <;> simp

/-- A value that ends within the section is read. -/
theorem readVal_of_propValueSize (h : propValueSize id buf = some n) (hle : n ≤ buf.length) :
    ∃ v, readVal id buf = some (v, buf.drop n) := by
  -- A string of the length its prefix says is there.
  have htext : ∀ {bs : Bytes}, 2 + uint16 bs ≤ bs.length →
      readText bs = some ((bs.drop 2).take (uint16 bs), bs.drop (2 + uint16 bs)) := by
    intro bs hlen
    match bs, hlen with
    | a :: b :: rest, hlen =>
      have hn : uint16 (a :: b :: rest) = a.toNat * 256 + b.toNat := rfl
      rw [hn] at hlen ⊢
      rw [length_cons, length_cons] at hlen
      simp only [readText]
      rw [if_pos (by omega), Nat.add_comm 2]
      simp only [drop_succ_cons, drop_zero]
  unfold propValueSize at h
  unfold readVal
  rw [layoutOf_eq]
  split at h
  · next m hl =>
    cases h
    rw [hl]
    rcases fixed_size hl with rfl | rfl | rfl
    · match buf, hle with
      | a :: rest, _ => exact ⟨_, rfl⟩
    · match buf, hle with
      | a :: b :: rest, _ => exact ⟨_, rfl⟩
    · match buf, hle with
      | a :: b :: c :: d :: rest, _ => exact ⟨_, rfl⟩
  · next hl =>
    obtain ⟨⟨i, k⟩, hd, rfl⟩ := Option.map_eq_some_iff.mp h
    simp [hl, hd]
  · next hl =>
    split at h
    · cases h
    · cases h
      simp [hl, htext hle]
  · next hl =>
    split at h
    · cases h
    · split at h
      · cases h
      · next h2 h4 =>
        cases h
        have hv : 2 + uint16 (buf.drop (2 + uint16 buf)) ≤
            (buf.drop (2 + uint16 buf)).length := by
          rw [length_drop]
          omega
        rw [hl]
        simp only [htext (by omega : 2 + uint16 buf ≤ buf.length), htext hv, drop_drop,
          Option.bind_eq_bind, Option.bind_some, Option.pure_def, Option.some.injEq, Prod.mk.injEq]
        exact ⟨_, rfl, congrArg (List.drop · buf) (by omega)⟩
  · cases h

theorem propValueSize_entry (h : Fits e) (rest : Bytes) :
    propValueSize e.id (e.val.bytes ++ rest) = some e.val.bytes.length := by
  obtain ⟨n, hn, hle, hrest, -⟩ := propValueSize_of_readVal (readVal_entry h rest)
  have hlen := congrArg List.length hrest
  rw [length_drop, length_append] at hlen
  rw [length_append] at hle
  rw [hn, show n = e.val.bytes.length by omega]

theorem entryBytes_cons (e : Entry) (es : List Entry) :
    entryBytes (e :: es) = e.id :: (e.val.bytes ++ entryBytes es) := rfl

theorem parses_entries : ∀ {es : List Entry}, (∀ e ∈ es, Fits e) → Parses (entryBytes es) es
  | [], _ => .nil
  | e :: _, h => .cons (readVal_entry (h e mem_cons_self) _)
      (parses_entries fun e' he' => h e' (mem_cons_of_mem e he'))

theorem findLoop_eq (id : UInt8) (h : Parses raw es) :
    ∀ fuel, raw.length ≤ fuel →
    match lookup es id with
    | none => findLoop id fuel raw = none
    | some v => ∃ buf rest, findLoop id fuel raw = some buf ∧ readVal id buf = some (v, rest) := by
  induction h with
  | nil =>
    intro fuel _
    cases fuel <;> rfl
  | @cons id' buf rest v es hv _ ih =>
    intro fuel hlen
    obtain ⟨n, hn, -, rfl, -⟩ := propValueSize_of_readVal hv
    cases fuel with
    | zero => simp at hlen
    | succ fuel =>
      simp only [lookup, findLoop]
      by_cases hid : id' = id
      · subst hid
        simp only [if_true]
        exact ⟨buf, _, rfl, hv⟩
      · simp only [hid, if_false, hn]
        exact ih fuel (by simp at hlen ⊢; omega)

/-- A property section built from the entries `es`. -/
def sectionOf (es : List Entry) : Properties := ⟨entryBytes es⟩

theorem lookup_mem (h : lookup es id = some v) : ⟨id, v⟩ ∈ es := by
  induction es with
  | nil => cases h
  | cons e es ih =>
    simp only [lookup] at h
    split at h
    · next hid =>
      cases h
      subst hid
      exact mem_cons_self
    · exact mem_cons_of_mem e (ih h)

theorem lookup_none (h : ∀ e ∈ es, e.id ≠ id) : lookup es id = none := by
  cases hl : lookup es id with
  | none => rfl
  | some v => exact absurd rfl (h _ (lookup_mem hl))

theorem parses_section (h : ∀ e ∈ es, Fits e) : Parses (sectionOf es).raw es :=
  parses_entries h

section Lookup

variable {p : Properties} {es : List Entry} {id : UInt8}

section

variable (hp : Parses p.raw es)
include hp

theorem find_of_none (h : lookup es id = none) : Properties.find p id = none := by
  have := findLoop_eq id hp _ le_rfl
  rw [h] at this
  exact this

theorem find_of_some {v : PropVal} (h : lookup es id = some v) :
    ∃ buf rest, Properties.find p id = some buf ∧ readVal id buf = some (v, rest) := by
  have := findLoop_eq id hp _ le_rfl
  rw [h] at this
  exact this

theorem byte_of_lookup {v : Option UInt8} (h : lookup es id = v.map .byte) :
    Properties.byte p id = v := by
  cases v with
  | none => simp [Properties.byte, find_of_none hp h]
  | some v =>
    obtain ⟨buf, rest, hf, hv⟩ := find_of_some hp h
    obtain ⟨-, rfl | ⟨_, _, hne, -⟩⟩ := readVal_some hv
    · simp [Properties.byte, hf, PropVal.bytes]
    · cases hne

theorem uint16_of_lookup {v : Option UInt16} (h : lookup es id = v.map .uint16) :
    Properties.uint16 p id = v := by
  cases v with
  | none => simp [Properties.uint16, find_of_none hp h]
  | some v =>
    obtain ⟨buf, rest, hf, hv⟩ := find_of_some hp h
    obtain ⟨-, rfl | ⟨_, _, hne, -⟩⟩ := readVal_some hv
    · simp only [Properties.uint16, hf, PropVal.bytes]
      rw [if_neg (not_short _ _), uint16_toNat]
    · cases hne

theorem uint32_of_lookup {v : Option UInt32} (h : lookup es id = v.map .uint32) :
    Properties.uint32 p id = v := by
  cases v with
  | none => simp [Properties.uint32, find_of_none hp h]
  | some v =>
    obtain ⟨buf, rest, hf, hv⟩ := find_of_some hp h
    obtain ⟨-, rfl | ⟨_, _, hne, -⟩⟩ := readVal_some hv
    · simp only [Properties.uint32, hf, PropVal.bytes]
      rw [if_neg (by simp), uint32_toNat]
    · cases hne

theorem varint_of_lookup {v : Option UInt32} (h : lookup es id = v.map .varint) :
    Properties.varint p id = v := by
  cases v with
  | none => simp [Properties.varint, find_of_none hp h]
  | some v =>
    obtain ⟨buf, rest, hf, hv⟩ := find_of_some hp h
    obtain ⟨⟨-, hs⟩, rfl | ⟨_, _, heq, hd, -⟩⟩ := readVal_some hv
    · have : v.toNat ≤ maxVarintValue := hs
      simp [Properties.varint, hf, PropVal.bytes, decodeVarint_varint this]
    · cases heq
      simp [Properties.varint, hf, hd]

theorem string_of_lookup {v : Option Bytes} (h : lookup es id = v.map .text) :
    Properties.string p id = v := by
  cases v with
  | none => simp [Properties.string, find_of_none hp h]
  | some s =>
    obtain ⟨buf, rest, hf, hv⟩ := find_of_some hp h
    obtain ⟨⟨-, hs⟩, rfl | ⟨_, _, hne, -⟩⟩ := readVal_some hv
    · have hu : uint16 (text s ++ rest) = s.length := by
        rw [text, append_assoc, uint16_put hs]
      simp only [Properties.string, hf, PropVal.bytes, hu, length_append, text_length]
      rw [if_neg (by omega), if_neg (by omega)]
      simp [text, putUint16]
    · cases hne

end

end Lookup

/-! ## Lookups in the properties of an option -/

@[simp] theorem lookup_nil (id : UInt8) : lookup [] id = none := rfl

@[simp] theorem lookup_append (a b : List Entry) (id : UInt8) :
    lookup (a ++ b) id = (lookup a id).or (lookup b id) := by
  induction a with
  | nil => simp
  | cons e a ih =>
    by_cases h : e.id = id
    · simp [lookup, h]
    · simp [lookup, h, ih]

/-- A property of kind `mk` that may be absent. -/
def opt {α : Type} (mk : α → PropVal) (id : UInt8) (v : Option α) : List Entry :=
  v.toList.map (⟨id, mk ·⟩)

theorem lookup_opt (mk : α → PropVal) (i id : UInt8) (v : Option α) :
    lookup (opt mk i v) id = if i = id then v.map mk else none := by
  cases v <;> simp [opt, lookup]

@[simp] theorem lookup_optByte (i id : UInt8) (v : Option UInt8) :
    lookup (optByte i v) id = if i = id then v.map .byte else none := lookup_opt _ i id v

@[simp] theorem lookup_optUint16 (i id : UInt8) (v : Option UInt16) :
    lookup (optUint16 i v) id = if i = id then v.map .uint16 else none := lookup_opt _ i id v

@[simp] theorem lookup_optUint32 (i id : UInt8) (v : Option UInt32) :
    lookup (optUint32 i v) id = if i = id then v.map .uint32 else none := lookup_opt _ i id v

@[simp] theorem lookup_optVarint (i id : UInt8) (v : Option UInt32) :
    lookup (optVarint i v) id = if i = id then v.map .varint else none := lookup_opt _ i id v

@[simp] theorem lookup_optBinary (i id : UInt8) (v : Option Bytes) :
    lookup (optBinary i v) id = if i = id then v.map .text else none := lookup_opt _ i id v

/-- A string that is present when it is not empty. -/
def present (s : Bytes) : Option Bytes := if s = [] then none else some s

@[simp] theorem present_getD (s : Bytes) : (present s).getD [] = s := by
  unfold present
  split <;> simp_all

@[simp] theorem lookup_optString (i id : UInt8) (s : Bytes) :
    lookup (optString i s) id = if i = id then (present s).map .text else none := by
  unfold optString present
  by_cases h : s = [] <;> simp [h, lookup]

/-- An integer that is present when it is not 0. -/
def presentUint16 (v : UInt16) : Option UInt16 := if v = 0 then none else some v

@[simp] theorem presentUint16_getD (v : UInt16) : (presentUint16 v).getD 0 = v := by
  unfold presentUint16
  split <;> simp_all

@[simp] theorem lookup_nonzero (i id : UInt8) (v : UInt16) :
    lookup (nonzeroUint16 i v) id = if i = id then (presentUint16 v).map .uint16 else none := by
  unfold nonzeroUint16 presentUint16
  by_cases h : v = 0 <;> simp [h, lookup]

/-- An option that is absent when it is empty, read back. -/
theorem getD_string_of_lookup (hp : Parses p.raw es) (h : lookup es id = (present s).map .text) :
    (Properties.string p id).getD [] = s := by
  rw [string_of_lookup hp h, present_getD]

/-- An option that is absent when it is 0, read back. -/
theorem getD_uint16_of_lookup (hp : Parses p.raw es) {v : UInt16}
    (h : lookup es id = (presentUint16 v).map .uint16) : (Properties.uint16 p id).getD 0 = v := by
  rw [uint16_of_lookup hp h, presentUint16_getD]

theorem lookup_userEntries (h : propUserProperty ≠ id) (ups : List UserProperty) :
    lookup (userEntries ups) id = none := by
  induction ups with
  | nil => rfl
  | cons up ups ih => simpa [userEntries, lookup, h] using ih

/-! ## The user properties -/

theorem propLayout_user (id : UInt8) : propLayout id = .stringPair ↔ id = propUserProperty := by
  unfold propLayout propUserProperty
  constructor
  · intro h
    split_ifs at h
    assumption
  · rintro rfl
    decide

theorem userPropertiesLoop_eq (h : Parses raw es) :
    ∀ fuel, raw.length ≤ fuel → userPropertiesLoop fuel raw = es.filterMap asUser := by
  induction h with
  | nil =>
    intro fuel _
    cases fuel <;> rfl
  | @cons id buf rest val es hv _ ih =>
    intro fuel hlen
    obtain ⟨n, hn, -, hrest, -⟩ := propValueSize_of_readVal hv
    obtain ⟨hfit, hbuf⟩ := readVal_some hv
    have hl : propLayout id = PropVal.layout val := hfit.1
    cases fuel with
    | zero => simp at hlen
    | succ fuel =>
      have hrest' := ih fuel (by rw [hrest]; simp at hlen ⊢; omega)
      by_cases hid : id = propUserProperty
      · -- A string pair: both strings are read back.
        rw [(propLayout_user id).mpr hid] at hl
        cases val with
        | pair k v =>
          obtain ⟨hk, hv⟩ : k.length ≤ 0xffff ∧ v.length ≤ 0xffff := hfit.2
          have e1 : buf = putUint16 k.length ++ (k ++ (putUint16 v.length ++ (v ++ rest))) := by
            rcases hbuf with rfl | ⟨_, _, hne, -⟩
            · simp [PropVal.bytes, text]
            · cases hne
          simp only [userPropertiesLoop, e1, uint16_put hk]
          rw [if_neg (by simpa using hid), if_neg (not_short _ _),
            drop_left' (putUint16_length _), if_neg (by simp),
            drop_left' rfl, if_neg (not_short _ _), uint16_put hv,
            drop_left' (putUint16_length _), if_neg (by simp), drop_left' rfl,
            take_left' rfl, take_left' rfl, hrest']
          rfl
        | _ => simp [PropVal.layout] at hl
      · simp only [userPropertiesLoop, ne_eq, hid, not_false_eq_true, if_true, hn, ← hrest, hrest']
        have hnone : asUser ⟨id, val⟩ = none := by
          cases val with
          | pair k v => exact absurd ((propLayout_user id).mp hl) hid
          | _ => rfl
        rw [filterMap_cons_none hnone]

theorem userProperties_eq (hp : Parses p.raw es) :
    Properties.userProperties p = es.filterMap asUser :=
  userPropertiesLoop_eq hp _ le_rfl

theorem propLayout_varint (id : UInt8) :
    propLayout id = .varint ↔ id = propSubscriptionIdentifier := by
  unfold propLayout propSubscriptionIdentifier
  constructor
  · intro h
    split_ifs at h
    assumption
  · rintro rfl
    decide

theorem subscriptionIdentifiersLoop_eq (h : Parses raw es) :
    ∀ fuel, raw.length ≤ fuel →
      subscriptionIdentifiersLoop fuel raw = es.filterMap asSubscriptionIdentifier := by
  induction h with
  | nil =>
    intro fuel _
    cases fuel <;> rfl
  | @cons id buf rest val es hv _ ih =>
    intro fuel hlen
    obtain ⟨n, hn, hle, rfl, htake⟩ := propValueSize_of_readVal hv
    have hl : propLayout id = PropVal.layout val := (readVal_some hv).1.1
    cases fuel with
    | zero => simp at hlen
    | succ fuel =>
      have hrest := ih fuel (by simp at hlen ⊢; omega)
      simp only [subscriptionIdentifiersLoop, hn, hrest]
      rw [if_neg (by omega)]
      by_cases hid : id = propSubscriptionIdentifier
      · have hlv := (propLayout_varint id).mpr hid
        simp only [readVal, layoutOf_eq, hlv] at htake
        obtain ⟨⟨i, k⟩, hd, htake⟩ := Option.map_eq_some_iff.mp htake
        obtain rfl := (Prod.mk.inj htake).1
        rw [if_pos hid, hd]
        simp [asSubscriptionIdentifier, hid]
      · have hnone : asSubscriptionIdentifier ⟨id, val⟩ = none := by
          cases val <;> simp [asSubscriptionIdentifier, hid]
        rw [if_neg hid, filterMap_cons_none hnone]

theorem subscriptionIdentifiers_eq (hp : Parses p.raw es) :
    Properties.subscriptionIdentifiers p = es.filterMap asSubscriptionIdentifier :=
  subscriptionIdentifiersLoop_eq hp _ le_rfl

@[simp] theorem asUser_userEntries (ups : List UserProperty) :
    (userEntries ups).filterMap asUser = ups := by
  simp [userEntries, filterMap_map, Function.comp_def, asUser]

@[simp] theorem asUser_optByte (id : UInt8) (v : Option UInt8) :
    (optByte id v).filterMap asUser = [] := by
  cases v <;> rfl

@[simp] theorem asUser_optUint16 (id : UInt8) (v : Option UInt16) :
    (optUint16 id v).filterMap asUser = [] := by
  cases v <;> rfl

@[simp] theorem asUser_optUint32 (id : UInt8) (v : Option UInt32) :
    (optUint32 id v).filterMap asUser = [] := by
  cases v <;> rfl

@[simp] theorem asUser_optVarint (id : UInt8) (v : Option UInt32) :
    (optVarint id v).filterMap asUser = [] := by
  cases v <;> rfl

@[simp] theorem asUser_optBinary (id : UInt8) (v : Option Bytes) :
    (optBinary id v).filterMap asUser = [] := by
  cases v <;> rfl

@[simp] theorem asUser_optString (id : UInt8) (s : Bytes) :
    (optString id s).filterMap asUser = [] := by
  unfold optString
  split <;> rfl

@[simp] theorem asUser_nonzero (id : UInt8) (v : UInt16) :
    (nonzeroUint16 id v).filterMap asUser = [] := by
  unfold nonzeroUint16
  split <;> rfl

/-! ## The accessors and the list of the properties -/

/-- The identifiers of binary data; the other length-prefixed properties are strings. -/
def binaryProps : List UInt8 := [propCorrelationData, propAuthData]

/-- The accessors of `p` return what the list `es` says: the value of the first property with
the identifier if there is one, for every identifier of the accessor's type, and the user
properties and Subscription Identifiers in order. -/
structure Agrees (p : Properties) (es : List Entry) : Prop where
  byte : ∀ id, propLayout id = .fixed 1 → lookup es id = (Properties.byte p id).map .byte
  uint16 : ∀ id, propLayout id = .fixed 2 → lookup es id = (Properties.uint16 p id).map .uint16
  uint32 : ∀ id, propLayout id = .fixed 4 → lookup es id = (Properties.uint32 p id).map .uint32
  varint : ∀ id, propLayout id = .varint → lookup es id = (Properties.varint p id).map .varint
  string : ∀ id ∈ stringProps, lookup es id = (Properties.string p id).map .text
  binary : ∀ id ∈ binaryProps, lookup es id = (Properties.binary p id).map .text
  userProperties : Properties.userProperties p = es.filterMap asUser
  subscriptionIdentifiers :
    Properties.subscriptionIdentifiers p = es.filterMap asSubscriptionIdentifier

/-- The first property with an identifier is of the kind the identifier says. -/
theorem lookup_layout (hp : Parses raw es) (h : lookup es id = some v) :
    propLayout id = PropVal.layout v := by
  induction hp with
  | nil => cases h
  | @cons id' _ _ _ _ hv _ ih =>
    simp only [lookup] at h
    split at h
    · next hid =>
      cases h
      exact hid ▸ (readVal_some hv).1.1
    · exact ih h

/-- A value of layout `l` is one that `mk` makes, so the lookup has the form the
accessors' lemmas ask for. -/
theorem lookup_kind (hp : Parses raw es) {l : PropLayout} (hl : propLayout id = l)
    (mk : α → PropVal) (hmk : ∀ v, PropVal.layout v = l → ∃ x, v = mk x) :
    ∃ v : Option α, lookup es id = v.map mk := by
  cases h : lookup es id with
  | none => exact ⟨none, rfl⟩
  | some v =>
    obtain ⟨x, rfl⟩ := hmk v ((lookup_layout hp h).symm.trans hl)
    exact ⟨some x, rfl⟩

theorem string_agrees (hp : Parses p.raw es) (hl : propLayout id = .prefixed) :
    lookup es id = (Properties.string p id).map .text := by
  obtain ⟨v, hv⟩ := lookup_kind hp hl .text (by rintro (_ | _ | _ | _ | s | _) h <;> first
    | exact ⟨_, rfl⟩ | cases h)
  rw [string_of_lookup hp hv, hv]

theorem agrees_of_parses (hp : Parses p.raw es) :
    Agrees p es where
  byte id hl := by
    obtain ⟨v, hv⟩ := lookup_kind hp hl .byte (by rintro (_ | _ | _ | _ | _ | _) h <;> first
      | exact ⟨_, rfl⟩ | cases h)
    rw [byte_of_lookup hp hv, hv]
  uint16 id hl := by
    obtain ⟨v, hv⟩ := lookup_kind hp hl .uint16 (by rintro (_ | _ | _ | _ | _ | _) h <;> first
      | exact ⟨_, rfl⟩ | cases h)
    rw [uint16_of_lookup hp hv, hv]
  uint32 id hl := by
    obtain ⟨v, hv⟩ := lookup_kind hp hl .uint32 (by rintro (_ | _ | _ | _ | _ | _) h <;> first
      | exact ⟨_, rfl⟩ | cases h)
    rw [uint32_of_lookup hp hv, hv]
  varint id hl := by
    obtain ⟨v, hv⟩ := lookup_kind hp hl .varint (by rintro (_ | _ | _ | _ | _ | _) h <;> first
      | exact ⟨_, rfl⟩ | cases h)
    rw [varint_of_lookup hp hv, hv]
  string id hid := string_agrees hp (forall_iff_forall_mem.mp
    (show stringProps.Forall (propLayout · = .prefixed) by decide) id hid)
  binary id hid := string_agrees hp (forall_iff_forall_mem.mp
    (show binaryProps.Forall (propLayout · = .prefixed) by decide) id hid)
  userProperties := userProperties_eq hp
  subscriptionIdentifiers := subscriptionIdentifiers_eq hp

/-! ## The check of a section -/

/-- The properties other than user properties are among `ids`, each at most once. -/
def Within (es : List Entry) (ids : List UInt8) : Prop :=
  ((es.map Entry.id).filter (· ≠ propUserProperty)).Sublist ids

theorem Within.append {a b : List Entry} {x y : List UInt8} (ha : Within a x) (hb : Within b y) :
    Within (a ++ b) (x ++ y) := by
  unfold Within
  rw [map_append, filter_append]
  exact List.Sublist.append ha hb

theorem within_users (ups : List UserProperty) : Within (userEntries ups) [] := by
  induction ups with
  | nil => exact List.Sublist.refl []
  | cons up ups ih => simp [Within, userEntries]

theorem within_single (es : List Entry) (id : UInt8)
    (h : es = [] ∨ ∃ v, es = [⟨id, v⟩]) : Within es [id] := by
  rcases h with rfl | ⟨v, rfl⟩
  · exact nil_sublist [id]
  · exact filter_sublist

theorem within_opt (mk : α → PropVal) (id : UInt8) (v : Option α) : Within (opt mk id v) [id] :=
  within_single _ id (by cases v <;> simp [opt])

theorem within_optString (id : UInt8) (s : Bytes) : Within (optString id s) [id] :=
  within_single _ id (by unfold optString; split <;> simp)

theorem within_nonzero (id : UInt8) (v : UInt16) : Within (nonzeroUint16 id v) [id] :=
  within_single _ id (by unfold nonzeroUint16; split <;> simp)

theorem validatePropsLoop_none :
    ∀ (es : List Entry) (fuel : ℕ) (seen : List UInt8),
    (∀ e ∈ es, e.id ∈ allowed ∧ Fits e ∧ checkPropValue t e.id e.val.bytes = none) →
    ((es.map Entry.id).filter (· ≠ propUserProperty)).Nodup →
    (∀ id ∈ seen, id ≠ propUserProperty → id ∉ es.map Entry.id) →
    (entryBytes es).length ≤ fuel →
    validatePropsLoop t allowed fuel seen (entryBytes es) = none := by
  intro es
  induction es with
  | nil =>
    intro fuel seen _ _ _ _
    cases fuel <;> rfl
  | cons e es ih =>
    intro fuel seen hgood hnodup hseen hlen
    obtain ⟨hallowed, hfit, hval⟩ := hgood e mem_cons_self
    rw [entryBytes_cons, length_cons, length_append] at hlen
    cases fuel with
    | zero => omega
    | succ fuel =>
      have htail : ∀ id ∈ e.id :: seen, id ≠ propUserProperty → id ∉ es.map Entry.id := by
        intro id hid hne
        rcases mem_cons.mp hid with rfl | hid
        · intro hmem
          rw [map_cons, filter_cons_of_pos (by simpa using hne)] at hnodup
          exact (nodup_cons.mp hnodup).1
            (mem_filter.mpr ⟨hmem, by simpa using hne⟩)
        · exact fun hmem => hseen id hid hne (.tail _ hmem)
      have hrest := ih fuel (e.id :: seen) (fun e' he' => hgood e' (mem_cons_of_mem e he'))
        (hnodup.sublist (by
          rw [map_cons]
          exact (sublist_cons_self _ _).filter _)) htail (by omega)
      have honce : ¬(e.id ∈ seen ∧
          ¬(e.id = propUserProperty ∨ (e.id = propSubscriptionIdentifier ∧ t = .PUBLISH))) := by
        rintro ⟨hmem, hnot⟩
        exact hseen e.id hmem (fun h => hnot (.inl h)) (by simp)
      rw [entryBytes_cons]
      simp only [validatePropsLoop, hallowed, not_true_eq_false, if_false,
        propValueSize_entry hfit, take_left, drop_left, hval, hrest]
      rw [if_neg (by simp), if_neg honce]

theorem checkPropValue_identifier (t : PacketType) (bs : Bytes) :
    checkPropValue t propSubscriptionIdentifier bs = (match decodeVarint bs with
      | none => some (protocolError t "Subscription Identifier is 0" [])
      | some (n, _) =>
        if n = 0 then some (protocolError t "Subscription Identifier is 0" []) else none) := rfl

/-- What is checked of a value is a matter of the value, however long its integers are. -/
theorem checkPropValue_read (hv : readVal id buf = some (v, buf.drop n))
    (hn : propValueSize id buf = some n) (h : checkPropValue t id (buf.take n) = none) :
    checkPropValue t id v.bytes = none := by
  obtain ⟨hfit, hbuf | ⟨i, k, rfl, hd, -⟩⟩ := readVal_some hv
  · have := propValueSize_entry hfit (buf.drop n)
    rw [← hbuf, hn] at this
    cases this
    rwa [hbuf, take_left] at h
  · have hl : propLayout id = .varint := hfit.1
    obtain rfl := (propLayout_varint id).mp hl
    simp only [propValueSize, hl, hd, Option.map_some, Option.some.injEq] at hn
    subst hn
    have hi : i.toNat ≤ maxVarintValue := hfit.2
    have hw := decodeVarint_varint hi []
    have htake := decodeVarint_take hd []
    rw [append_nil] at hw htake
    rw [checkPropValue_identifier, htake] at h
    rw [checkPropValue_identifier, PropVal.bytes, hw]
    exact h

/-- The identifier may occur more than once. -/
def Repeatable (t : PacketType) (id : UInt8) : Prop :=
  id = propUserProperty ∨ (id = propSubscriptionIdentifier ∧ t = .PUBLISH)

instance (t : PacketType) : DecidablePred (Repeatable t) := fun id =>
  inferInstanceAs (Decidable (id = propUserProperty ∨ _))

theorem validatePropsLoop_parses :
    ∀ (fuel : ℕ) (seen : List UInt8) (raw : Bytes), raw.length ≤ fuel →
    validatePropsLoop t allowed fuel seen raw = none →
    ∃ es, Parses raw es ∧
      (∀ e ∈ es, e.id ∈ allowed ∧ Fits e ∧ checkPropValue t e.id e.val.bytes = none) ∧
      ((es.map Entry.id).filter (¬Repeatable t ·)).Nodup ∧
      ∀ e ∈ es, e.id ∈ seen → Repeatable t e.id := by
  intro fuel
  induction fuel with
  | zero =>
    intro seen raw hlen _
    obtain rfl := length_eq_zero_iff.mp (Nat.le_zero.mp hlen)
    exact ⟨[], .nil, by simp, by simp, by simp⟩
  | succ fuel ih =>
    intro seen raw hlen h
    cases raw with
    | nil => exact ⟨[], .nil, by simp, by simp, by simp⟩
    | cons id rest =>
      simp only [validatePropsLoop] at h
      split at h
      · cases h
      next hallowed =>
      split at h
      · cases h
      next size hsize =>
      split at h
      · cases h
      next hshort =>
      split at h
      · cases h
      next honce =>
      split at h
      · cases h
      next hcheck =>
      obtain ⟨v, hv⟩ := readVal_of_propValueSize hsize (Nat.not_lt.mp hshort)
      obtain ⟨es, hes, hgood, hnodup, hseen⟩ := ih _ _ (by simp at hlen ⊢; omega) h
      refine ⟨⟨id, v⟩ :: es, .cons hv hes, ?_, ?_, ?_⟩
      · rw [forall_mem_cons]
        exact ⟨⟨not_not.mp hallowed, (readVal_some hv).1, checkPropValue_read hv hsize hcheck⟩,
          hgood⟩
      · by_cases hrep : Repeatable t id
        · simpa [filter_cons, hrep] using hnodup
        · have hnot : id ∉ (es.map Entry.id).filter (¬Repeatable t ·) := by
            intro hmem
            obtain ⟨e, he, rfl⟩ := mem_map.mp (mem_filter.mp hmem).1
            exact hrep (hseen e he mem_cons_self)
          rw [map_cons, filter_cons_of_pos (by simpa using hrep)]
          exact nodup_cons.mpr ⟨hnot, hnodup⟩
      · rw [forall_mem_cons]
        refine ⟨fun hmem => ?_, fun e he hmem => hseen e he (.tail _ hmem)⟩
        by_contra hrep
        exact honce ⟨hmem, hrep⟩

/-- A section that passes the check is a list of permitted properties, in range. -/
theorem parses_of_validateProps (h : validateProps t raw allowed = none) : ∃ es, Parses raw es ∧
      (∀ e ∈ es, e.id ∈ allowed ∧ Fits e ∧ checkPropValue t e.id e.val.bytes = none) ∧
      ((es.map Entry.id).filter (¬Repeatable t ·)).Nodup := by
  obtain ⟨es, hp, hgood, hnodup, -⟩ := validatePropsLoop_parses _ [] raw le_rfl h
  exact ⟨es, hp, hgood, hnodup⟩

theorem mem_of_within (h : Within es ids) (he : e ∈ es) : e.id = propUserProperty ∨ e.id ∈ ids := by
  by_cases hid : e.id = propUserProperty
  · exact .inl hid
  · exact .inr (h.subset (mem_filter.mpr
      ⟨mem_map_of_mem he, by simpa using hid⟩))

/-- The check has no objection to a section of permitted properties in range. -/
theorem validateProps_none (hw : Within es ids) (hids : ids.Nodup) (hallowed : ids ⊆ allowed)
    (huser : propUserProperty ∈ allowed)
    (hgood : ∀ e ∈ es, Fits e ∧ checkPropValue t e.id e.val.bytes = none) :
    validateProps t (sectionOf es).raw allowed = none := by
  refine validatePropsLoop_none es _ [] (fun e he => ⟨?_, hgood e he⟩) (hids.sublist hw)
    (by simp) le_rfl
  rcases mem_of_within hw he with h | h
  · rwa [h]
  · exact hallowed h

end Mqttv5.Analysis.Wire
