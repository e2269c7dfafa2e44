import Mqttv5.Analysis.FileDB
import Mqttv5.Computation.Transition
import Mqttv5.Program.FileStore

/-!
# The file store and the memory store are interchangeable

A record, and the meta, are read back from their encodings as they were. So while both stores
are told the same, a bucket of the file store holds under the identifier of each record of its
direction the encoding of that record and nothing else, and `Load` returns the same from both.

The file store takes every direction but inbound for outbound: a `Delete` with a direction that
is neither deletes an outbound record, where the memory store deletes nothing.
-/

set_option autoImplicit false

namespace Mqttv5.Guarantees

open Analysis Mqttv5.Computation Model Program Program.FileStore List FiniteMap

variable {dir : UInt8}

/-! ### Reading back what was encoded -/

/-- The expiry of the record, if it has one, is within the int64 nanosecond range. -/
def ExpiryInRange (r : Rec) : Prop := ∀ t, r.expiresAt = some t → -2 ^ 63 ≤ t ∧ t < 2 ^ 63

theorem flags_read (e r p o : Bool) : ((flags e r p o &&& 1 ≠ 0) ↔ e = true) ∧
    ((flags e r p o &&& 2 ≠ 0) ↔ r = true) ∧ ((flags e r p o &&& 4 ≠ 0) ↔ p = true) ∧
    ((flags e r p o &&& 8 ≠ 0) ↔ o = true) := by
  revert e r p o
  decide

/-! The optional fields of a record, each read back whatever follows it. -/

section Fields

variable (r : Rec) (rest : Bytes)

theorem pubrecSeq_read : ∃ v, optionalField (r.pubrecSeq ≠ 0) 8 "pubrec seq"
      (pubrecSeqBytes r ++ rest) = .ok (v, rest) ∧
    UInt64.ofNat (ofBigEndian (v.getD [])) = r.pubrecSeq := by
  unfold pubrecSeqBytes
  by_cases h : r.pubrecSeq = 0
  · exact ⟨none, by simp [h, optionalField], by rw [h]; rfl⟩
  · refine ⟨some (bigEndian 8 r.pubrecSeq.toNat), ?_, ofNat_bigEndian _⟩
    simp only [ne_eq, h, not_false_eq_true, if_true, decide_true]
    exact optionalField_present _ _ (length_bigEndian _ _)

theorem outcome_read : ∃ v, optionalField (r.outcome ≠ 0) 1 "outcome"
      (outcomeBytes r ++ rest) = .ok (v, rest) ∧ (v.getD []).headD 0 = r.outcome := by
  unfold outcomeBytes
  by_cases h : r.outcome = 0
  · exact ⟨none, by simp [h, optionalField], h.symm⟩
  · refine ⟨some [r.outcome], ?_, rfl⟩
    simp only [ne_eq, h, not_false_eq_true, if_true, decide_true]
    exact optionalField_present _ _ rfl

theorem expires_read (hexp : ExpiryInRange r) : ∃ v, optionalField r.expiresAt.isSome 8 "expiry"
      (expiresBytes r ++ rest) = .ok (v, rest) ∧
    v.map (fun b => ofUnixNano (ofBigEndian b)) = r.expiresAt := by
  unfold expiresBytes
  cases h : r.expiresAt with
  | none => exact ⟨none, rfl, rfl⟩
  | some t =>
    obtain ⟨hlow, hhigh⟩ := hexp t h
    refine ⟨some (bigEndian 8 (unixNano t)), optionalField_present _ _ (length_bigEndian _ _), ?_⟩
    rw [Option.map_some, ofUnixNano_unixNano hlow hhigh]

theorem ref_read (hlen : (r.ref.getD []).length ≤ 255) :
    refField r.ref.isSome (refBytes r ++ rest) = .ok (r.ref, rest) := by
  unfold refBytes
  cases h : r.ref with
  | none => rfl
  | some b =>
    have hlen : b.length ≤ 255 := by
      rw [h] at hlen
      exact hlen
    have hn : (UInt8.ofNat b.length).toNat = b.length := by
      rw [UInt8.toNat_ofNat']
      omega
    have hroom : ¬ (b ++ rest).length < b.length := by
      rw [length_append]
      omega
    simp only [refField, Option.isSome_some, not_true_eq_false, if_false, cons_append, hn,
      hroom, take_left' rfl, drop_left' rfl]

end Fields

/-- INTERNAL: **A record is read back as it was.** -/
theorem decodeRecord_encodeRecord (r : Rec) (hvalid : validate r = none) (hexp : ExpiryInRange r) :
    decodeRecord r.key (encodeRecord r) = .ok r := by
  have href : (r.ref.getD []).length ≤ 255 := by
    unfold validate at hvalid
    split at hvalid
    · cases hvalid
    · split at hvalid
      · cases hvalid
      · rename_i hle
        exact Nat.le_of_not_lt hle
  obtain ⟨hf1, hf2, hf4, hf8⟩ := flags_read r.expiresAt.isSome r.ref.isSome (r.pubrecSeq ≠ 0)
    (r.outcome ≠ 0)
  generalize hfl : flags r.expiresAt.isSome r.ref.isSome (r.pubrecSeq ≠ 0) (r.outcome ≠ 0) = fl
    at hf1 hf2 hf4 hf8
  generalize htail : pubrecSeqBytes r ++ (outcomeBytes r ++ (expiresBytes r ++
    (refBytes r ++ r.packet))) = tail
  -- The body, and the parts of it that are read at fixed places.
  obtain ⟨body, hb⟩ : ∃ body, [recordVersion, r.qos, r.phase, fl] ++
      (bigEndian 8 r.seq.toNat ++ tail) = body := ⟨_, rfl⟩
  have hbody : unsealValue (encodeRecord r) = .ok body := by
    rw [encodeRecord, hfl, unsealValue_sealValue, htail, hb]
  have hlen : ¬ (body.length < 12 ∨ body.getD 0 0 ≠ recordVersion) := by
    rw [← hb]
    simp only [length_append, length_bigEndian, length_cons, length_nil]
    rintro (hcon | hcon)
    · omega
    · exact hcon rfl
  have hdrop4 : body.drop 4 = bigEndian 8 r.seq.toNat ++ tail := by
    rw [← hb]
    rfl
  have hdrop12 : body.drop 12 = tail := by
    rw [show (12 : ℕ) = 4 + 8 from rfl, ← drop_drop, hdrop4,
      drop_left' (length_bigEndian _ _)]
  have hseq : (body.drop 4).take 8 = bigEndian 8 r.seq.toNat := by
    rw [hdrop4, take_left' (length_bigEndian _ _)]
  have hfixed : body.getD 3 0 = fl ∧ body.getD 1 0 = r.qos ∧ body.getD 2 0 = r.phase := by
    rw [← hb]
    exact ⟨rfl, rfl, rfl⟩
  obtain ⟨pubrecSeq, hpubrec, hpubrec'⟩ := pubrecSeq_read r (outcomeBytes r ++ (expiresBytes r ++
    (refBytes r ++ r.packet)))
  obtain ⟨outcome, hout, hout'⟩ := outcome_read r (expiresBytes r ++ (refBytes r ++ r.packet))
  obtain ⟨expires, hexpires, hexpires'⟩ := expires_read r (refBytes r ++ r.packet) hexp
  have hd4 : decide (fl &&& 4 ≠ 0) = decide
    (r.pubrecSeq ≠ 0) := by simp only [hf4, decide_eq_true_eq]
  have hd8 : decide (fl &&& 8 ≠ 0) = decide (r.outcome ≠ 0) := by simp only [hf8, decide_eq_true_eq]
  have hd1 : decide (fl &&& 1 ≠ 0) = r.expiresAt.isSome := by simp only [hf1, Bool.decide_eq_true]
  have hd2 : decide (fl &&& 2 ≠ 0) = r.ref.isSome := by simp only [hf2, Bool.decide_eq_true]
  unfold decodeRecord
  simp only [hbody, bind, Except.bind, pure, Except.pure, hlen, if_false, hfixed.1, hdrop12,
    ← htail, hd4, hpubrec, hd8, hout, hd1, hexpires, hd2, ref_read r r.packet href, hseq,
    hfixed.2.1, hfixed.2.2, ofNat_bigEndian, hpubrec', hout', hexpires']

theorem decodeMeta_encodeMeta (m : FileStore.Meta) : decodeMeta (encodeMeta m) = .ok m := by
  have hlt : m.sessionExpiry.toNat < 256 ^ 4 := m.sessionExpiry.toNat_lt
  obtain ⟨body, hb⟩ : ∃ body, [recordVersion] ++
      (bigEndian 4 m.sessionExpiry.toNat ++ m.clientID) = body := ⟨_, rfl⟩
  have hbody : unsealValue (encodeMeta m) = .ok body := by
    rw [encodeMeta, unsealValue_sealValue, hb]
  have hlen : ¬ (body.length < 5 ∨ body.getD 0 0 ≠ recordVersion) := by
    rw [← hb]
    simp only [length_append, length_bigEndian, length_cons, length_nil]
    rintro (hcon | hcon)
    · omega
    · exact hcon rfl
  have hdrop1 : body.drop 1 = bigEndian 4 m.sessionExpiry.toNat ++ m.clientID := by
    rw [← hb]
    rfl
  have hdrop5 : body.drop 5 = m.clientID := by
    rw [show (5 : ℕ) = 1 + 4 from rfl, ← drop_drop, hdrop1,
      drop_left' (length_bigEndian _ _)]
  have hexpiry : UInt32.ofNat (ofBigEndian ((body.drop 1).take 4)) = m.sessionExpiry := by
    rw [hdrop1, take_left' (length_bigEndian _ _), ofBigEndian_bigEndian,
      Nat.mod_eq_of_lt hlt, UInt32.ofNat_toNat]
  unfold decodeMeta
  simp only [hbody, bind, Except.bind, pure, Except.pure, hlen, if_false, hexpiry, hdrop5]

/-! ### The order of `Load` -/

theorem loadsBefore_total (a b : Rec) : loadsBefore a b ∨ loadsBefore b a := by
  unfold loadsBefore
  by_cases h : a.key.dir = b.key.dir
  · by_cases hout : a.key.dir = outbound
    · rcases UInt64.le_total a.seq b.seq with hle | hle
      · exact .inl (.inr ⟨h, by rw [if_pos hout]; exact hle⟩)
      · exact .inr (.inr ⟨h.symm, by rw [if_pos (h ▸ hout)]; exact hle⟩)
    · rcases UInt16.le_total a.key.packetID b.key.packetID with hle | hle
      · exact .inl (.inr ⟨h, by rw [if_neg hout]; exact hle⟩)
      · exact .inr (.inr ⟨h.symm, by rw [if_neg (h ▸ hout)]; exact hle⟩)
  · rcases UInt8.lt_or_lt_of_ne h with hlt | hlt
    · exact .inl (.inl hlt)
    · exact .inr (.inl hlt)

theorem loadsBefore_trans {a b c : Rec} (hab : loadsBefore a b) (hbc : loadsBefore b c) :
    loadsBefore a c := by
  unfold loadsBefore at hab hbc ⊢
  rcases hab with hab | ⟨hab, hle⟩
  · rcases hbc with hbc | ⟨hbc, -⟩
    · exact .inl (UInt8.lt_trans hab hbc)
    · exact .inl (hbc ▸ hab)
  · rcases hbc with hbc | ⟨hbc, hle'⟩
    · exact .inl (hab ▸ hbc)
    · refine .inr ⟨hab.trans hbc, ?_⟩
      rw [← hab] at hle'
      split
      · rename_i hout
        rw [if_pos hout] at hle hle'
        exact UInt64.le_trans hle hle'
      · rename_i hout
        rw [if_neg hout] at hle hle'
        exact UInt16.le_trans hle hle'

instance : Std.Total loadsBefore := ⟨loadsBefore_total⟩

instance : IsTrans Rec loadsBefore := ⟨fun _ _ _ => loadsBefore_trans⟩

/-! ### The two stores side by side -/

structure Stores where
  file : Store := {}
  memory : Memory := {}

/-- What both stores are told. -/
inductive StoreOp
  | put (r : Rec)
  | delete (k : Key)
  | setMeta (m : FileStore.Meta)
  | reset
  | load
  | reopen

/-- A refused Put leaves a store as it was. The memory store stays open when the file store is
opened again. -/
def Stores.step (s : Stores) : StoreOp → Option Stores
  | .put r => some
      { file := (s.file.put r).toOption.getD s.file
        memory := (s.memory.put r).toOption.getD s.memory }
  | .delete k => some { file := s.file.delete k, memory := s.memory.delete k }
  | .setMeta m => some { file := s.file.setMeta m, memory := s.memory.setMeta m }
  | .reset => some { file := s.file.reset, memory := s.memory.reset }
  | .load => some { s with file := s.file.load.1 }
  | .reopen => some { s with file := s.file.reopen }

/-- A record that is put expires within the int64 nanosecond range, and has a Seq of its own; a
key that is deleted has a direction. -/
def Usable (s : Stores) : StoreOp → Prop
  | .put r => ExpiryInRange r ∧ ∀ k r', s.memory.records.get k = some r' → k ≠ r.key →
      r'.key.dir = outbound → r.key.dir = outbound → r'.seq ≠ r.seq
  | .delete k => k.dir = outbound ∨ k.dir = inbound
  | _ => True

/-- The file store holds the encodings of the records of the memory store. -/
structure Matches (s : Stores) : Prop where
  metaData : s.file.loadMeta = .ok s.memory.metaData
  bucket : ∀ dir, dir = outbound ∨ dir = inbound → ∀ k v,
    (s.file.bucketFor dir).get k = some v ↔
      ∃ id r, s.memory.records.get ⟨dir, id⟩ = some r ∧ k = idKey id ∧ v = encodeRecord r
  keyed : ∀ k r, s.memory.records.get k = some r → r.key = k ∧ validate r = none ∧ ExpiryInRange r
  distinct : ∀ k k' r r', s.memory.records.get k = some r → s.memory.records.get k' = some r' →
    k.dir = outbound → k'.dir = outbound → r.seq = r'.seq → k = k'

theorem idKey_injective {a b : UInt16} (h : idKey a = idKey b) : a = b := by
  have ha : a.toNat < 256 ^ 2 := a.toNat_lt
  have hb : b.toNat < 256 ^ 2 := b.toNat_lt
  exact UInt16.toNat_inj.mp (bigEndian_injective ha hb h)

/-- INTERNAL: The directions a record can have. -/
theorem dir_of_valid {r : Rec} (h : validate r = none) :
    r.key.dir = outbound ∨ r.key.dir = inbound := by
  unfold validate at h
  split at h
  · cases h
  · rename_i hphase
    unfold phaseValid at hphase
    by_cases hout : r.key.dir = outbound
    · exact .inl hout
    · by_cases hin : r.key.dir = inbound
      · exact .inr hin
      · rw [if_neg hout, if_neg hin] at hphase
        exact absurd Bool.false_ne_true hphase

theorem bucketFor_update_self (s : Store) (dir : UInt8) (f : Bucket → Bucket) :
    (s.update dir f).bucketFor dir = f (s.bucketFor dir) := by
  unfold Store.update Store.bucketFor
  split <;> rfl

/-- INTERNAL: The other bucket is left alone. -/
theorem bucketFor_update_ne (s : Store) {dir dir' : UInt8} (f : Bucket → Bucket)
    (hdir : dir = outbound ∨ dir = inbound) (hdir' : dir' = outbound ∨ dir' = inbound)
    (hne : dir' ≠ dir) : (s.update dir f).bucketFor dir' = s.bucketFor dir' := by
  unfold Store.update Store.bucketFor
  rcases hdir with rfl | rfl <;> rcases hdir' with rfl | rfl
  · exact absurd rfl hne
  · rfl
  · rfl
  · exact absurd rfl hne

theorem loadMeta_update (s : Store) (dir : UInt8) (f : Bucket → Bucket) :
    (s.update dir f).loadMeta = s.loadMeta := by
  unfold Store.update
  split <;> rfl

namespace Matches

variable {s : Stores}

/-- INTERNAL: **A write under one key** keeps the bucket of every direction: `o` is the record that
is now under the key in the memory store, and `f` what was done to the bucket of the key. -/
theorem bucket_write (h : Matches s) {key : Key} (hkey : key.dir = outbound ∨ key.dir = inbound)
    {o : Option Rec} {f : Bucket → Bucket} (hf : ∀ b k, FiniteMap.get (f b) k =
      if k = idKey key.packetID then o.map encodeRecord else FiniteMap.get b k)
    {records : FiniteMap Key Rec}
    (hrecords : ∀ k, records.get k = if k = key then o else s.memory.records.get k)
    (hdir : dir = outbound ∨ dir = inbound) (k v : Bytes) :
    ((s.file.update key.dir f).bucketFor dir).get k = some v ↔
      ∃ id r, records.get ⟨dir, id⟩ = some r ∧ k = idKey id ∧ v = encodeRecord r := by
  simp only [hrecords]
  by_cases hsame : dir = key.dir
  · subst hsame
    rw [bucketFor_update_self, hf]
    by_cases hk : k = idKey key.packetID
    · rw [if_pos hk]
      constructor
      · intro hv
        obtain ⟨r, hr, hv⟩ := Option.map_eq_some_iff.mp hv
        exact ⟨key.packetID, r, (if_pos rfl).trans hr, hk, hv.symm⟩
      · rintro ⟨id, r, hr, hid, rfl⟩
        obtain rfl := idKey_injective (hid.symm.trans hk)
        rw [if_pos rfl] at hr
        rw [hr, Option.map_some]
    · rw [if_neg hk, h.bucket _ hdir]
      have hid : ∀ id, k = idKey id → (⟨key.dir, id⟩ : Key) ≠ key := by
        rintro id rfl heq
        exact hk (congrArg idKey (congrArg Key.packetID heq))
      constructor
      · rintro ⟨id, r, hr, hkid, hv⟩
        exact ⟨id, r, by rw [if_neg (hid id hkid)]; exact hr, hkid, hv⟩
      · rintro ⟨id, r, hr, hkid, hv⟩
        rw [if_neg (hid id hkid)] at hr
        exact ⟨id, r, hr, hkid, hv⟩
  · rw [bucketFor_update_ne _ _ hkey hdir hsame, h.bucket _ hdir]
    have hid : ∀ id, (⟨dir, id⟩ : Key) ≠ key := fun id heq => hsame (congrArg Key.dir heq)
    simp only [hid, if_false]

theorem put (h : Matches s) {r : Rec} (hu : Usable s (.put r)) (hvalid : validate r = none) :
    Matches
      { file := s.file.update r.key.dir fun b => b.set (idKey r.key.packetID) (encodeRecord r)
        memory := { s.memory with records := s.memory.records.set r.key r } } := by
  have hget : ∀ k, (s.memory.records.set r.key r).get k =
      if k = r.key then some r else s.memory.records.get k := fun k => get_set _ _ _ _
  refine ⟨?_, fun dir hdir => ?_, ?_, ?_⟩
  · rw [loadMeta_update]
    exact h.metaData
  · exact h.bucket_write (dir_of_valid hvalid) (fun b k => get_set _ _ _ _) hget hdir
  · intro k r' hr'
    simp only [hget] at hr'
    split at hr'
    · rename_i hk
      cases hr'
      exact ⟨hk.symm, hvalid, hu.1⟩
    · exact h.keyed k r' hr'
  · intro k k' r1 r2 h1 h2 hd1 hd2 hseq
    simp only [hget] at h1 h2
    split at h1
    · rename_i hk
      cases h1
      split at h2
      · rename_i hk'
        rw [hk, hk']
      · rename_i hk'
        have hr2 := (h.keyed k' r2 h2).1
        exact absurd hseq.symm (hu.2 k' r2 h2 hk' (by rw [hr2]; exact hd2)
          (by rw [← hk]; exact hd1))
    · rename_i hk
      split at h2
      · rename_i hk'
        cases h2
        have hr1 := (h.keyed k r1 h1).1
        exact absurd hseq (hu.2 k r1 h1 hk (by rw [hr1]; exact hd1) (by rw [← hk']; exact hd2))
      · exact h.distinct k k' r1 r2 h1 h2 hd1 hd2 hseq

theorem delete (h : Matches s) {k : Key} (hk : k.dir = outbound ∨ k.dir = inbound) :
    Matches { file := s.file.delete k, memory := s.memory.delete k } := by
  have hget : ∀ k', (s.memory.records.del k).get k' =
      if k' = k then none else s.memory.records.get k' := fun k' => get_del _ _ _
  have hold : ∀ k' r, (s.memory.delete k).records.get k' = some r →
      s.memory.records.get k' = some r := by
    intro k' r hr
    have hr : (s.memory.records.del k).get k' = some r := hr
    rw [hget] at hr
    split at hr
    · cases hr
    · exact hr
  refine ⟨?_, ?_, fun k' r hr => h.keyed k' r (hold k' r hr), fun k' k'' r r' hr hr' =>
    h.distinct k' k'' r r' (hold k' r hr) (hold k'' r' hr')⟩
  · exact (loadMeta_update _ _ _).trans h.metaData
  · intro dir hdir
    exact h.bucket_write (o := none) hk (fun b k' => get_del _ _ _) hget hdir

theorem empty (corrupt : List Corrupt) :
    Matches { file := { corrupt := corrupt }, memory := {} } := by
  refine ⟨rfl, ?_, ?_, ?_⟩
  · intro dir _ k v
    have hnone : (({ corrupt := corrupt } : Store).bucketFor dir).get k = none := by
      unfold Store.bucketFor
      split <;> exact get_empty k
    simp only [hnone, get_empty]
    constructor
    · intro hcon
      cases hcon
    · rintro ⟨id, r, hcon, -⟩
      cases hcon
  · intro k r hr
    rw [get_empty] at hr
    cases hr
  · intro k k' r r' hr
    rw [get_empty] at hr
    cases hr

/-- INTERNAL: **Every operation keeps the stores alike.** -/
theorem step (h : Matches s) {op : StoreOp} (hu : Usable s op) {t : Stores}
    (hstep : s.step op = some t) : Matches t := by
  cases op with
  | put r =>
    cases hstep
    cases hvalid : validate r with
    | some err =>
      simp only [Store.put, Memory.put, hvalid, Except.toOption, Option.getD_none]
      exact h
    | none =>
      simp only [Store.put, Memory.put, hvalid, Except.toOption, Option.getD_some]
      exact h.put hu hvalid
  | delete k =>
    cases hstep
    exact h.delete hu
  | setMeta m =>
    cases hstep
    exact ⟨decodeMeta_encodeMeta m, h.bucket, h.keyed, h.distinct⟩
  | reset =>
    cases hstep
    exact empty s.file.corrupt
  | load | reopen =>
    cases hstep
    exact ⟨h.metaData, h.bucket, h.keyed, h.distinct⟩

/-! ### Loading -/

/-- INTERNAL: Every pair of a bucket is a record of the memory store. -/
theorem loadPair_ok (h : Matches s) (hdir : dir = outbound ∨ dir = inbound)
    {x : Bytes × Bytes} (hx : x ∈ (s.file.bucketFor dir).entries) :
    ∃ r, Store.loadPair dir x = .ok r ∧ s.memory.records.get r.key = some r ∧ r.key.dir = dir ∧
      x.1 = idKey r.key.packetID := by
  obtain ⟨k, v⟩ := x
  obtain ⟨id, r, hr, rfl, rfl⟩ := (h.bucket dir hdir k v).mp ((mem_entries _ _ _).mp hx)
  obtain ⟨hkey, hvalid, hexp⟩ := h.keyed _ r hr
  have hid : id.toNat < 256 ^ 2 := id.toNat_lt
  have hread : UInt16.ofNat (ofBigEndian (idKey id)) = id := by
    rw [idKey, ofBigEndian_bigEndian, Nat.mod_eq_of_lt hid, UInt16.ofNat_toNat]
  have hlen : ¬ (idKey id).length ≠ 2 := fun hcon => hcon (length_bigEndian _ _)
  have hdecode := decodeRecord_encodeRecord r hvalid hexp
  rw [hkey] at hdecode
  refine ⟨r, ?_, by rw [hkey]; exact hr, by rw [hkey], by rw [hkey]⟩
  simp only [Store.loadPair, hlen, if_false, hread, hdecode]

/-- The records of one bucket. -/
def recordsOf (b : Bucket) (dir : UInt8) : List Rec :=
  b.entries.filterMap fun x => (Store.loadPair dir x).toOption

section

variable (h : Matches s)
include h

theorem mem_recordsOf (hdir : dir = outbound ∨ dir = inbound)
    (r : Rec) : r ∈ recordsOf (s.file.bucketFor dir) dir ↔
      s.memory.records.get r.key = some r ∧ r.key.dir = dir := by
  unfold recordsOf
  rw [mem_filterMap]
  constructor
  · rintro ⟨x, hx, hr⟩
    obtain ⟨r', hr', hget, hdir', -⟩ := h.loadPair_ok hdir hx
    rw [hr'] at hr
    cases hr
    exact ⟨hget, hdir'⟩
  · rintro ⟨hget, rfl⟩
    have hx : (idKey r.key.packetID, encodeRecord r) ∈ (s.file.bucketFor r.key.dir).entries :=
      (mem_entries _ _ _).mpr ((h.bucket _ hdir _ _).mpr ⟨_, r, hget, rfl, rfl⟩)
    obtain ⟨r', hr', hget', hdir', hid⟩ := h.loadPair_ok hdir hx
    have hkey : r'.key = r.key := by
      have hid := idKey_injective hid
      cases hk' : r'.key with
      | mk d i =>
        rw [hk'] at hdir' hid
        rw [show d = r.key.dir from hdir', show i = r.key.packetID from hid.symm]
    rw [hkey, hget] at hget'
    cases hget'
    exact ⟨_, hx, by rw [hr']; rfl⟩

theorem nodup_recordsOf (hdir : dir = outbound ∨ dir = inbound) :
    (recordsOf (s.file.bucketFor dir) dir).Nodup := by
  unfold recordsOf List.Nodup
  rw [pairwise_filterMap]
  refine (entries_pairwise _).imp_of_mem ?_
  intro x y hx hy hne r hr r' hr' heq
  obtain ⟨rx, hrx, -, -, hidx⟩ := h.loadPair_ok hdir hx
  obtain ⟨ry, hry, -, -, hidy⟩ := h.loadPair_ok hdir hy
  rw [hrx] at hr
  rw [hry] at hr'
  cases hr
  cases hr'
  exact hne (by rw [hidx, hidy, heq])

/-- INTERNAL: The records both stores have are the same. -/
theorem perm_records :
    (recordsOf s.file.out outbound ++ recordsOf s.file.inn inbound).Perm s.memory.records.vals := by
  have hmem : ∀ r, r ∈ recordsOf s.file.out outbound ++ recordsOf s.file.inn inbound ↔
      s.memory.records.get r.key = some r := by
    intro r
    have hout := h.mem_recordsOf (.inl rfl) r
    have hin := h.mem_recordsOf (.inr rfl) r
    rw [mem_append, show r ∈ recordsOf s.file.out outbound ↔ _ from hout,
      show r ∈ recordsOf s.file.inn inbound ↔ _ from hin]
    constructor
    · rintro (⟨hget, -⟩ | ⟨hget, -⟩) <;> exact hget
    · intro hget
      rcases dir_of_valid (h.keyed _ r hget).2.1 with hdir | hdir
      · exact .inl ⟨hget, hdir⟩
      · exact .inr ⟨hget, hdir⟩
  have hleft : (recordsOf s.file.out outbound ++ recordsOf s.file.inn inbound).Nodup := by
    refine List.Nodup.append (h.nodup_recordsOf (.inl rfl)) (h.nodup_recordsOf (.inr rfl)) ?_
    intro r hr hr'
    have hout := ((h.mem_recordsOf (.inl rfl) r).mp hr).2
    have hin := ((h.mem_recordsOf (.inr rfl) r).mp hr').2
    rw [hout] at hin
    exact absurd hin (by decide)
  have hright : s.memory.records.vals.Nodup := by
    unfold FiniteMap.vals List.Nodup
    rw [pairwise_map]
    refine (pairwise_map.mp (nodup_keys s.memory.records)).imp_of_mem ?_
    rintro ⟨k, r⟩ ⟨k', r'⟩ hx hy hne heq
    have hk := (h.keyed k r ((mem_toList _ _ _).mp hx)).1
    have hk' := (h.keyed k' r' ((mem_toList _ _ _).mp hy)).1
    have heq : r = r' := heq
    exact hne (by rw [← hk, ← hk', heq])
  refine (perm_ext_iff_of_nodup hleft hright).mpr fun r => ?_
  rw [hmem, mem_vals]
  constructor
  · exact fun hget => ⟨_, hget⟩
  · rintro ⟨k, hget⟩
    rw [(h.keyed k r hget).1]
    exact hget

/-- INTERNAL: The order of `Load` tells the records of the memory store apart. -/
theorem eq_of_loadsBefore {a b : Rec} (ha : s.memory.records.get a.key = some a)
    (hb : s.memory.records.get b.key = some b) (hab : loadsBefore a b) (hba : loadsBefore b a) :
    a = b := by
  have hdir : a.key.dir = b.key.dir := by
    rcases hab with hab | hab
    · rcases hba with hba | hba
      · exact absurd hba (UInt8.lt_asymm hab)
      · exact hba.1.symm
    · exact hab.1
  have hle : if a.key.dir = outbound then a.seq ≤ b.seq ∧ b.seq ≤ a.seq else
      a.key.packetID ≤ b.key.packetID ∧ b.key.packetID ≤ a.key.packetID := by
    rcases hab with hab | ⟨-, hab⟩
    · exact absurd (hdir ▸ hab) (UInt8.lt_irrefl _)
    · rcases hba with hba | ⟨-, hba⟩
      · exact absurd (hdir ▸ hba) (UInt8.lt_irrefl _)
      · rw [← hdir] at hba
        split
        · rename_i hout
          rw [if_pos hout] at hab hba
          exact ⟨hab, hba⟩
        · rename_i hout
          rw [if_neg hout] at hab hba
          exact ⟨hab, hba⟩
  have hkey : a.key = b.key := by
    split at hle
    · rename_i hout
      exact h.distinct _ _ a b ha hb hout (hdir ▸ hout) (UInt64.le_antisymm hle.1 hle.2)
    · have hid := UInt16.le_antisymm hle.1 hle.2
      cases hka : a.key with
      | mk d i =>
        cases hkb : b.key with
        | mk d' i' =>
          rw [hka, hkb] at hdir hid
          rw [show d = d' from hdir, show i = i' from hid]
  rw [hkey, hb] at ha
  exact (Option.some.inj ha).symm

/-- INTERNAL: **Both stores load the same.** -/
theorem load_eq :
    s.file.load.2 = s.memory.load ∧ s.file.load.1.corrupt = [] := by
  have hpairs : ∀ x ∈ s.file.pairs, ∃ r, x = .ok r := by
    intro x hx
    rcases mem_append.mp hx with hx | hx
    · obtain ⟨y, hy, rfl⟩ := mem_map.mp hx
      obtain ⟨r, hr, -⟩ := h.loadPair_ok (.inl (Eq.refl outbound)) hy
      exact ⟨r, hr⟩
    · obtain ⟨y, hy, rfl⟩ := mem_map.mp hx
      obtain ⟨r, hr, -⟩ := h.loadPair_ok (.inr (Eq.refl inbound)) hy
      exact ⟨r, hr⟩
  have hrecs : s.file.pairs.filterMap Except.toOption =
      recordsOf s.file.out outbound ++ recordsOf s.file.inn inbound := by
    unfold Store.pairs recordsOf
    rw [filterMap_append, filterMap_map, filterMap_map]
    rfl
  have hcorrupt : s.file.pairs.filterMap Store.corruptOf = [] := by
    rw [filterMap_eq_nil_iff]
    intro x hx
    obtain ⟨r, rfl⟩ := hpairs x hx
    rfl
  have hsorted : (recordsOf s.file.out outbound ++ recordsOf s.file.inn inbound).insertionSort
      loadsBefore = s.memory.records.vals.insertionSort loadsBefore := by
    have hget : ∀ r ∈ s.memory.records.vals, s.memory.records.get r.key = some r := by
      intro r hr
      obtain ⟨k, hk⟩ := (mem_vals _ _).mp hr
      rw [(h.keyed k r hk).1]
      exact hk
    refine @List.Perm.eq_of_pairwise Rec loadsBefore _ _ (fun a b ha hb hab hba => ?_)
      (pairwise_insertionSort _ _) (pairwise_insertionSort _ _) ?_
    · refine h.eq_of_loadsBefore (hget a ?_) (hget b ?_) hab hba
      · exact (h.perm_records.mem_iff).mp ((mem_insertionSort _).mp ha)
      · exact (mem_insertionSort _).mp hb
    · exact (perm_insertionSort _ _).trans
        (h.perm_records.trans (perm_insertionSort _ _).symm)
  refine ⟨?_, ?_⟩
  · unfold Store.load Memory.load
    simp only [hrecs, hsorted, h.metaData, Except.toOption, Option.getD_some]
  · unfold Store.load
    simp only [hcorrupt, h.metaData, append_nil]

end

end Matches

/-- **The stores are interchangeable.** In every run of Put, Delete, SetMeta, Reset, Load and
reopen in which the records put have expiry times in range and Seqs of their own, and no key is
deleted whose direction is neither outbound nor inbound: `Load` returns the same meta and the
same records in the same order from both stores, and finds nothing corrupt; and both refuse the
same Puts, with the same error. -/
theorem stores_interchangeable {s : Stores} (h : Reach Stores.step Usable (· = {}) s) :
    s.file.load.2 = s.memory.load ∧ s.file.load.1.corrupt = [] ∧
    ∀ r err, s.file.put r = .error err ↔ s.memory.put r = .error err := by
  have hmatch : Matches s := by
    refine h.invariant Matches ?_ fun _ _ _ hs hu hstep => hs.step hu hstep
    rintro _ rfl
    exact Matches.empty []
  refine ⟨hmatch.load_eq.1, hmatch.load_eq.2, fun r err => ?_⟩
  unfold Store.put Memory.put
  cases validate r with
  | none =>
    constructor
    · intro hcon
      cases hcon
    · intro hcon
      cases hcon
  | some e => simp only [Except.error.injEq]

/-- An outbound and an inbound record, with all their fields. -/
def outboundRecord : Rec :=
  { key := ⟨outbound, 7⟩, seq := 9, pubrecSeq := 11, qos := 2, phase := 3, packet := [0x34, 0],
    expiresAt := some (-5), ref := some [] }

def inboundRecord : Rec := { key := ⟨inbound, 7⟩, qos := 2, phase := 4 }

/-- The decidable part of `Usable` for runs that put the records above. -/
def usable (s : Stores) : StoreOp → Bool
  | .put r => (r = outboundRecord ∨ r = inboundRecord) ∧ s.memory.records.len = 0
  | .delete k => k.dir = outbound ∨ k.dir = inbound
  | _ => true

theorem usable_of_check (s : Stores) (op : StoreOp) (h : usable s op = true) : Usable s op := by
  cases op with
  | put r =>
    obtain ⟨hr, hlen⟩ := of_decide_eq_true h
    refine ⟨?_, fun k r' hr' => ?_⟩
    · rcases hr with rfl | rfl
      · intro t ht
        cases ht
        decide
      · intro t ht
        cases ht
    · have hmem := (mem_toList _ _ _).mpr hr'
      rw [length_eq_zero_iff.mp hlen] at hmem
      cases hmem
  | delete k =>
    have hdir : k.dir = outbound ∨ k.dir = inbound := of_decide_eq_true h
    exact hdir
  | _ => trivial

/-- Both stores load the record that was put. -/
theorem out_record_loaded : ∃ s, execute Stores.step {}
      [.put inboundRecord, .delete ⟨inbound, 7⟩, .put outboundRecord,
        .setMeta { clientID := [0x61] }, .reopen] = some s ∧
      s.file.load.2 = s.memory.load ∧ s.memory.load =
        ({ clientID := [0x61] }, [outboundRecord]) := by
  have hrun : (execute Stores.step {}
      [.put inboundRecord, .delete ⟨inbound, 7⟩, .put outboundRecord,
        .setMeta { clientID := [0x61] }, .reopen]).any
        (fun s => s.memory.load = ({ clientID := [0x61] }, [outboundRecord])) = true := by
    decide +kernel
  obtain ⟨s, hs, hP⟩ := exists_of_execute hrun
  have hreach : Reach Stores.step Usable (· = {}) s :=
    Reach.of_execute usable_of_check (.start rfl) (by decide +kernel) hs
  exact ⟨s, hs, (stores_interchangeable hreach).1, of_decide_eq_true hP⟩

/-- A record is put, and a key without a direction is deleted: the file store has lost the
record. -/
theorem undirected_delete :
    ((execute Stores.step {} [.put outboundRecord, .delete ⟨0, 7⟩]).any fun s =>
      s.memory.load.2 = [outboundRecord] ∧ s.file.load.2.2 = []) = true := by
  decide +kernel

end Mqttv5.Guarantees
