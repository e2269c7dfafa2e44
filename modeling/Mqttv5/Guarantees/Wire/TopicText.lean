import Mqttv5.Analysis.Wire.Utf8
import Mqttv5.Program.ShareFilter

/-!
# The text of topics and filters

The screens eight bytes at a time accept the text MQTT 5 section 1.5.4 accepts, and
`ValidTopicFilter` the filters of section 4.7 and section 4.8.2. The functions that take a shared
subscription's filter apart, which were written one by one, agree on the filters it accepts.
-/

set_option autoImplicit false

namespace Mqttv5.Guarantees.Wire

open Analysis.Wire
open Model (Bytes)
open Program (parseShareFilter stripShareGroup sharedSubPrefix)
open Program.Wire List

/-! ### Well-formed UTF-8 -/

/-- The well-formed byte sequences of a code point, by the ranges of their bytes: the table of RFC
3629 and of the Unicode standard, without surrogates and without encodings that are too long. -/
def sequences : List (List (UInt8 × UInt8)) :=
  [[(0x00, 0x7F)],
    [(0xC2, 0xDF), (0x80, 0xBF)],
    [(0xE0, 0xE0), (0xA0, 0xBF), (0x80, 0xBF)],
    [(0xE1, 0xEC), (0x80, 0xBF), (0x80, 0xBF)],
    [(0xED, 0xED), (0x80, 0x9F), (0x80, 0xBF)],
    [(0xEE, 0xEF), (0x80, 0xBF), (0x80, 0xBF)],
    [(0xF0, 0xF0), (0x90, 0xBF), (0x80, 0xBF), (0x80, 0xBF)],
    [(0xF1, 0xF3), (0x80, 0xBF), (0x80, 0xBF), (0x80, 0xBF)],
    [(0xF4, 0xF4), (0x80, 0x8F), (0x80, 0xBF), (0x80, 0xBF)]]

/-- The bytes are in the ranges, one by one. -/
def InRanges (ranges : List (UInt8 × UInt8)) (b : Bytes) : Prop :=
  List.Forall₂ (fun r x => r.1 ≤ x ∧ x ≤ r.2) ranges b

/-- Well-formed UTF-8: such sequences one after the other. -/
inductive WellFormed : Bytes → Prop
  | nil : WellFormed []
  | append {ranges : List (UInt8 × UInt8)} {b rest : Bytes} (hseq : ranges ∈ sequences)
      (hb : InRanges ranges b) (h : WellFormed rest) : WellFormed (b ++ rest)

/-- The ranges start with one that `b` is in. -/
def startsIn (b : UInt8) (ranges : List (UInt8 × UInt8)) : Bool :=
  ranges.head?.any fun r => r.1 ≤ b && b ≤ r.2

/-- INTERNAL: The table of first bytes, byte by byte. -/
theorem utf8First_eq (b : UInt8) :
    (sequences.filter (startsIn b)).map List.tail = (utf8First b).toList := by
  have htable : ∀ n < 256, (sequences.filter (startsIn (UInt8.ofNat n))).map List.tail =
      (utf8First (UInt8.ofNat n)).toList := by decide +kernel
  rw [← UInt8.ofNat_toNat (x := b)]
  exact htable b.toNat b.toNat_lt

theorem utf8First_some (b : UInt8) (need : List (UInt8 × UInt8)) : utf8First b = some need ↔
    ∃ r, r :: need ∈ sequences ∧ r.1 ≤ b ∧ b ≤ r.2 := by
  rw [← Option.mem_toList, ← utf8First_eq, mem_map]
  constructor
  · rintro ⟨ranges, hmem, rfl⟩
    obtain ⟨hseq, hin⟩ := mem_filter.mp hmem
    cases ranges with
    | nil => cases hin
    | cons r need => exact ⟨r, hseq, by simpa [startsIn] using hin⟩
  · rintro ⟨r, hseq, hin⟩
    exact ⟨r :: need, mem_filter.mpr ⟨hseq, by simpa [startsIn] using hin⟩, rfl⟩

/-- INTERNAL: The loop reads the bytes it needs and goes on behind them. -/
theorem utf8Loop_iff (need : List (UInt8 × UInt8)) (b : Bytes) : utf8Loop need b = true ↔
    ∃ c rest, b = c ++ rest ∧ InRanges need c ∧ utf8Loop [] rest = true := by
  induction need generalizing b with
  | nil => simp [InRanges]
  | cons r need ih =>
    cases b with
    | nil =>
      simp only [utf8Loop, Bool.false_eq_true, false_iff]
      rintro ⟨c, rest, heq, hc, -⟩
      cases hc
      cases heq
    | cons x b =>
      rw [utf8Loop, Bool.and_eq_true, decide_eq_true_eq, ih]
      constructor
      · rintro ⟨hx, c, rest, rfl, hc, h⟩
        exact ⟨x :: c, rest, rfl, .cons hx hc, h⟩
      · rintro ⟨c, rest, heq, hc, h⟩
        cases hc with
        | cons hx hc =>
          cases heq
          exact ⟨hx, _, rest, rfl, hc, h⟩

/-- INTERNAL: **`utf8.Valid` meets its specification.** -/
theorem utf8Valid_iff (b : Bytes) : utf8Valid b = true ↔ WellFormed b := by
  constructor
  · show utf8Loop [] b = true → _
    induction hn : b.length using Nat.strong_induction_on generalizing b with
    | _ n ih =>
      intro h
      cases b with
      | nil => exact .nil
      | cons x b =>
        rw [utf8Loop] at h
        cases hx : utf8First x with
        | none => rw [hx] at h; cases h
        | some need =>
          rw [hx] at h
          obtain ⟨c, rest, rfl, hc, h⟩ := (utf8Loop_iff _ _).mp h
          obtain ⟨r, hseq, hin⟩ := (utf8First_some x need).mp hx
          refine WellFormed.append (b := x :: c) hseq (.cons hin hc) (ih _ ?_ rest rfl h)
          rw [← hn, length_cons, length_append]
          omega
  · intro h
    induction h with
    | nil => rfl
    | @append ranges c rest hseq hb h ih =>
      show utf8Loop [] _ = true
      cases hb with
      | nil => exact absurd hseq (by decide)
      | @cons r x need c hx hc =>
        rw [cons_append, utf8Loop, (utf8First_some x need).mpr ⟨r, hseq, hx⟩]
        exact (utf8Loop_iff _ _).mpr ⟨c, rest, rfl, hc, ih⟩

/-! ### The screens -/

theorem validUTF8Rest_iff (b : Bytes) :
    validUTF8Rest b = true ↔ utf8Valid b = true ∧ 0 ∉ b := by
  induction b with
  | nil => simp [validUTF8Rest, utf8Valid, utf8Loop]
  | cons c rest ih =>
    unfold validUTF8Rest
    by_cases h0 : c = 0
    · simp [h0]
    rw [if_neg h0]
    by_cases hhigh : 0x80 ≤ c
    · rw [if_pos hhigh]
      simp
    · have hfirst : utf8First c = some [] := if_pos (by simpa using hhigh)
      have hvalid : utf8Valid (c :: rest) = utf8Valid rest := by
        unfold utf8Valid
        rw [utf8Loop, hfirst]
      rw [if_neg hhigh, ih, hvalid, mem_cons, not_or, and_iff_right (Ne.symm h0)]

theorem validUTF8Bytes_iff (b : Bytes) :
    validUTF8Bytes b = true ↔ WellFormed b ∧ 0 ∉ b := by
  rw [validUTF8Bytes_eq, validUTF8Rest_iff, utf8Valid_iff]

theorem scanTopicName_iff (b : Bytes) (found : Bool) :
    scanTopicName b = (true, found) ↔
      (WellFormed b ∧ 0 ∉ b) ∧ decide (0x2B ∈ b ∨ 0x23 ∈ b) = found := by
  rw [scanTopicName_eq, scanTopicRest_ok, Bool.false_or, ← validUTF8Bytes_eq, validUTF8Bytes_iff]
  rfl

/-- Both screens accept well-formed UTF-8 without NUL and nothing else, of any length, and the
scan of a topic name says whether there is a wildcard in it. `validatePublish` lets a topic pass
when the scan answers valid and no wildcard; up to the length a topic can have in a packet, those
are the topics `ValidTopicName` accepts. -/
theorem screening_exact (b : Bytes) :
    (validUTF8Bytes b = true ↔ WellFormed b ∧ 0 ∉ b) ∧
    ((scanTopicName b).1 = true ↔ WellFormed b ∧ 0 ∉ b) ∧
    ((scanTopicName b).1 = true → ((scanTopicName b).2 = true ↔ 0x2B ∈ b ∨ 0x23 ∈ b)) ∧
    (b.length ≤ 65535 → (scanTopicName b = (true, false) ↔ validTopicName b = .ok ())) := by
  have hscan := scanTopicName_iff b
  refine ⟨validUTF8Bytes_iff b, ⟨fun h => ?_, fun h => ?_⟩, fun h => ?_, fun hlen => ?_⟩
  · exact ((hscan (scanTopicName b).2).mp (Prod.ext h rfl)).1
  · exact congrArg Prod.fst ((hscan _).mpr ⟨h, rfl⟩)
  · rw [← ((hscan (scanTopicName b).2).mp (Prod.ext h rfl)).2, decide_eq_true_eq]
  · rw [validTopicName_ok]
    exact scanTopicName_ok hlen

/-! ### Topic filters -/

/-- The levels of a topic filter. -/
def levels (f : Bytes) : List Bytes := f.splitOn 0x2F

/-- A topic filter of section 4.7: a level with a `+` or a `#` has nothing else in it, and a `#`
is the last level. -/
structure IsTopicFilter (f : Bytes) : Prop where
  plus : ∀ l ∈ levels f, 0x2B ∈ l → l = [0x2B]
  hash : ∀ l ∈ levels f, 0x23 ∈ l → l = [0x23]
  last : ∀ l ∈ (levels f).dropLast, l ≠ [0x23]

/-- The share name and the filter of a shared subscription of section 4.8.2. -/
structure IsShared (f name u : Bytes) : Prop where
  form : f = sharePrefix ++ name ++ 0x2F :: u
  name_ne_nil : name ≠ []
  slash : 0x2F ∉ name
  plus : 0x2B ∉ name
  hash : 0x23 ∉ name
  filter_ne_nil : u ≠ []
  filter : IsTopicFilter u

theorem checkLevels_ok (f : Bytes) (ls : List Bytes) : checkLevels f ls = .ok () ↔
    (∀ l ∈ ls, 0x2B ∈ l → l = [0x2B]) ∧ (∀ l ∈ ls, 0x23 ∈ l → l = [0x23]) ∧
      ∀ l ∈ ls.dropLast, l ≠ [0x23] := by
  induction ls with
  | nil => simp [checkLevels]
  | cons l rest ih =>
    rw [checkLevels, ite_error_eq_ok, ite_error_eq_ok, ite_error_eq_ok, ih]
    cases rest with
    | nil => simp only [dropLast_singleton, forall_mem_cons, not_mem_nil]; grind
    | cons l' rest => simp only [dropLast_cons_cons, forall_mem_cons]; grind

theorem checkLevels_filter (f g : Bytes) :
    checkLevels g (f.splitOn 0x2F) = .ok () ↔ IsTopicFilter f := by
  rw [checkLevels_ok]
  exact ⟨fun ⟨h1, h2, h3⟩ => ⟨h1, h2, h3⟩, fun h => ⟨h.plus, h.hash, h.last⟩⟩

theorem cutSlash_some (s a b : Bytes) :
    cutSlash s = some (a, b) ↔ s = a ++ 0x2F :: b ∧ 0x2F ∉ a := by
  induction s generalizing a with
  | nil => simp [cutSlash]
  | cons c rest ih =>
    unfold cutSlash
    by_cases hc : c = 0x2F
    · cases a with
      | nil => simp [hc]
      | cons x a => simp [hc]; grind
    · cases a with
      | nil => simp [hc]
      | cons x a =>
        rw [if_neg hc, Option.map_eq_some_iff]
        simp only [Prod.mk.injEq, List.cons.injEq, cons_append, Prod.exists]
        constructor
        · rintro ⟨a', b', h, ⟨rfl, rfl⟩, rfl⟩
          obtain ⟨hrest, hnot⟩ := (ih a').mp h
          exact ⟨⟨rfl, hrest⟩, by simpa using ⟨Ne.symm hc, hnot⟩⟩
        · rintro ⟨⟨rfl, hrest⟩, hnot⟩
          exact ⟨a, b, (ih a).mpr ⟨hrest, fun h => hnot (.tail _ h)⟩, ⟨rfl, rfl⟩, rfl⟩

theorem idxOf?_slash {a b : Bytes} (h : 0x2F ∉ a) :
    (a ++ 0x2F :: b).idxOf? Mqttv5.Program.Trie.slash = some a.length := by
  induction a with
  | nil => rfl
  | cons x a ih =>
    rw [mem_cons, not_or] at h
    rw [cons_append, List.idxOf?_cons, if_neg
      (by simpa [Mqttv5.Program.Trie.slash] using Ne.symm h.1), ih h.2]
    rfl

theorem containsWildcard_false (s : Bytes) :
    containsWildcard s = false ↔ 0x2B ∉ s ∧ 0x23 ∉ s := by
  simp [containsWildcard]

/-- INTERNAL: **The filters `ValidTopicFilter` accepts.** -/
theorem validTopicFilter_ok (f : Bytes) : validTopicFilter f = .ok () ↔
    f ≠ [] ∧ f.length ≤ 65535 ∧ (WellFormed f ∧ 0 ∉ f) ∧
      (¬ sharePrefix <+: f ∧ IsTopicFilter f ∨ ∃ name u, IsShared f name u) := by
  unfold validTopicFilter
  rw [ite_error_eq_ok, ite_error_eq_ok, ite_error_eq_ok, ← validUTF8Bytes_iff]
  refine and_congr_right fun _ => and_congr (by simp) (and_congr (by simp [validUTF8]) ?_)
  by_cases hs : sharePrefix <+: f
  · rw [if_pos (List.isPrefixOf_iff_prefix.mpr hs)]
    obtain ⟨rest, rfl⟩ := hs
    rw [drop_left]
    have hpre : sharePrefix <+: sharePrefix ++ rest := prefix_append _ _
    simp only [hpre, not_true_eq_false, false_and, false_or]
    constructor
    · intro h
      split at h
      · cases h
      · rename_i name sub hcut
        rw [ite_error_eq_ok, ite_error_eq_ok, checkLevels_filter, not_or, Bool.not_eq_true,
          containsWildcard_false] at h
        obtain ⟨hrest, hslash⟩ := (cutSlash_some _ _ _).mp hcut
        obtain ⟨⟨hname, hplus, hhash⟩, hne, hsub⟩ := h
        exact ⟨name, sub, by rw [hrest, append_assoc], hname, hslash, hplus, hhash, hne, hsub⟩
    · rintro ⟨name, u, h⟩
      have hrest : rest = name ++ 0x2F :: u := by
        have hform := h.form
        rwa [append_assoc, append_cancel_left_eq] at hform
      rw [(cutSlash_some _ _ _).mpr ⟨hrest, h.slash⟩]
      simp only [ite_error_eq_ok, checkLevels_filter, not_or, Bool.not_eq_true,
        containsWildcard_false]
      exact ⟨⟨h.name_ne_nil, h.plus, h.hash⟩, h.filter_ne_nil, h.filter⟩
  · rw [if_neg (fun hp => hs (List.isPrefixOf_iff_prefix.mp hp)), checkLevels_filter]
    refine ⟨fun h => .inl ⟨hs, h⟩, ?_⟩
    rintro (⟨-, h⟩ | ⟨name, u, h⟩)
    · exact h
    · exact absurd ⟨name ++ 0x2F :: u, by rw [h.form, append_assoc]⟩ hs

/-- INTERNAL: A byte other than the separator is in the text when it is in a level. -/
theorem mem_intercalate {c x : UInt8} (hc : c ≠ x) (ls : List Bytes) :
    c ∈ [x].intercalate ls ↔ ∃ l ∈ ls, c ∈ l := by
  induction ls with
  | nil => simp [List.intercalate]
  | cons l rest ih =>
    by_cases hrest : rest = []
    · simp [hrest]
    · rw [intercalate_cons_of_ne_nil hrest]
      simp [ih, hc]

theorem containsWildcard_levels {u : Bytes} (hu : IsTopicFilter u) :
    containsWildcard u = true ↔ [0x2B] ∈ levels u ∨ [0x23] ∈ levels u := by
  have hmem : ∀ c : UInt8, c ≠ 0x2F → (∀ l ∈ levels u, c ∈ l → l = [c]) →
      (c ∈ u ↔ [c] ∈ levels u) := by
    intro c hc hall
    have hjoin := mem_intercalate hc (levels u)
    rw [levels, intercalate_splitOn] at hjoin
    rw [hjoin]
    constructor
    · rintro ⟨l, hl, hcl⟩
      rwa [← hall l hl hcl]
    · exact fun h => ⟨[c], h, mem_singleton_self c⟩
  rw [containsWildcard, decide_eq_true_eq, hmem _ (by decide) hu.plus, hmem _ (by decide) hu.hash]

/-- INTERNAL: What the three functions make of a shared subscription. -/
theorem IsShared.parsed {f name u : Bytes} (h : IsShared f name u) : isSharedFilter f = true ∧
    stripShareGroup f = (u, true) ∧ parseShareFilter f = (name, u, true) := by
  have hpre : sharedSubPrefix.isPrefixOf f = true :=
    isPrefixOf_iff_prefix.mpr ⟨name ++ 0x2F :: u, by rw [h.form, append_assoc]; rfl⟩
  have hdrop : f.drop sharedSubPrefix.length = name ++ 0x2F :: u := by
    rw [h.form, append_assoc]
    rfl
  have htail : (name ++ 0x2F :: u).drop (name.length + 1) = u := by
    rw [drop_append]
    simp
  refine ⟨hpre, ?_, ?_⟩
  · unfold stripShareGroup
    rw [if_pos hpre, hdrop]
    simp only [idxOf?_slash h.slash, htail]
  · unfold parseShareFilter
    obtain ⟨i, hi⟩ : ∃ i, name.length = i + 1 :=
      Nat.exists_eq_succ_of_ne_zero (mt length_eq_zero_iff.mp h.name_ne_nil)
    rw [if_pos hpre, hdrop]
    simp only [idxOf?_slash h.slash, hi]
    rw [← hi, take_left, show i + 2 = name.length + 1 by omega, htail]

/-- `ValidTopicFilter` accepts the filters of section 4.7 and the shared subscriptions of section
4.8.2 and nothing else. On those it accepts, the three functions agree on whether the filter is
shared and on the filter underneath, `f` itself when it is not, and the check for wildcards finds
what is a wildcard level of it. -/
theorem filter_grammar (f : Bytes) :
    (validTopicFilter f = .ok () ↔
      f ≠ [] ∧ f.length ≤ 65535 ∧ (WellFormed f ∧ 0 ∉ f) ∧
        (¬ sharePrefix <+: f ∧ IsTopicFilter f ∨ ∃ name u, IsShared f name u)) ∧
    (validTopicFilter f = .ok () → ∃ u shared,
      isSharedFilter f = shared ∧ stripShareGroup f = (u, shared) ∧
      (parseShareFilter f).2 = (u, shared) ∧
      (if shared then ∃ name, IsShared f name u else u = f) ∧
      (containsWildcard u = true ↔ [0x2B] ∈ levels u ∨ [0x23] ∈ levels u)) := by
  refine ⟨validTopicFilter_ok f, fun h => ?_⟩
  obtain ⟨-, -, -, ⟨hpre, hfilter⟩ | ⟨name, u, hshared⟩⟩ := (validTopicFilter_ok f).mp h
  · have hnot : ¬ sharePrefix.isPrefixOf f = true :=
      fun hp => hpre (List.isPrefixOf_iff_prefix.mp hp)
    refine ⟨f, false, Bool.eq_false_iff.mpr hnot, if_neg hnot, ?_, rfl,
      containsWildcard_levels hfilter⟩
    exact congrArg Prod.snd (if_neg hnot)
  · obtain ⟨h1, h2, h3⟩ := hshared.parsed
    exact ⟨u, true, h1, h2, congrArg Prod.snd h3, ⟨name, hshared⟩,
      containsWildcard_levels hshared.filter⟩

end Mqttv5.Guarantees.Wire
