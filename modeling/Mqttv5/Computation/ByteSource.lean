import Mathlib.Data.List.Basic

/-!
# A buffered reader over a source that answers in chunks

The standard library's `bufio.Reader` and `io.ReadFull`, over a source that gives its bytes
chunk by chunk and then ends. How the bytes are cut into chunks, and how large the buffer is,
decides which part of the stream one `Read` returns; `readByte_eq` and `readFull_eq` say that
the two operations a decoder uses see the bytes alone, and leave the source alone as long as
the buffer has them.
-/

set_option autoImplicit false

namespace Mqttv5.Computation

open List

/-- A reader: `buf` is read from the source and not yet handed out; each element of `src` is
what one `Read` of the source would return, if there is room for it. -/
structure Reader (α : Type) where
  size : ℕ
  buf : List α
  src : List {c : List α // c ≠ []}
  positive : 0 < size

/-- How reading ended short. -/
inductive ReadError
  | eof | unexpectedEOF
  deriving DecidableEq, Repr

variable {α : Type}

namespace Reader

/-- The bytes still to come. -/
def content (r : Reader α) : List α := r.buf ++ r.src.flatMap Subtype.val

/-- One `Read` of the source into room for `n`: what does not fit comes with the next one. -/
def take (n : ℕ) (c : {c : List α // c ≠ []}) (src : List {c : List α // c ≠ []}) :
    List α × List {c : List α // c ≠ []} :=
  (c.val.take n, if h : c.val.drop n = [] then src else ⟨c.val.drop n, h⟩ :: src)

/-- The bytes of a `Read` into a slice of length `n`; `none` is the end of the stream. -/
def read (r : Reader α) (n : ℕ) : Option (List α × Reader α) :=
  if n = 0 then some ([], r)
  else if r.buf ≠ [] then some (r.buf.take n, { r with buf := r.buf.drop n })
  else match r.src with
    | [] => none
    | c :: src =>
      -- A slice at least as large as the buffer is read into directly.
      if r.size ≤ n then some ((take n c src).1, { r with src := (take n c src).2 })
      else
        let (filled, src) := take r.size c src
        some (filled.take n, { r with buf := filled.drop n, src := src })

/-- `ReadByte`. -/
def readByte (r : Reader α) : Option (α × Reader α) :=
  match r.buf with
  | b :: buf => some (b, { r with buf := buf })
  | [] => match r.src with
    | [] => none
    | c :: src => match take r.size c src with
      | (b :: filled, src) => some (b, { r with buf := filled, src := src })
      | ([], _) => none

/-- The loop of `io.ReadFull`: `got` is read and `n` are missing. Every `Read` that does not
end the stream returns something, so `n` bounds the number of rounds. -/
def readFullLoop : (fuel n : ℕ) → (got : List α) → Reader α →
    List α × Option ReadError × Reader α
  | 0, _, got, r => (got, none, r)
  | fuel + 1, n, got, r =>
    if n = 0 then (got, none, r)
    else match r.read n with
      | none => (got, some (if got = [] then .eof else .unexpectedEOF), r)
      | some (bs, r') => readFullLoop fuel (n - bs.length) (got ++ bs) r'

/-- `io.ReadFull` into a slice of length `n`: the bytes read, the error and the reader. -/
def readFull (r : Reader α) (n : ℕ) : List α × Option ReadError × Reader α :=
  readFullLoop (n + 1) n [] r

/-- INTERNAL: A read takes a part and leaves the rest. -/
theorem take_content (n : ℕ) (c : {c : List α // c ≠ []}) (src : List {c : List α // c ≠ []}) :
    (take n c src).1 ++ (take n c src).2.flatMap Subtype.val =
      c.val ++ src.flatMap Subtype.val := by
  unfold take
  split
  case isTrue h =>
    have := take_append_drop n c.val
    rw [h, append_nil] at this
    simp [this]
  case isFalse h =>
    simp [flatMap_cons, ← append_assoc]

/-- INTERNAL: A read of something takes something. -/
theorem take_ne_nil {n : ℕ} (hn : 0 < n) (c : {c : List α // c ≠ []})
    (src : List {c : List α // c ≠ []}) : (take n c src).1 ≠ [] :=
  fun h => (take_eq_nil_iff.mp h).elim (Nat.pos_iff_ne_zero.mp hn) c.property

/-- INTERNAL: A reader at its end. -/
theorem content_eq_nil {r : Reader α} : r.content = [] ↔ r.buf = [] ∧ r.src = [] := by
  unfold content
  constructor
  · intro h
    obtain ⟨hb, hs⟩ := append_eq_nil_iff.mp h
    refine ⟨hb, ?_⟩
    cases hsrc : r.src with
    | nil => rfl
    | cons c src =>
      rw [hsrc, flatMap_cons] at hs
      exact absurd (append_eq_nil_iff.mp hs).1 c.property
  · rintro ⟨hb, hs⟩
    simp [hb, hs]

/-- `r'` is `r` after `n` bytes; if they were buffered, nothing was read from the source. -/
structure Consumed (n : ℕ) (r r' : Reader α) : Prop where
  content : r'.content = r.content.drop n
  buffered : n ≤ r.buf.length → r' = { r with buf := r.buf.drop n }

namespace Consumed

variable {r r' r'' : Reader α} {m n : ℕ}

/-- INTERNAL: To read nothing. -/
theorem zero (r : Reader α) : Consumed 0 r r := ⟨rfl, fun _ => rfl⟩

/-- INTERNAL: One read after another. -/
theorem trans (h : Consumed m r r') (h' : Consumed n r' r'') : Consumed (m + n) r r'' := by
  refine ⟨by rw [h'.content, h.content, drop_drop], fun hle => ?_⟩
  obtain rfl := h.buffered (by omega)
  rw [h'.buffered (by rw [length_drop]; omega)]
  simp only [drop_drop]

/-- What comes from the source was not buffered. -/
theorem of_unbuffered {bs : List α} (hb : r.buf = []) (hne : bs ≠ [])
    (hc : r.content = bs ++ r'.content) : Consumed bs.length r r' := by
  refine ⟨by rw [hc, drop_left], fun hle => ?_⟩
  rw [hb] at hle
  exact absurd (length_eq_zero_iff.mp (Nat.le_zero.mp hle)) hne

/-- Bytes that are not all there are not buffered. -/
theorem of_short (hm : r.content.length < m) (h : r'.content = []) : Consumed m r r' := by
  have hbuf : r.buf.length ≤ r.content.length := by simp [Reader.content]
  exact ⟨by rw [h, drop_eq_nil_of_le (by omega)], fun hle => by omega⟩

end Consumed

/-- `ReadByte` hands out the first byte of the stream, and fails only at its end. -/
theorem readByte_eq (r : Reader α) :
    (r.content = [] ∧ r.readByte = none) ∨
      ∃ b r', r.content = b :: r'.content ∧ r.readByte = some (b, r') ∧ Consumed 1 r r' := by
  unfold readByte
  cases hb : r.buf with
  | cons b buf =>
    exact .inr ⟨b, { r with buf := buf }, by simp [content, hb], rfl, by simp [content, hb],
      fun _ => by simp [hb]⟩
  | nil =>
    cases hs : r.src with
    | nil => exact .inl ⟨content_eq_nil.mpr ⟨hb, hs⟩, rfl⟩
    | cons c src =>
      have hc := take_content r.size c src
      have hne := take_ne_nil r.positive c src
      obtain ⟨filled, rest, ht⟩ : ∃ f s, take r.size c src = (f, s) := ⟨_, _, rfl⟩
      rw [ht] at hc hne
      cases filled with
      | nil => exact absurd rfl hne
      | cons b filled =>
        have hcontent : r.content = b :: content { r with buf := filled, src := rest } := by
          rw [content, hb, hs, flatMap_cons, ← hc]
          rfl
        exact .inr ⟨b, _, hcontent, by simp [ht],
          .of_unbuffered hb (cons_ne_nil b []) hcontent⟩

/-- A `Read` returns a non-empty prefix of the stream, and fails only at its end. -/
theorem read_eq (r : Reader α) {n : ℕ} (hn : 0 < n) :
    (r.content = [] ∧ r.read n = none) ∨
      ∃ bs r', bs ≠ [] ∧ bs.length ≤ n ∧ r.content = bs ++ r'.content ∧
        r.read n = some (bs, r') ∧ Consumed bs.length r r' := by
  unfold read
  rw [if_neg (by omega)]
  by_cases hb : r.buf = []
  · rw [if_neg (by simpa using hb)]
    cases hs : r.src with
    | nil => exact .inl ⟨content_eq_nil.mpr ⟨hb, hs⟩, rfl⟩
    | cons c src =>
      have hcontent : r.content = c.val ++ src.flatMap Subtype.val := by
        simp [content, hb, hs]
      by_cases hsize : r.size ≤ n
      · have hne := take_ne_nil hn c src
        have hc : r.content = (take n c src).1 ++ content { r with src := (take n c src).2 } := by
          rw [hcontent, ← take_content n c src]
          simp [content, hb]
        exact .inr ⟨_, _, hne, length_take_le n c.val, hc, by simp [hsize],
          .of_unbuffered hb hne hc⟩
      · have hne := take_ne_nil r.positive c src
        have hc := take_content r.size c src
        obtain ⟨filled, rest, ht⟩ : ∃ f s, take r.size c src = (f, s) := ⟨_, _, rfl⟩
        rw [ht] at hne hc
        have hne' : filled.take n ≠ [] := fun h =>
          (take_eq_nil_iff.mp h).elim (Nat.pos_iff_ne_zero.mp hn) hne
        have hc' : r.content =
            filled.take n ++ content { r with buf := filled.drop n, src := rest } := by
          rw [hcontent, ← hc]
          show filled ++ _ = filled.take n ++ (filled.drop n ++ _)
          rw [← append_assoc, take_append_drop]
        exact .inr ⟨_, _, hne', length_take_le n filled, hc', by simp [hsize, ht],
          .of_unbuffered hb hne' hc'⟩
  · rw [if_pos hb]
    have hc : r.content = r.buf.take n ++ content { r with buf := r.buf.drop n } := by
      show r.buf ++ _ = r.buf.take n ++ (r.buf.drop n ++ _)
      rw [← append_assoc, take_append_drop]
    refine .inr ⟨r.buf.take n, _, fun h => (take_eq_nil_iff.mp h).elim (by omega) hb,
      length_take_le n r.buf, hc, rfl, by rw [hc, drop_left], fun _ => ?_⟩
    rcases Nat.le_total n r.buf.length with h | h
    · rw [length_take, Nat.min_eq_left h]
    · rw [take_of_length_le h, drop_length, drop_eq_nil_of_le h]

/-- INTERNAL: The loop of `ReadFull` reads what there is, up to `n`. -/
theorem readFullLoop_eq (fuel : ℕ) : ∀ (n : ℕ) (got : List α) (r : Reader α), n < fuel →
    ∃ r', readFullLoop fuel n got r =
        (got ++ r.content.take n,
          if n ≤ r.content.length then none
          else some (if got ++ r.content = [] then .eof else .unexpectedEOF), r') ∧
      Consumed n r r' := by
  induction fuel with
  | zero => intro n got r h; exact absurd h (Nat.not_lt_zero n)
  | succ fuel ih =>
    intro n got r h
    unfold readFullLoop
    by_cases hn : n = 0
    · exact ⟨r, by simp [hn], by rw [hn]; exact .zero r⟩
    rw [if_neg hn]
    rcases read_eq r (Nat.pos_of_ne_zero hn) with ⟨hc, hr⟩ | ⟨bs, r', hne, hlen, hc, hr, htook⟩
    · refine ⟨r, ?_, .of_short (by rw [hc]; exact Nat.pos_of_ne_zero hn) hc⟩
      rw [hr, hc]
      simp [hn]
    · -- The bytes of this round are the head of what was asked for.
      have hpos : 0 < bs.length := length_pos_of_ne_nil hne
      obtain ⟨r'', h1, h2⟩ := ih (n - bs.length) (got ++ bs) r' (by omega)
      refine ⟨r'', ?_, by simpa [Nat.add_sub_cancel' hlen] using htook.trans h2⟩
      rw [hr]
      show readFullLoop fuel (n - bs.length) (got ++ bs) r' = _
      rw [h1, hc, take_append, take_of_length_le hlen]
      have hle : (n - bs.length ≤ r'.content.length) ↔ (n ≤ (bs ++ r'.content).length) := by
        rw [length_append]
        omega
      simp only [hle, append_assoc]

/-- `io.ReadFull` returns the next `n` bytes of the stream, or all there are and why not `n`. -/
theorem readFull_eq (r : Reader α) (n : ℕ) :
    ∃ r', r.readFull n =
        (r.content.take n,
          if n ≤ r.content.length then none
          else some (if r.content = [] then .eof else .unexpectedEOF), r') ∧
      Consumed n r r' := by
  simpa [readFull] using readFullLoop_eq (n + 1) n [] r (Nat.lt_succ_self n)

end Reader

end Mqttv5.Computation
