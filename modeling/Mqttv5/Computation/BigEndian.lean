import Mathlib.Data.List.Basic
import Mathlib.Tactic.Ring

/-!
# Unsigned integers as big-endian bytes

A number is written into a fixed number of bytes, most significant first, and read back.
-/

set_option autoImplicit false

namespace Mqttv5.Computation

/-- The low `n` bytes of `v`, most significant first. -/
def bigEndian : (n v : ℕ) → List UInt8
  | 0, _ => []
  | n + 1, v => .ofNat (v / 256 ^ n) :: bigEndian n v

/-- The number some bytes stand for. -/
def ofBigEndian (l : List UInt8) : ℕ := l.foldl (fun acc b => acc * 256 + b.toNat) 0

/-- INTERNAL: The bytes are as many as asked for. -/
@[simp]
theorem length_bigEndian (n v : ℕ) : (bigEndian n v).length = n := by
  induction n with
  | zero => rfl
  | succ n ih => rw [bigEndian, List.length_cons, ih]

/-- INTERNAL: Reading the bytes onto an accumulator. -/
theorem foldl_bigEndian (n v acc : ℕ) :
    (bigEndian n v).foldl (fun acc b => acc * 256 + b.toNat) acc = acc * 256 ^ n + v % 256 ^ n := by
  induction n generalizing acc with
  | zero => simp [bigEndian, Nat.mod_one]
  | succ n ih =>
    have hbyte : (UInt8.ofNat (v / 256 ^ n)).toNat = v / 256 ^ n % 256 := UInt8.toNat_ofNat'
    have hmod : v % (256 ^ n * 256) = v % 256 ^ n + 256 ^ n * (v / 256 ^ n % 256) := Nat.mod_mul
    rw [bigEndian, List.foldl_cons, ih, hbyte, Nat.pow_succ, hmod]
    generalize v / 256 ^ n % 256 = b
    ring

/-- INTERNAL: **A number that fits is read back.** -/
theorem ofBigEndian_bigEndian (n v : ℕ) : ofBigEndian (bigEndian n v) = v % 256 ^ n := by
  unfold ofBigEndian
  rw [foldl_bigEndian, Nat.zero_mul, Nat.zero_add]

/-- INTERNAL: Numbers in range have different bytes. -/
theorem bigEndian_injective {n v w : ℕ} (hv : v < 256 ^ n) (hw : w < 256 ^ n)
    (h : bigEndian n v = bigEndian n w) : v = w := by
  have hread := congrArg ofBigEndian h
  rwa [ofBigEndian_bigEndian, ofBigEndian_bigEndian, Nat.mod_eq_of_lt hv, Nat.mod_eq_of_lt hw]
    at hread

end Mqttv5.Computation
