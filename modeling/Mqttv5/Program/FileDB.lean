import Mqttv5.Computation.BigEndian
import Mqttv5.Model.Session

/-!
# The database file

A bbolt bucket is an ordered map from byte strings to byte strings, and every value ends with a
CRC32C of what stands before it (internal/filedb/filedb.go).
-/

set_option autoImplicit false

namespace Mqttv5.Program

open Mqttv5.Computation Model

/-- A bucket of the database. -/
abbrev Bucket := FiniteMap Bytes Bytes

/-- The pairs of a bucket in the order `ForEach` and a cursor visit them. -/
def Bucket.entries (b : Bucket) : List (Bytes × Bytes) :=
  FiniteMap.toList b |>.insertionSort fun x y => x.1 ≤ y.1

/-- One byte of a CRC32C.
SOURCE: internal/filedb/filedb.go:251 -/
def crcByte (crc : UInt32) (b : UInt8) : UInt32 :=
  (List.range 8).foldl (fun c _ => if c &&& 1 ≠ 0 then (c >>> 1) ^^^ 0x82F63B78 else c >>> 1)
    (crc ^^^ b.toUInt32)

/-- `crc32.Checksum` with the Castagnoli polynomial.
SOURCE: internal/filedb/filedb.go:251-255 -/
def crc32c (b : Bytes) : UInt32 := (b.foldl crcByte 0xFFFFFFFF) ^^^ 0xFFFFFFFF

example : crc32c [0x31, 0x32, 0x33, 0x34, 0x35, 0x36, 0x37, 0x38, 0x39] = 0xE3069283 := by
  decide +kernel

/-- Append the checksum.
SOURCE: internal/filedb/filedb.go:253-256 -/
def sealValue (b : Bytes) : Bytes := b ++ bigEndian 4 (crc32c b).toNat

/-- Why a stored value cannot be read. -/
inductive CorruptValue
  | tooShort
  | checksum
  | layout (version : Option UInt8) (len : ℕ)
  | truncated (field : String)
  deriving DecidableEq, Repr

/-- Check the checksum and take it off.
SOURCE: internal/filedb/filedb.go:258-268 -/
def unsealValue (v : Bytes) : Except CorruptValue Bytes :=
  if v.length < 4 then .error .tooShort
  else
    let body := v.take (v.length - 4)
    let sum := ofBigEndian (v.drop (v.length - 4))
    if (crc32c body).toNat ≠ sum then .error .checksum else .ok body

/-- INTERNAL: A sealed value opens. -/
theorem unsealValue_sealValue (b : Bytes) : unsealValue (sealValue b) = .ok b := by
  have hlen : (sealValue b).length = b.length + 4 := by
    rw [sealValue, List.length_append, length_bigEndian]
  have htake : (sealValue b).take ((sealValue b).length - 4) = b := by
    rw [hlen, Nat.add_sub_cancel, sealValue, List.take_left']
    rfl
  have hdrop : (sealValue b).drop ((sealValue b).length - 4) = bigEndian 4 (crc32c b).toNat := by
    rw [hlen, Nat.add_sub_cancel, sealValue, List.drop_left']
    rfl
  have hsum : (crc32c b).toNat % 256 ^ 4 = (crc32c b).toNat := Nat.mod_eq_of_lt (crc32c b).toNat_lt
  unfold unsealValue
  rw [if_neg (by omega), htake, hdrop, ofBigEndian_bigEndian]
  simp only [hsum, ne_eq, not_true_eq_false, if_false]

/-! ### The fields of a value -/

/-- `uint64(t.UnixNano())`. -/
def unixNano (t : Time) : ℕ := (t % 2 ^ 64).toNat

/-- `time.Unix(0, int64(n))`. -/
def ofUnixNano (n : ℕ) : Time := if n < 2 ^ 63 then n else (n : ℤ) - 2 ^ 64

/-- A field of `n` bytes that is there when its flag is set.
SOURCE: store/file/store.go:325-345, queue/file/queue.go:457-468 -/
def optionalField (present : Bool) (n : ℕ) (name : String) (rest : Bytes) :
    Except CorruptValue (Option Bytes × Bytes) :=
  if ¬ present then .ok (none, rest)
  else if rest.length < n then .error (.truncated name)
  else .ok (some (rest.take n), rest.drop n)

end Mqttv5.Program
