import Mqttv5.Model.Session

/-!
# Rewriting the Message Expiry Interval of an encoded PUBLISH

The session rewrites one property of a packet it has already encoded, in place, when a
stored message is sent later than it was encoded (wire/publish.go). The frame is walked
as the decoder would walk it: fixed header, topic, packet identifier, property length,
and then property by property up to the interval.
-/

set_option autoImplicit false

namespace Mqttv5.Program

open Model

def maxVarintBytes : ℕ := 4

/-- The loop of `DecodeVarint`: `n` bytes are consumed, worth `value`; `left` may still be.
SOURCE: wire/fields.go:229-243 -/
def decodeVarintLoop : (left n value multiplier : ℕ) → Bytes → Option (ℕ × ℕ)
  | 0, _, _, _, _ => none
  | _ + 1, _, _, _, [] => none
  | left + 1, n, value, multiplier, b :: rest =>
    let value' := value + (b &&& 0x7F).toNat * multiplier
    if b &&& 0x80 = 0 then some (value', n + 1)
    else decodeVarintLoop left (n + 1) value' (multiplier * 128) rest

/-- A variable byte integer at the head of `buf`: its value and its length.
SOURCE: wire/fields.go:229-243 -/
def decodeVarint (buf : Bytes) : Option (ℕ × ℕ) := decodeVarintLoop maxVarintBytes 0 0 1 buf

/-- `binary.BigEndian.Uint16` of the first two bytes. -/
def uint16 : Bytes → ℕ
  | a :: b :: _ => a.toNat * 256 + b.toNat
  | _ => 0

/-- The four bytes of `binary.BigEndian.PutUint32`. -/
def putUint32 (v : ℕ) : Bytes :=
  [.ofNat (v / 2 ^ 24), .ofNat (v / 2 ^ 16), .ofNat (v / 2 ^ 8), .ofNat v]

/-- How the value of a property is laid out.
SOURCE: wire/fields.go:297-325 -/
inductive PropLayout
  | fixed (n : ℕ) | varint | prefixed | stringPair | unknown
  deriving DecidableEq

/-- SOURCE: wire/fields.go:525-581 -/
def propLayout (id : UInt8) : PropLayout :=
  if id ∈ ([0x01, 0x17, 0x19, 0x24, 0x25, 0x28, 0x29, 0x2A] : List UInt8) then .fixed 1
  else if id ∈ ([0x13, 0x21, 0x22, 0x23] : List UInt8) then .fixed 2
  else if id ∈ ([0x02, 0x11, 0x18, 0x27] : List UInt8) then .fixed 4
  else if id = 0x0B then .varint
  else if id ∈ ([0x03, 0x08, 0x12, 0x15, 0x1A, 0x1C, 0x1F, 0x09, 0x16] : List UInt8) then .prefixed
  else if id = 0x26 then .stringPair
  else .unknown

/-- The size of the value of property `id` at the head of `buf`.
SOURCE: wire/fields.go:525-581 -/
def propValueSize (id : UInt8) (buf : Bytes) : Option ℕ :=
  match propLayout id with
  | .fixed n => some n
  | .varint => (decodeVarint buf).map Prod.snd
  | .prefixed => if buf.length < 2 then none else some (2 + uint16 buf)
  | .stringPair =>
    if buf.length < 2 then none
    else if buf.length < 4 + uint16 buf then none
    else some (4 + uint16 buf + uint16 (buf.drop (2 + uint16 buf)))
  | .unknown => none

def propMessageExpiryInterval : UInt8 := 0x02

/-- The property walk of `messageExpiryOffset` from `off` to `end_`; each step consumes at
least the identifier, so `fuel` bytes are enough fuel.
SOURCE: wire/publish.go:471-486 -/
def expiryOffsetLoop (frame : Bytes) (end_ : ℕ) : (fuel off : ℕ) → Option ℕ
  | 0, _ => none
  | fuel + 1, off =>
    if off < end_ then
      let id := frame.getD off 0
      let off := off + 1
      if id = propMessageExpiryInterval then if end_ - off < 4 then none else some off
      else match propValueSize id ((frame.take end_).drop off) with
        | none => none
        | some size => expiryOffsetLoop frame end_ fuel (off + size)
    else none

/-- Where the four bytes of the Message Expiry Interval are in an encoded PUBLISH.
SOURCE: wire/publish.go:440-487 -/
def messageExpiryOffset (frame : Bytes) : Option ℕ :=
  if frame.length < 2 ∨ frame.getD 0 0 >>> 4 ≠ 3 then none
  else
    let qos := (frame.getD 0 0 >>> 1) &&& 0x03
    match decodeVarint (frame.drop 1) with
    | none => none
    | some (_, n) =>
      let off := 1 + n
      if frame.length < off + 2 then none
      else
        let off := off + 2 + uint16 (frame.drop off) + if 0 < qos then 2 else 0
        if frame.length < off then none
        else match decodeVarint (frame.drop off) with
          | none => none
          | some (propsLen, n) =>
            let off := off + n
            let end_ := off + propsLen
            if frame.length < end_ then none
            else expiryOffsetLoop frame end_ frame.length off

/-- The frame with its Message Expiry Interval set to `seconds`; a frame without one, or
one that cannot be parsed, is unchanged.
SOURCE: wire/publish.go:425-438 -/
def withMessageExpiry (frame : Bytes) (seconds : ℕ) : Bytes :=
  match messageExpiryOffset frame with
  | none => frame
  | some off => frame.take off ++ putUint32 seconds ++ frame.drop (off + 4)

-- PUBLISH QoS 1, topic "t", identifier 5, expiry 7 s; rewritten to 3 s.
example : withMessageExpiry [0x32, 0x0a, 0, 1, 0x74, 0, 5, 5, 0x02, 0, 0, 0, 7] 3 =
    [0x32, 0x0a, 0, 1, 0x74, 0, 5, 5, 0x02, 0, 0, 0, 3] := by decide

end Mqttv5.Program
