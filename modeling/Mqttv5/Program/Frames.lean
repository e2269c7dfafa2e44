import Mathlib.Logic.Function.Basic
import Mqttv5.Program.Wire.Publish

/-!
# One batch of packets for the writer

`Frames` (engine.go:924-1012), with the memory it writes to. An `append` writes to the array of the
small buffer while there is room, and else takes a new one with `spare` cells more than it needs.
-/

set_option autoImplicit false

namespace Mqttv5.Program

open Model (Bytes ReasonCode)
open Model.Wire
open Program.Wire

/-- The arrays there are, as their cells. -/
abbrev Memory := ℕ → Bytes

structure Slice where
  array : ℕ
  off : ℕ
  len : ℕ

def Slice.read (mem : Memory) (s : Slice) : Bytes := ((mem s.array).drop s.off).take s.len

/-- SOURCE: engine.go:936-939; a `pkt` that is nil is `none`. -/
structure Segment where
  off : ℕ := 0
  stop : ℕ := 0
  pkt : Option Slice := none

/-- `array` and `len` are `small`, which starts with the first cell; the arrays from `unused` on
are not there yet.
SOURCE: engine.go:928-933 -/
structure Frames where
  mem : Memory
  unused : ℕ
  array : ℕ
  len : ℕ
  segs : List Segment
  n : ℕ

namespace Frames

/-- SOURCE: engine.go:942-949 -/
def reset (f : Frames) : Frames := { f with len := 0, segs := [], n := 0 }

/-- `f.small = append(f.small, bs...)` -/
def appendSmall (f : Frames) (bs : Bytes) (spare : ℕ) : Frames :=
  let kept := (f.mem f.array).take f.len ++ bs
  if f.len + bs.length ≤ (f.mem f.array).length then
    { f with
      mem := Function.update f.mem f.array (kept ++ (f.mem f.array).drop (f.len + bs.length))
      len := f.len + bs.length }
  else
    { f with
      mem := Function.update f.mem f.unused (kept ++ List.replicate spare 0)
      unused := f.unused + 1
      array := f.unused
      len := f.len + bs.length }

/-- SOURCE: engine.go:977-983 -/
def extendSmall (f : Frames) (off : ℕ) : Frames :=
  match f.segs.getLast? with
  | some s =>
    if s.pkt.isNone ∧ s.stop = off then
      { f with segs := f.segs.dropLast ++ [{ s with stop := f.len }] }
    else { f with segs := f.segs ++ [⟨off, f.len, none⟩] }
  | none => { f with segs := f.segs ++ [⟨off, f.len, none⟩] }

/-- SOURCE: engine.go:954-959 -/
def appendAck (f : Frames) (t : PacketType) (id : UInt16) (rc : ReasonCode) (spare : ℕ) : Frames :=
  let f := (f.appendSmall (appendPubResp t id rc) spare).extendSmall f.len
  { f with n := f.n + 1 }

/-- The packet, or what is left of it, is a segment of its own. -/
def push (f : Frames) (pkt : Option Slice) : Frames :=
  { f with segs := f.segs ++ [{ pkt := pkt }], n := f.n + 1 }

/-- `none` is the panic of `pkt[0]`.
SOURCE: engine.go:964-973 -/
def appendPublish (f : Frames) (pkt : Option Slice) (dup : Bool) (spare : ℕ) : Option Frames :=
  if dup then
    match pkt with
    | none => none
    | some p => (p.read f.mem).head?.map fun b =>
      ((f.appendSmall [b ||| 0x08] spare).extendSmall f.len).push
        (some ⟨p.array, p.off + 1, p.len - 1⟩)
  else some (f.push pkt)

/-- SOURCE: engine.go:1007-1012 -/
def bytes (f : Frames) (s : Segment) : Bytes :=
  match s.pkt with
  | some p => p.read f.mem
  | none => ((f.mem f.array).drop s.off).take (s.stop - s.off)

/-- SOURCE: engine.go:999-1005 -/
def buffers (f : Frames) : List Bytes := f.segs.map f.bytes

end Frames

end Mqttv5.Program
