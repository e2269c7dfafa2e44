import Mqttv5.Computation.FillBuffer
import Mqttv5.Model.Wire
import Mqttv5.Program.MessageExpiry

/-!
# Fields, variable byte integers and properties

wire/fields.go. Writers store into a buffer at an offset and return the next one; readers are
given the bytes of a frame that are left and return how many of them they took. A property
walk is given the bytes from its offset on.
-/

set_option autoImplicit false

namespace Mqttv5.Program.Wire

open Mqttv5.Computation
open Model (Bytes ReasonCode)
open Model.Wire

/-- The conversion of an `int` to `uint32`. -/
def toUint32 (n : ℕ) : ℕ := n % 2 ^ 32

/-- `binary.BigEndian.PutUint16`. -/
def putUint16 (v : ℕ) : Bytes := [.ofNat (v / 2 ^ 8), .ofNat v]

/-- `binary.BigEndian.Uint32` of the first four bytes. -/
def uint32 : Bytes → ℕ
  | a :: b :: c :: d :: _ => ((a.toNat * 256 + b.toNat) * 256 + c.toNat) * 256 + d.toNat
  | _ => 0

/-- A 2-byte length and as many bytes, and the number of bytes read.
SOURCE: wire/fields.go:21-43 -/
def readPrefixed (buf : Bytes) : Except Err (Bytes × ℕ) :=
  if buf.length < 2 then .error (.sentinel .truncated)
  else
    let n := uint16 buf
    if buf.length < 2 + n then .error (.sentinel .truncated)
    else .ok ((buf.drop 2).take n, 2 + n)

/-- SOURCE: wire/fields.go:21-30 -/
def readUTF8String (buf : Bytes) : Except Err (Bytes × ℕ) := readPrefixed buf

/-- SOURCE: wire/fields.go:34-43 -/
def readBinaryData (buf : Bytes) : Except Err (Bytes × ℕ) := readPrefixed buf

/-- SOURCE: wire/fields.go:48-59 -/
def writePrefixed (buf : Cells UInt8) (off : ℕ) (s : Bytes) : Option (Cells UInt8 × ℕ) := do
  let buf ← buf.store off (putUint16 (s.length % 2 ^ 16))
  let off := off + 2
  let (buf, n) ← buf.copyAt off s
  return (buf, off + n)

/-- SOURCE: wire/fields.go:48-52 -/
def writeUTF8String (buf : Cells UInt8) (off : ℕ) (s : Bytes) : Option (Cells UInt8 × ℕ) :=
  writePrefixed buf off s

/-- SOURCE: wire/fields.go:55-59 -/
def writeBinaryData (buf : Cells UInt8) (off : ℕ) (b : Bytes) : Option (Cells UInt8 × ℕ) :=
  writePrefixed buf off b

/-- SOURCE: wire/fields.go:170 -/
def maxVarintValue : ℕ := 268435455

/-- The loop of `EncodeVarint`; a value it is called with has at most four groups.
SOURCE: wire/fields.go:195-206 -/
def encodeVarintLoop : (fuel v : ℕ) → Bytes
  | 0, _ => []
  | fuel + 1, v =>
    let b : UInt8 := .ofNat (v &&& 0x7F)
    let v := v >>> 7
    if 0 < v then (b ||| 0x80) :: encodeVarintLoop fuel v else [b]

/-- The bytes `EncodeVarint` stores.
SOURCE: wire/fields.go:190-207 -/
def encodeVarint (v : ℕ) : Except Err Bytes :=
  if maxVarintValue < v then .error (.sentinel .varintTooLarge)
  else .ok (encodeVarintLoop 4 v)

/-- SOURCE: wire/fields.go:211-224 -/
def varintSize (v : ℕ) : ℕ :=
  if v < 128 then 1
  else if v < 16384 then 2
  else if v < 2097152 then 3
  else if v ≤ maxVarintValue then 4
  else 0

/-- SOURCE: wire/fields.go:63-72 -/
def readProperties (buf : Bytes) : Except Err (Properties × ℕ) :=
  match decodeVarint buf with
  | none => .error (.sentinel .varintMalformed)
  | some (n, vbiN) =>
    if toUint32 (buf.length - vbiN) < n then .error (.sentinel .truncated)
    else .ok (⟨(buf.drop vbiN).take n⟩, vbiN + n)

/-- The error of `EncodeVarint` is dropped, and nothing is written then.
SOURCE: wire/fields.go:77-80 -/
def writePropertiesPrefix (buf : Cells UInt8) (off propsLen : ℕ) : Option (Cells UInt8 × ℕ) :=
  match encodeVarint (toUint32 propsLen) with
  | .error _ => some (buf, off)
  | .ok bs => (buf.store off bs).map (·, off + bs.length)

/-- SOURCE: wire/fields.go:83-90 -/
def writeProperty1 (buf : Cells UInt8) (off : ℕ) (id : UInt8) :
    Option UInt8 → Option (Cells UInt8 × ℕ)
  | none => some (buf, off)
  | some v => (buf.store off [id, v]).map (·, off + 2)

/-- SOURCE: wire/fields.go:105-112 -/
def writeProperty2P (buf : Cells UInt8) (off : ℕ) (id : UInt8) :
    Option UInt16 → Option (Cells UInt8 × ℕ)
  | none => some (buf, off)
  | some v => (buf.store off (id :: putUint16 v.toNat)).map (·, off + 3)

/-- SOURCE: wire/fields.go:94-101 -/
def writeProperty2 (buf : Cells UInt8) (off : ℕ) (id : UInt8) (v : UInt16) :
    Option (Cells UInt8 × ℕ) :=
  if v = 0 then some (buf, off)
  else (buf.store off (id :: putUint16 v.toNat)).map (·, off + 3)

/-- SOURCE: wire/fields.go:115-122 -/
def writeProperty4 (buf : Cells UInt8) (off : ℕ) (id : UInt8) :
    Option UInt32 → Option (Cells UInt8 × ℕ)
  | none => some (buf, off)
  | some v => (buf.store off (id :: putUint32 v.toNat)).map (·, off + 5)

/-- SOURCE: wire/fields.go:127-134 -/
def writePropertyString (buf : Cells UInt8) (off : ℕ) (id : UInt8) (v : Bytes) :
    Option (Cells UInt8 × ℕ) :=
  if v = [] then some (buf, off)
  else do
    let buf ← buf.store off [id]
    writeUTF8String buf (off + 1) v

/-- SOURCE: wire/fields.go:138-145 -/
def writePropertyBinary (buf : Cells UInt8) (off : ℕ) (id : UInt8) :
    Option Bytes → Option (Cells UInt8 × ℕ)
  | none => some (buf, off)
  | some v => do
    let buf ← buf.store off [id]
    writeBinaryData buf (off + 1) v

def propPayloadFormat : UInt8 := 0x01
def propContentType : UInt8 := 0x03
def propResponseTopic : UInt8 := 0x08
def propCorrelationData : UInt8 := 0x09
def propSubscriptionIdentifier : UInt8 := 0x0B
def propSessionExpiryInterval : UInt8 := 0x11
def propAssignedClientID : UInt8 := 0x12
def propServerKeepAlive : UInt8 := 0x13
def propAuthMethod : UInt8 := 0x15
def propAuthData : UInt8 := 0x16
def propRequestProblemInfo : UInt8 := 0x17
def propWillDelayInterval : UInt8 := 0x18
def propRequestResponseInfo : UInt8 := 0x19
def propResponseInformation : UInt8 := 0x1A
def propServerReference : UInt8 := 0x1C
def propReasonString : UInt8 := 0x1F
def propReceiveMaximum : UInt8 := 0x21
def propTopicAliasMaximum : UInt8 := 0x22
def propTopicAlias : UInt8 := 0x23
def propMaximumQoS : UInt8 := 0x24
def propRetainAvailable : UInt8 := 0x25
def propUserProperty : UInt8 := 0x26
def propMaximumPacketSize : UInt8 := 0x27
def propWildcardSubAvailable : UInt8 := 0x28
def propSubscriptionIDAvailable : UInt8 := 0x29
def propSharedSubAvailable : UInt8 := 0x2A

/-- One round of `writePropertyUserProps`. -/
def writeUserProp (up : UserProperty) (buf : Cells UInt8) (off : ℕ) :
    Option (Cells UInt8 × ℕ) := do
  let buf ← buf.store off [propUserProperty]
  let (buf, off) ← writeUTF8String buf (off + 1) up.key
  writeUTF8String buf off up.value

/-- SOURCE: wire/fields.go:148-156 -/
def writePropertyUserProps (buf : Cells UInt8) (off : ℕ) (props : List UserProperty) :
    Option (Cells UInt8 × ℕ) :=
  props.foldlM (fun r up => writeUserProp up r.1 r.2) (buf, off)

/-- SOURCE: wire/fields.go:160-166 -/
def userPropertiesLen (props : List UserProperty) : ℕ :=
  props.foldl (fun n up => n + (1 + 2 + up.key.length + 2 + up.value.length)) 0

/-- The loop of `find` over the property bytes that are left: each round takes at least the
identifier, so the length of the section is enough fuel.
SOURCE: wire/fields.go:506-517 -/
def findLoop (id : UInt8) : (fuel : ℕ) → Bytes → Option Bytes
  | 0, _ => none
  | _ + 1, [] => none
  | fuel + 1, curID :: rest =>
    if curID = id then some rest
    else match propValueSize curID rest with
      | none => none
      | some skip => findLoop id fuel (rest.drop skip)

namespace Properties

/-- SOURCE: wire/fields.go:504-519 -/
def find (p : Properties) (id : UInt8) : Option Bytes := findLoop id p.raw.length p.raw

/-- SOURCE: wire/fields.go:359-365 -/
def byte (p : Properties) (id : UInt8) : Option UInt8 :=
  match find p id with
  | none => none
  | some v => if v.length < 1 then none else some (v.getD 0 0)

/-- SOURCE: wire/fields.go:369-375 -/
def uint16 (p : Properties) (id : UInt8) : Option UInt16 :=
  match find p id with
  | none => none
  | some v => if v.length < 2 then none else some (.ofNat (Program.uint16 v))

/-- SOURCE: wire/fields.go:378-384 -/
def uint32 (p : Properties) (id : UInt8) : Option UInt32 :=
  match find p id with
  | none => none
  | some v => if v.length < 4 then none else some (.ofNat (Wire.uint32 v))

/-- SOURCE: wire/fields.go:388-398 -/
def varint (p : Properties) (id : UInt8) : Option UInt32 :=
  match find p id with
  | none => none
  | some v => (decodeVarint v).map fun r => .ofNat r.1

/-- SOURCE: wire/fields.go:404-414; `Binary` is the same over bytes. -/
def string (p : Properties) (id : UInt8) : Option Bytes :=
  match find p id with
  | none => none
  | some v =>
    if v.length < 2 then none
    else
      let n := Program.uint16 v
      if v.length < 2 + n then none else some ((v.drop 2).take n)

/-- SOURCE: wire/fields.go:419-429 -/
def binary (p : Properties) (id : UInt8) : Option Bytes := string p id

end Properties

/-- The loop of `UserProperties`.
SOURCE: wire/fields.go:436-472 -/
def userPropertiesLoop : (fuel : ℕ) → Bytes → List UserProperty
  | 0, _ => []
  | _ + 1, [] => []
  | fuel + 1, id :: rest =>
    if id ≠ propUserProperty then
      match propValueSize id rest with
      | none => []
      | some skip => userPropertiesLoop fuel (rest.drop skip)
    else if rest.length < 2 then []
    else
      let kn := uint16 rest
      let rest := rest.drop 2
      if rest.length < kn then []
      else
        let k := rest.take kn
        let rest := rest.drop kn
        if rest.length < 2 then []
        else
          let vn := uint16 rest
          let rest := rest.drop 2
          if rest.length < vn then []
          else ⟨k, rest.take vn⟩ :: userPropertiesLoop fuel (rest.drop vn)

/-- SOURCE: wire/fields.go:434-474 -/
def Properties.userProperties (p : Properties) : List UserProperty :=
  userPropertiesLoop p.raw.length p.raw

/-- The loop of `SubscriptionIdentifiers`.
SOURCE: wire/fields.go:481-500 -/
def subscriptionIdentifiersLoop : (fuel : ℕ) → Bytes → List UInt32
  | 0, _ => []
  | _ + 1, [] => []
  | fuel + 1, id :: rest => match propValueSize id rest with
    | none => []
    | some size =>
      if rest.length < size then []
      else
        let later := subscriptionIdentifiersLoop fuel (rest.drop size)
        if id = propSubscriptionIdentifier then
          match decodeVarint (rest.take size) with
          | none => later
          | some (v, _) => .ofNat v :: later
        else later

/-- SOURCE: wire/fields.go:479-496 -/
def Properties.subscriptionIdentifiers (p : Properties) : List UInt32 :=
  subscriptionIdentifiersLoop p.raw.length p.raw

end Mqttv5.Program.Wire
