/-
  PacketLayers.Link.Wireless
  ────────────────────────────────
  **802.11 FRAME HEADERS.**

      0              2         4      10     16     22        24       …
      frame control  duration  addr1  addr2  addr3  sequence  addr4?  qos? ht?

  The two bytes of frame control decide which of the fields are there, and so
  the length of the header.  Numbers of more than one byte are little endian.
  A frame check sequence is no part of the header.
-/
import PacketLayers.Address.Ethernet
import PacketLayers.Layer.Dissector

namespace PacketLayers

/-! ## §1. Frame types and flags. -/

/-- The two bit type of a frame. -/
inductive FrameType where
  | management
  | control
  | data
  | extension
  | unknown (code : UInt8)
  deriving DecidableEq, Repr

namespace FrameType

/-- The number in the frame control field. -/
def code : FrameType → UInt8
  | management => 0
  | control => 1
  | data => 2
  | extension => 3
  | unknown n => n

instance : Assigned FrameType UInt8 where
  named := [management, control, data, extension]
  unknown := unknown
  code := code
  exhaustive t := by cases t <;> simp
  code_unknown _ := rfl
  code_injOn_named := by decide

/-- The identifier of the frame type. -/
def name : FrameType → String
  | management => "Management"
  | control => "Control"
  | data => "Data"
  | extension => "Extension"
  | unknown n => Assigned.unknownName n.toNat

end FrameType

/-- The second byte of the frame control field. -/
structure FrameFlags where
  /-- The flags, lowest bit first. -/
  bits : UInt8
  deriving DecidableEq, Repr

instance : Coded FrameFlags := ⟨fun n => ⟨UInt8.ofNat n⟩, fun f => f.bits.toNat⟩

namespace FrameFlags

def toDistribution (f : FrameFlags) : Bool := f.bits &&& 0x01 != 0
def fromDistribution (f : FrameFlags) : Bool := f.bits &&& 0x02 != 0
def moreFragments (f : FrameFlags) : Bool := f.bits &&& 0x04 != 0
def retry (f : FrameFlags) : Bool := f.bits &&& 0x08 != 0
def powerManagement (f : FrameFlags) : Bool := f.bits &&& 0x10 != 0
def moreData (f : FrameFlags) : Bool := f.bits &&& 0x20 != 0
/-- The body is encrypted. -/
def isProtected (f : FrameFlags) : Bool := f.bits &&& 0x40 != 0
/-- Management and QoS data frames end their header in an HT control field. -/
def order (f : FrameFlags) : Bool := f.bits &&& 0x80 != 0

/-- The frame goes from one distribution system to another. -/
def betweenDistributions (f : FrameFlags) : Bool := f.toDistribution && f.fromDistribution

end FrameFlags

namespace Wireless

/-- Subtypes of control frames. -/
inductive ControlSubtype where
  | blockAckRequest
  | blockAck
  | psPoll
  | rts
  | cts
  | ack
  | cfEnd
  | cfEndAck
  deriving DecidableEq, Repr

/-- The number of a control subtype. -/
def ControlSubtype.code : ControlSubtype → UInt8
  | blockAckRequest => 0x8
  | blockAck => 0x9
  | psPoll => 0xa
  | rts => 0xb
  | cts => 0xc
  | ack => 0xd
  | cfEnd => 0xe
  | cfEndAck => 0xf

/-- Subtypes of data frames, and the bits they are made of. -/
inductive DataSubtype where
  | data
  | null
  | qosData
  | qosNull
  /-- The bit of frames without a body. -/
  | noBody
  /-- The bit of frames with a QoS control field. -/
  | qos
  deriving DecidableEq, Repr

/-- The number of a data subtype. -/
def DataSubtype.code : DataSubtype → UInt8
  | data => 0x0
  | null => 0x4
  | qosData => 0x8
  | qosNull => 0xc
  | noBody => 0x4
  | qos => 0x8

/-- Whether a data subtype has a QoS control field. -/
def hasQos (subtype : UInt8) : Bool := subtype &&& DataSubtype.qos.code != 0

/-- Whether a data subtype has a body. -/
def hasBody (subtype : UInt8) : Bool := subtype &&& DataSubtype.noBody.code == 0

/-! ## §2. Layout. -/

namespace Layout

def frameControl : Field UInt8 := .word UInt8 0 1
def version : Field UInt8 := .bits UInt8 0 1 0 2
def frameType : Field FrameType := .bits FrameType 0 1 2 2
def subtype : Field UInt8 := .bits UInt8 0 1 4 4
def flags : Field FrameFlags := .word FrameFlags 1 1
def duration : Field UInt16 := .wordLittle UInt16 2 2
def addr1 : Field EthernetAddress := .octets 4 6
def addr2 : Field EthernetAddress := .octets 10 6
def addr3 : Field EthernetAddress := .octets 16 6
def sequenceControl : Field UInt16 := .wordLittle UInt16 22 2
def addr4 : Field EthernetAddress := .octets 24 6
/-- The QoS control field, wherever it starts. -/
def qosControlAt (first : Nat) : Field UInt16 := .wordLittle UInt16 first 2

end Layout

/-- The shortest header. -/
def minHeaderLength : Nat := 10

/-- The header length that the frame control field asks for. -/
def lengthOf (frameType : FrameType) (subtype : UInt8) (flags : FrameFlags) : Nat :=
  if frameType = .control then
    if subtype = ControlSubtype.cts.code ∨ subtype = ControlSubtype.ack.code then 10 else 16
  else if frameType = .management then
    if flags.order then 28 else 24
  else if frameType = .data then
    (if flags.betweenDistributions then 30 else 24)
      + (if hasQos subtype then if flags.order then 6 else 2 else 0)
  else 10

/-- The header length that two bytes of frame control ask for. -/
def headerLengthOf (first second : UInt8) : Nat :=
  lengthOf (Assigned.ofCode ((first >>> 2) &&& 0x3)) (first >>> 4) ⟨second⟩

/-- The length that a header asks for, if it has the bytes to say so. -/
def headerLength? : Bytes → Option Nat
  | first :: second :: _ => some (headerLengthOf first second)
  | _ => none

/-- The header format. -/
def format : HeaderFormat where
  kind := .wireless
  check h :=
    match headerLength? h with
    | none => .error .truncated
    | some n => if h.length < n then .error .truncated else .ok ()

/-- The length that a header asks for. -/
def headerLength (h : Bytes) : Access Nat := do
  return lengthOf (← Layout.frameType.get h) (← Layout.subtype.get h) (← Layout.flags.get h)

/-- Frame type and subtype, four bits each. -/
def typeAndSubtype (h : Bytes) : Access UInt8 := do
  return ((← Layout.frameType.get h).code <<< 4) ||| (← Layout.subtype.get h)

/-! ## §3. Fields that a frame may lack. -/

/-- A field, if the bytes hold it. -/
def held? {α : Type} (f : Field α) (h : Bytes) : Option α :=
  if f.stop ≤ h.length then some (f.value h) else none

/-- An address, if the frame control field gives it room. -/
def address? (f : Field EthernetAddress) (h : Bytes) : Access (Option EthernetAddress) := do
  return if (← headerLength h) < f.stop then none else held? f h

/-- The transmitter. -/
def addr2? (h : Bytes) : Access (Option EthernetAddress) := address? Layout.addr2 h

/-- The third address; control frames have none. -/
def addr3? (h : Bytes) : Access (Option EthernetAddress) := do
  if (← Layout.frameType.get h) = .control then return none
  else address? Layout.addr3 h

/-- The sequence control field; control frames have none. -/
def sequenceControl? (h : Bytes) : Access (Option UInt16) := do
  return if (← Layout.frameType.get h) = .control then none
    else held? Layout.sequenceControl h

/-- The fourth address, of data frames between distribution systems. -/
def addr4? (h : Bytes) : Access (Option EthernetAddress) := do
  let type ← Layout.frameType.get h
  let flags ← Layout.flags.get h
  if type = .data && flags.betweenDistributions then address? Layout.addr4 h
  else return none

/-- The QoS control field of a frame, if it has one: behind the fourth address
or in its place. -/
def qosField? (h : Bytes) : Access (Option (Field UInt16)) := do
  let type ← Layout.frameType.get h
  let subtype ← Layout.subtype.get h
  if type = .data && hasQos subtype then
    return some (Layout.qosControlAt (if (← addr4? h).isSome then 30 else 24))
  else return none

/-- The QoS control value. -/
def qosControl? (h : Bytes) : Access (Option UInt16) := do
  return (← qosField? h).bind fun f => held? f h

/-- Write the QoS control value, if the frame has one. -/
def setQosControl (value : UInt16) (h : Bytes) : Access Bytes := do
  match ← qosField? h with
  | some f => f.set value h
  | none => return h

/-- Write frame type and subtype. -/
def setTypeAndSubtype (type : FrameType) (subtype : UInt8) (h : Bytes) : Access Bytes :=
  Layout.frameType.set type h >>= Layout.subtype.set subtype

/-! ## §4. Contents. -/

/-- The contents of a header; fields that the frame has no room for are
`none`. -/
structure Header where
  frameType : FrameType
  subtype : UInt8
  flags : FrameFlags
  duration : UInt16
  addr1 : EthernetAddress
  addr2 : Option EthernetAddress
  addr3 : Option EthernetAddress
  sequenceControl : Option UInt16
  addr4 : Option EthernetAddress
  qosControl : Option UInt16
  deriving DecidableEq

namespace Header

/-- Read every field of a header. -/
def read (h : Bytes) : Access Header := do
  return {
    frameType := ← Layout.frameType.get h
    subtype := ← Layout.subtype.get h
    flags := ← Layout.flags.get h
    duration := ← Layout.duration.get h
    addr1 := ← Layout.addr1.get h
    addr2 := ← addr2? h
    addr3 := ← addr3? h
    sequenceControl := ← sequenceControl? h
    addr4 := ← addr4? h
    qosControl := ← qosControl? h }

/-- The contents of a header of protocol version zero. -/
def parse (h : Bytes) : Except Error Header := do
  format.check h
  if Layout.version.value h ≠ 0 then throw .unrecognized
  format.reading h (read h)

/-- The length of the header written for the contents. -/
def size (r : Header) : Nat :=
  headerLengthOf ((r.subtype <<< 4) ||| ((r.frameType.code &&& 0x3) <<< 2)) r.flags.bits

/-- Write the third address and the sequence control, if there is room. -/
def emitThird (r : Header) (h : Bytes) : Access Bytes :=
  if 24 ≤ h.length ∧ r.frameType ≠ .control then
    Layout.addr3.set (r.addr3.getD EthernetAddress.unspecified) h
      >>= Layout.sequenceControl.set (r.sequenceControl.getD 0)
  else .ok h

/-- Write the contents over a header. -/
def emit (r : Header) (h : Bytes) : Access Bytes := do
  let h ← Layout.frameControl.set 0 h
    >>= setTypeAndSubtype r.frameType r.subtype
    >>= Layout.flags.set r.flags
    >>= Layout.duration.set r.duration
    >>= Layout.addr1.set r.addr1
  let h ← match r.addr2 with
    | some a => if 16 ≤ h.length then Layout.addr2.set a h else pure h
    | none => pure h
  let h ← r.emitThird h
  let h ← if (← addr4? h).isSome then
      Layout.addr4.set (r.addr4.getD EthernetAddress.unspecified) h
    else pure h
  setQosControl (r.qosControl.getD 0) h

/-- The contents in text for readers. -/
def text (r : Header) : String :=
  let transmitter := match r.addr2 with
    | some a => " ta=" ++ EthernetAddress.text a
    | none => ""
  "802.11 type=" ++ r.frameType.name ++ " subtype=" ++ toString r.subtype
    ++ " ra=" ++ EthernetAddress.text r.addr1 ++ transmitter

end Header

/-! ## §5. Behaviour as a layer. -/

/-- The length of an accepted header. -/
def dissectedLength (h : Bytes) : Except Error Nat := do
  format.check h
  return (headerLength? h).getD 0

/-- Data frames with a body announce it by type and subtype. -/
def next (h : Bytes) : Access (Option Discriminant) :=
  format.guarded h none do
    let type ← Layout.frameType.get h
    let subtype ← Layout.subtype.get h
    if type = .data && hasBody subtype then return some (.wireless (← typeAndSubtype h))
    else return none

/-- The body of a protected frame stays bytes. -/
def isSealed (h : Bytes) : Access Bool :=
  format.guarded h true do
    return (← Layout.flags.get h).isProtected

/-- The frame type that a discriminant names. -/
def typeOf (value : UInt8) : FrameType := Assigned.ofCode (value >>> 4)

/-- Write type and subtype; a QoS data frame that stays a data frame keeps its
QoS control field. -/
def setNext (h : Bytes) : Discriminant → Access Bytes
  | .wireless value => do
    if h.length < 2 then return h
    let type := typeOf value
    let subtype := value &&& 0xf
    let kept ←
      if (← Layout.frameType.get h) = .data && type = .data then
        pure ((← Layout.subtype.get h) &&& DataSubtype.qos.code)
      else pure 0
    setTypeAndSubtype type (subtype ||| kept) h
  | _ => .ok h

/-- 802.11 as a layer of a packet. -/
def dissector : Dissector where
  kind := .wireless
  headerLength := dissectedLength
  next h _ := next h
  sealed := isSealed
  discriminantOf
    | .llc => some (.wireless 0x20)
    | _ => none
  setNext := setNext
  defaultHeader := 0x08 :: List.replicate 23 0
  requiredLength h := .ok (some ((headerLength? h).getD 24))

instance : WireHeader Header where
  dissector := dissector
  parse := Header.parse
  size := Header.size
  emit := Header.emit
  text := Header.text

end Wireless

end PacketLayers
