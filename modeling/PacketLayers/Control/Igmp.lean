/-
  PacketLayers.Control.Igmp
  ────────────────────────────────
  **GROUP MANAGEMENT MESSAGES.**

      0     1              2         4              8
      type  response time  checksum  group address  …

  Messages of the first two versions have eight bytes; what longer messages
  add stays bytes but is covered by the checksum.
-/
import PacketLayers.Layer.Dissector

namespace PacketLayers.Igmp

/-! ## §1. Number space. -/

/-- The type of a message. -/
inductive MessageType where
  | query
  | reportV1
  | reportV2
  | leave
  | reportV3
  | unknown (code : UInt8)
  deriving DecidableEq, Repr

namespace MessageType

/-- The number on the wire. -/
def code : MessageType → UInt8
  | query => 0x11
  | reportV1 => 0x12
  | reportV2 => 0x16
  | leave => 0x17
  | reportV3 => 0x22
  | unknown n => n

instance : Assigned MessageType UInt8 where
  named := [query, reportV1, reportV2, leave, reportV3]
  unknown := unknown
  code := code
  exhaustive t := by cases t <;> simp
  code_unknown _ := rfl
  code_injOn_named := by decide

/-- The identifier of the type. -/
def name : MessageType → String
  | query => "MembershipQuery"
  | reportV1 => "MembershipReportV1"
  | reportV2 => "MembershipReportV2"
  | leave => "LeaveGroup"
  | reportV3 => "MembershipReportV3"
  | unknown n => Assigned.unknownName n.toNat

/-- The type in text for readers. -/
def text : MessageType → String
  | query => "membership query"
  | reportV1 => "version 1 membership report"
  | reportV2 => "version 2 membership report"
  | leave => "leave group"
  | reportV3 => "version 3 membership report"
  | unknown n => toString n

end MessageType

/-- The protocol version of a report. -/
inductive ReportVersion where
  | v1
  | v2
  deriving DecidableEq, Repr

/-- The identifier of the version. -/
def ReportVersion.name : ReportVersion → String
  | v1 => "V1"
  | v2 => "V2"

/-- The message type of reports of the version. -/
def ReportVersion.messageType : ReportVersion → MessageType
  | v1 => .reportV1
  | v2 => .reportV2

/-! ## §2. Layout. -/

/-- The length of the header. -/
def headerLength : Nat := 8

/-- The header format. -/
def format : HeaderFormat := .fixed .igmp headerLength

namespace Layout

def type : Field MessageType := .word MessageType 0 1
/-- In tenths of a second. -/
def maxResponseTime : Field UInt8 := .word UInt8 1 1
def checksum : Field UInt16 := .word UInt16 2 2
def group : Field Ipv4Address := .octets 4 4

end Layout

/-- The sum over header and what follows. -/
def sum (h payload : Bytes) : UInt16 := Checksum.upperLayer none .igmp h payload

/-- Whether the checksum holds. -/
def verifyChecksum (payload h : Bytes) : Bool := sum h payload == 0xffff

/-- Fill the checksum. -/
def fillChecksum (payload h : Bytes) : Access Bytes := do
  let h ← Layout.checksum.set 0 h
  Layout.checksum.set (~~~ sum h payload) h

/-! ## §3. Contents. -/

/-- The messages of the first two versions. -/
inductive Message where
  /-- A query; the response time is zero in the first version, the group is
  unspecified when all groups are meant. -/
  | query (maxResponseTime : UInt8) (group : Ipv4Address)
  | report (group : Ipv4Address) (version : ReportVersion)
  | leave (group : Ipv4Address)
  deriving DecidableEq

namespace Message

/-- The contents of a header. -/
def parse (h : Bytes) : Except Error Message := do
  format.check h
  let type := Layout.type.value h
  let group := Layout.group.value h
  if type = .query then return .query (Layout.maxResponseTime.value h) group
  else if type = .reportV1 then return .report group .v1
  else if type = .reportV2 then return .report group .v2
  else if type = .leave then return .leave group
  else if type = .reportV3 then throw .unsupported
  else throw .unrecognized

/-- Type, response time and group of a message. -/
def parts : Message → MessageType × UInt8 × Ipv4Address
  | .query maxResponseTime group => (.query, maxResponseTime, group)
  | .report group version => (version.messageType, 0, group)
  | .leave group => (.leave, 0, group)

/-- Write the contents over a header; the checksum becomes zero. -/
def emit (r : Message) (h : Bytes) : Access Bytes :=
  let (type, maxResponseTime, group) := r.parts
  Layout.type.set type h
    >>= Layout.maxResponseTime.set maxResponseTime
    >>= Layout.group.set group
    >>= Layout.checksum.set 0

/-- The contents in text for readers. -/
def text : Message → String
  | .query maxResponseTime group =>
    "IGMP membership query group=" ++ Ipv4Address.text group
      ++ " max_resp=" ++ toString maxResponseTime
  | .report group version =>
    "IGMP membership report group=" ++ Ipv4Address.text group ++ " " ++ version.name
  | .leave group => "IGMP leave group=" ++ Ipv4Address.text group

end Message

/-! ## §4. Behaviour as a layer. -/

/-- Fill the checksum. -/
def recompute (h : Bytes) (cx : Context) : Access Bytes :=
  format.guarded h h do
    match cx.mode with
    | .fill => fillChecksum cx.payload h
    | .keep => return h

/-- Whether the checksum holds. -/
def checksumValid (h : Bytes) (cx : Context) : Access (Option Bool) :=
  format.guarded h none do
    return some (verifyChecksum cx.payload h)

/-- Group management as a layer of a packet. -/
def dissector : Dissector where
  kind := .igmp
  headerLength := format.fixedLength headerLength
  defaultHeader := 0x11 :: 100 :: List.replicate 6 0
  requiredLength _ := .ok (some headerLength)
  recompute := recompute
  checksumValid := checksumValid

instance : WireHeader Message where
  dissector := dissector
  parse := Message.parse
  size _ := headerLength
  emit := Message.emit
  text := Message.text

/-- The default header is a query about all groups. -/
theorem defaultHeader_eq :
    WireHeader.toBytes (Message.query 100 .unspecified) = .ok dissector.defaultHeader := by
  rfl

end PacketLayers.Igmp
