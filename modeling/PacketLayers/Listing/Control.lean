/-
  PacketLayers.Listing.Control
  ────────────────────────────────
  **TABLES OF THE CONTROL PROTOCOLS.**
-/
import PacketLayers.Control.Icmpv4
import PacketLayers.Control.Icmpv6
import PacketLayers.Control.Igmp
import PacketLayers.Listing.Table

namespace PacketLayers

open Listing

instance : Listable Icmpv4.MessageType := .ofNamed Icmpv4.MessageType.name
instance : Listable Icmpv4.Unreachable := .ofNamed Icmpv4.Unreachable.name
instance : Listable Icmpv4.TimeExceeded := .ofNamed Icmpv4.TimeExceeded.name
instance : Listable Icmpv6.MessageType := .ofNamed Icmpv6.MessageType.name
instance : Listable Igmp.MessageType := .ofNamed Igmp.MessageType.name

instance : Listable Igmp.ReportVersion where
  toValue v := .word v.name
  ofValue?
    | .word "V1" => some .v1
    | .word "V2" => some .v2
    | _ => none

/-! ## §1. Control messages of IPv4. -/

/-- The parts of an echo message of some type. -/
def echoParts (type : String) (ident sequence : UInt16) : List (String × Value) :=
  [("type", .word type), ("ident", toValue ident), ("seq_no", toValue sequence)]

/-- The parts of a control message of IPv4. -/
def Icmpv4.form : Form Icmpv4.Message Icmpv4.Message where
  parts
    | .echoRequest ident sequence => echoParts "EchoRequest" ident sequence
    | .echoReply ident sequence => echoParts "EchoReply" ident sequence
    | .unreachable reason => [("type", .word "DstUnreachable"), ("reason", toValue reason)]
    | .timeExceeded reason => [("type", .word "TimeExceeded"), ("reason", toValue reason)]
  make v := do
    match v "type" with
    | .word "EchoRequest" =>
      return .echoRequest (← Form.ask v "ident") (← Form.ask v "seq_no")
    | .word "EchoReply" => return .echoReply (← Form.ask v "ident") (← Form.ask v "seq_no")
    | .word "DstUnreachable" => return .unreachable (← Form.ask v "reason")
    | .word "TimeExceeded" => return .timeExceeded (← Form.ask v "reason")
    | _ => none

/-- The table of control messages of IPv4. -/
def Icmpv4.table : Table :=
  .of "icmpv4" format
    [.of "msg_type" Layout.type, .of "msg_code" Layout.code, .of "checksum" Layout.checksum,
      .of "echo_ident" Layout.echoIdent, .of "echo_seq_no" Layout.echoSequence,
      .derived "rest_of_header" fun h => do
        return Bytes.ofNat 4 (← Layout.restOfHeader.get h).toNat] form

/-! ## §2. Control messages of IPv6. -/

/-- The parts of a control message of IPv6. -/
def Icmpv6.form : Form Icmpv6.Message Icmpv6.Message where
  parts
    | .echoRequest ident sequence => echoParts "EchoRequest" ident sequence
    | .echoReply ident sequence => echoParts "EchoReply" ident sequence
    | .unreachable code => [("type", .word "DstUnreachable"), ("code", toValue code)]
    | .packetTooBig mtu => [("type", .word "PktTooBig"), ("mtu", toValue mtu)]
    | .timeExceeded code => [("type", .word "TimeExceeded"), ("code", toValue code)]
    | .parameterProblem code pointer =>
      [("type", .word "ParamProblem"), ("code", toValue code), ("pointer", toValue pointer)]
  make v := do
    match v "type" with
    | .word "EchoRequest" =>
      return .echoRequest (← Form.ask v "ident") (← Form.ask v "seq_no")
    | .word "EchoReply" => return .echoReply (← Form.ask v "ident") (← Form.ask v "seq_no")
    | .word "DstUnreachable" => return .unreachable (← Form.ask v "code")
    | .word "PktTooBig" => return .packetTooBig (← Form.ask v "mtu")
    | .word "TimeExceeded" => return .timeExceeded (← Form.ask v "code")
    | .word "ParamProblem" =>
      return .parameterProblem (← Form.ask v "code") (← Form.ask v "pointer")
    | _ => none

/-- The table of control messages of IPv6. -/
def Icmpv6.table : Table :=
  .of "icmpv6" format
    [.of "msg_type" Layout.type, .of "msg_code" Layout.code, .of "checksum" Layout.checksum,
      .of "echo_ident" Layout.echoIdent, .of "echo_seq_no" Layout.echoSequence,
      .of "data" Layout.data] form

/-! ## §3. Group management. -/

/-- The parts of a group management message. -/
def Igmp.form : Form Igmp.Message Igmp.Message where
  parts
    | .query time group =>
      [("type", .word "MembershipQuery"), ("max_resp_time", toValue time),
        ("group_addr", toValue group)]
    | .report group version =>
      [("type", .word "MembershipReport"), ("group_addr", toValue group),
        ("version", toValue version)]
    | .leave group => [("type", .word "LeaveGroup"), ("group_addr", toValue group)]
  make v := do
    let group ← Form.ask v "group_addr"
    match v "type" with
    | .word "MembershipQuery" => return .query (← Form.ask v "max_resp_time") group
    | .word "MembershipReport" => return .report group (← Form.ask v "version")
    | .word "LeaveGroup" => return .leave group
    | _ => none

/-- The table of group management. -/
def Igmp.table : Table :=
  .of "igmp" format
    [.of "msg_type" Layout.type, .of "max_resp_time" Layout.maxResponseTime,
      .of "checksum" Layout.checksum, .of "group_addr" Layout.group] form

end PacketLayers
