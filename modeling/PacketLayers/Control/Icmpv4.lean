/-
  PacketLayers.Control.Icmpv4
  ────────────────────────────────
  **CONTROL MESSAGES OF IPV4.**

      0     1     2         4                8
      type  code  checksum  rest of header   body …

  Echo messages use the rest of the header for an identifier and a sequence
  number.  The body, also the datagram that an error quotes, stays bytes.  The
  checksum covers header and body and no pseudo header.
-/
import PacketLayers.Layer.Dissector

namespace PacketLayers.Icmpv4

/-! ## §1. Number spaces. -/

/-- The type of a message. -/
inductive MessageType where
  | echoReply
  | unreachable
  | redirect
  | echoRequest
  | routerAdvertisement
  | routerSolicitation
  | timeExceeded
  | parameterProblem
  | timestamp
  | timestampReply
  | extendedEcho
  | extendedReply
  | unknown (code : UInt8)
  deriving DecidableEq, Repr

namespace MessageType

/-- The number on the wire. -/
def code : MessageType → UInt8
  | echoReply => 0
  | unreachable => 3
  | redirect => 5
  | echoRequest => 8
  | routerAdvertisement => 9
  | routerSolicitation => 10
  | timeExceeded => 11
  | parameterProblem => 12
  | timestamp => 13
  | timestampReply => 14
  | extendedEcho => 42
  | extendedReply => 43
  | unknown n => n

instance : Assigned MessageType UInt8 where
  named := [echoReply, unreachable, redirect, echoRequest, routerAdvertisement, routerSolicitation,
    timeExceeded, parameterProblem, timestamp, timestampReply, extendedEcho, extendedReply]
  unknown := unknown
  code := code
  exhaustive t := by cases t <;> simp
  code_unknown _ := rfl
  code_injOn_named := by decide

/-- Whether the type has a name. -/
def isKnown : MessageType → Bool
  | unknown _ => false
  | _ => true

/-- The identifier of the type. -/
def name : MessageType → String
  | echoReply => "EchoReply"
  | unreachable => "DstUnreachable"
  | redirect => "Redirect"
  | echoRequest => "EchoRequest"
  | routerAdvertisement => "RouterAdvert"
  | routerSolicitation => "RouterSolicit"
  | timeExceeded => "TimeExceeded"
  | parameterProblem => "ParamProblem"
  | timestamp => "Timestamp"
  | timestampReply => "TimestampReply"
  | extendedEcho => "ExtendedEcho"
  | extendedReply => "ExtendedReply"
  | unknown n => Assigned.unknownName n.toNat

/-- The type in text for readers. -/
def text : MessageType → String
  | echoReply => "echo reply"
  | unreachable => "destination unreachable"
  | redirect => "message redirect"
  | echoRequest => "echo request"
  | routerAdvertisement => "router advertisement"
  | routerSolicitation => "router solicitation"
  | timeExceeded => "time exceeded"
  | parameterProblem => "parameter problem"
  | timestamp => "timestamp"
  | timestampReply => "timestamp reply"
  | extendedEcho => "extended echo request"
  | extendedReply => "extended echo reply"
  | unknown n => toString n

end MessageType

/-- Why a destination is unreachable. -/
inductive Unreachable where
  | network
  | host
  | protocol
  | port
  | fragmentationRequired
  | sourceRouteFailed
  | networkUnknown
  | hostUnknown
  | sourceHostIsolated
  | networkProhibited
  | hostProhibited
  | networkForService
  | hostForService
  | communicationProhibited
  | hostPrecedence
  | precedenceCutoff
  | unknown (code : UInt8)
  deriving DecidableEq, Repr

namespace Unreachable

/-- The number on the wire. -/
def code : Unreachable → UInt8
  | network => 0
  | host => 1
  | protocol => 2
  | port => 3
  | fragmentationRequired => 4
  | sourceRouteFailed => 5
  | networkUnknown => 6
  | hostUnknown => 7
  | sourceHostIsolated => 8
  | networkProhibited => 9
  | hostProhibited => 10
  | networkForService => 11
  | hostForService => 12
  | communicationProhibited => 13
  | hostPrecedence => 14
  | precedenceCutoff => 15
  | unknown n => n

instance : Assigned Unreachable UInt8 where
  named := [network, host, protocol, port, fragmentationRequired, sourceRouteFailed, networkUnknown,
    hostUnknown, sourceHostIsolated, networkProhibited, hostProhibited, networkForService,
    hostForService, communicationProhibited, hostPrecedence, precedenceCutoff]
  unknown := unknown
  code := code
  exhaustive t := by cases t <;> simp
  code_unknown _ := rfl
  code_injOn_named := by decide

/-- The identifier of the reason. -/
def name : Unreachable → String
  | network => "NetUnreachable"
  | host => "HostUnreachable"
  | protocol => "ProtoUnreachable"
  | port => "PortUnreachable"
  | fragmentationRequired => "FragRequired"
  | sourceRouteFailed => "SrcRouteFailed"
  | networkUnknown => "DstNetUnknown"
  | hostUnknown => "DstHostUnknown"
  | sourceHostIsolated => "SrcHostIsolated"
  | networkProhibited => "NetProhibited"
  | hostProhibited => "HostProhibited"
  | networkForService => "NetUnreachToS"
  | hostForService => "HostUnreachToS"
  | communicationProhibited => "CommProhibited"
  | hostPrecedence => "HostPrecedViol"
  | precedenceCutoff => "PrecedCutoff"
  | unknown n => Assigned.unknownName n.toNat

/-- The reason in text for readers. -/
def text : Unreachable → String
  | network => "destination network unreachable"
  | host => "destination host unreachable"
  | protocol => "destination protocol unreachable"
  | port => "destination port unreachable"
  | fragmentationRequired => "fragmentation required, and DF flag set"
  | sourceRouteFailed => "source route failed"
  | networkUnknown => "destination network unknown"
  | hostUnknown => "destination host unknown"
  | sourceHostIsolated => "source host isolated"
  | networkProhibited => "network administratively prohibited"
  | hostProhibited => "host administratively prohibited"
  | networkForService => "network unreachable for ToS"
  | hostForService => "host unreachable for ToS"
  | communicationProhibited => "communication administratively prohibited"
  | hostPrecedence => "host precedence violation"
  | precedenceCutoff => "precedence cutoff in effect"
  | unknown n => toString n

end Unreachable

/-- What a redirect is about. -/
inductive Redirect where
  | network
  | host
  | networkForService
  | hostForService
  | unknown (code : UInt8)
  deriving DecidableEq, Repr

namespace Redirect

/-- The number on the wire. -/
def code : Redirect → UInt8
  | network => 0
  | host => 1
  | networkForService => 2
  | hostForService => 3
  | unknown n => n

instance : Assigned Redirect UInt8 where
  named := [network, host, networkForService, hostForService]
  unknown := unknown
  code := code
  exhaustive t := by cases t <;> simp
  code_unknown _ := rfl
  code_injOn_named := by decide

/-- The identifier of the redirect. -/
def name : Redirect → String
  | network => "Net"
  | host => "Host"
  | networkForService => "NetToS"
  | hostForService => "HostToS"
  | unknown n => Assigned.unknownName n.toNat

end Redirect

/-- Which time was exceeded. -/
inductive TimeExceeded where
  /-- The hop limit ran out. -/
  | transit
  /-- A fragment was missing for too long. -/
  | reassembly
  | unknown (code : UInt8)
  deriving DecidableEq, Repr

namespace TimeExceeded

/-- The number on the wire. -/
def code : TimeExceeded → UInt8
  | transit => 0
  | reassembly => 1
  | unknown n => n

instance : Assigned TimeExceeded UInt8 where
  named := [transit, reassembly]
  unknown := unknown
  code := code
  exhaustive t := by cases t <;> simp
  code_unknown _ := rfl
  code_injOn_named := by decide

/-- The identifier of the reason. -/
def name : TimeExceeded → String
  | transit => "TtlExpired"
  | reassembly => "FragExpired"
  | unknown n => Assigned.unknownName n.toNat

end TimeExceeded

/-- What is wrong with a parameter. -/
inductive ParameterProblem where
  | atPointer
  | missingOption
  | badLength
  | unknown (code : UInt8)
  deriving DecidableEq, Repr

namespace ParameterProblem

/-- The number on the wire. -/
def code : ParameterProblem → UInt8
  | atPointer => 0
  | missingOption => 1
  | badLength => 2
  | unknown n => n

instance : Assigned ParameterProblem UInt8 where
  named := [atPointer, missingOption, badLength]
  unknown := unknown
  code := code
  exhaustive t := by cases t <;> simp
  code_unknown _ := rfl
  code_injOn_named := by decide

/-- The identifier of the problem. -/
def name : ParameterProblem → String
  | atPointer => "AtPointer"
  | missingOption => "MissingOption"
  | badLength => "BadLength"
  | unknown n => Assigned.unknownName n.toNat

end ParameterProblem

/-! ## §2. Layout. -/

/-- The length of the header. -/
def headerLength : Nat := 8

/-- The header format. -/
def format : HeaderFormat := .fixed .icmpv4 headerLength

namespace Layout

def type : Field MessageType := .word MessageType 0 1
def code : Field UInt8 := .word UInt8 1 1
def checksum : Field UInt16 := .word UInt16 2 2
def echoIdent : Field UInt16 := .word UInt16 4 2
def echoSequence : Field UInt16 := .word UInt16 6 2
/-- What most messages leave zero. -/
def restOfHeader : Field UInt32 := .word UInt32 4 4

end Layout

/-- The sum over header and body. -/
def sum (h payload : Bytes) : UInt16 := Checksum.upperLayer none .icmp h payload

/-- Whether the checksum holds. -/
def verifyChecksum (payload h : Bytes) : Bool := sum h payload == 0xffff

/-- Fill the checksum. -/
def fillChecksum (payload h : Bytes) : Access Bytes := do
  let h ← Layout.checksum.set 0 h
  Layout.checksum.set (~~~ sum h payload) h

/-! ## §3. Contents. -/

/-- The messages that have a meaning of their own. -/
inductive Message where
  | echoRequest (ident sequence : UInt16)
  | echoReply (ident sequence : UInt16)
  | unreachable (reason : Unreachable)
  | timeExceeded (reason : TimeExceeded)
  deriving DecidableEq

namespace Message

/-- The reply to an echo request. -/
def reply? : Message → Option Message
  | .echoRequest ident sequence => some (.echoReply ident sequence)
  | _ => none

/-- The contents of a header. -/
def parse (h : Bytes) : Except Error Message := do
  format.check h
  let type := Layout.type.value h
  let code := Layout.code.value h
  if type = .echoRequest ∧ code = 0 then
    return .echoRequest (Layout.echoIdent.value h) (Layout.echoSequence.value h)
  else if type = .echoReply ∧ code = 0 then
    return .echoReply (Layout.echoIdent.value h) (Layout.echoSequence.value h)
  else if type = .unreachable then return .unreachable (Assigned.ofCode code)
  else if type = .timeExceeded then return .timeExceeded (Assigned.ofCode code)
  else if type.isKnown then throw .unsupported
  else throw .unrecognized

/-- Write the header of an echo message. -/
def emitEcho (type : MessageType) (ident sequence : UInt16) (h : Bytes) : Access Bytes :=
  Layout.type.set type h
    >>= Layout.code.set 0
    >>= Layout.echoIdent.set ident
    >>= Layout.echoSequence.set sequence

/-- Write the header of an error message. -/
def emitError (type : MessageType) (code : UInt8) (h : Bytes) : Access Bytes :=
  Layout.type.set type h
    >>= Layout.code.set code
    >>= Layout.restOfHeader.set 0

/-- Write the contents over a header; the checksum becomes zero. -/
def emit (r : Message) (h : Bytes) : Access Bytes := do
  let h ← match r with
    | .echoRequest ident sequence => emitEcho .echoRequest ident sequence h
    | .echoReply ident sequence => emitEcho .echoReply ident sequence h
    | .unreachable reason => emitError .unreachable reason.code h
    | .timeExceeded reason => emitError .timeExceeded reason.code h
  Layout.checksum.set 0 h

/-- The contents in text for readers. -/
def text : Message → String
  | .echoRequest ident sequence =>
    "ICMPv4 echo request id=" ++ toString ident ++ " seq=" ++ toString sequence
  | .echoReply ident sequence =>
    "ICMPv4 echo reply id=" ++ toString ident ++ " seq=" ++ toString sequence
  | .unreachable reason => "ICMPv4 destination unreachable (" ++ reason.text ++ ")"
  | .timeExceeded reason => "ICMPv4 time exceeded (" ++ reason.name ++ ")"

end Message

/-! ## §4. Behaviour as a layer. -/

/-- Fill the checksum. -/
def recompute (h : Bytes) (cx : Context) : Access Bytes :=
  format.guarded h h do
    match cx.mode with
    | .fill => fillChecksum cx.payload h
    | .keep => return h

/-- Whether the checksum holds. -/
def checksumValid (h : Bytes) (cx : Context) : Access (Option Bool) :=
  format.guarded h none do
    return some (verifyChecksum cx.payload h)

/-- Control messages of IPv4 as a layer of a packet. -/
def dissector : Dissector where
  kind := .icmpv4
  headerLength := format.fixedLength headerLength
  defaultHeader := 8 :: List.replicate 7 0
  requiredLength _ := .ok (some headerLength)
  recompute := recompute
  checksumValid := checksumValid

instance : WireHeader Message where
  dissector := dissector
  parse := Message.parse
  size _ := headerLength
  emit := Message.emit
  text := Message.text

/-- The default header is an echo request. -/
theorem defaultHeader_eq :
    WireHeader.toBytes (Message.echoRequest 0 0) = .ok dissector.defaultHeader := by
  rfl

end PacketLayers.Icmpv4
