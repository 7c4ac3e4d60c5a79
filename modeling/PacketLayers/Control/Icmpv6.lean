/-
  PacketLayers.Control.Icmpv6
  ────────────────────────────────
  **CONTROL MESSAGES OF IPV6.**

      0     1     2         4      8
      type  code  checksum  data   body …

  Unlike the messages of IPv4, the checksum includes the pseudo header, so it
  can be filled and checked only inside an IP layer.  Messages of neighbour
  discovery and multicast listeners have no contents of their own here.
-/
import PacketLayers.Layer.Dissector

namespace PacketLayers.Icmpv6

/-! ## §1. Number space. -/

/-- The type of a message. -/
inductive MessageType where
  | unreachable
  | packetTooBig
  | timeExceeded
  | parameterProblem
  | echoRequest
  | echoReply
  | listenerQuery
  | listenerReport
  | routerSolicitation
  | routerAdvertisement
  | neighborSolicitation
  | neighborAdvertisement
  | redirect
  | unknown (code : UInt8)
  deriving DecidableEq, Repr

namespace MessageType

/-- The number on the wire. -/
def code : MessageType → UInt8
  | unreachable => 0x01
  | packetTooBig => 0x02
  | timeExceeded => 0x03
  | parameterProblem => 0x04
  | echoRequest => 0x80
  | echoReply => 0x81
  | listenerQuery => 0x82
  | listenerReport => 0x83
  | routerSolicitation => 0x85
  | routerAdvertisement => 0x86
  | neighborSolicitation => 0x87
  | neighborAdvertisement => 0x88
  | redirect => 0x89
  | unknown n => n

instance : Assigned MessageType UInt8 where
  named := [unreachable, packetTooBig, timeExceeded, parameterProblem, echoRequest, echoReply,
    listenerQuery, listenerReport, routerSolicitation, routerAdvertisement, neighborSolicitation,
    neighborAdvertisement, redirect]
  unknown := unknown
  code := code
  exhaustive t := by cases t <;> simp
  code_unknown _ := rfl
  code_injOn_named := by decide

/-- Whether the type has a name. -/
def isKnown : MessageType → Bool
  | unknown _ => false
  | _ => true

/-- Error messages quote the packet they are about. -/
def isError (t : MessageType) : Bool := t.code &&& 0x80 == 0

/-- The identifier of the type. -/
def name : MessageType → String
  | unreachable => "DstUnreachable"
  | packetTooBig => "PktTooBig"
  | timeExceeded => "TimeExceeded"
  | parameterProblem => "ParamProblem"
  | echoRequest => "EchoRequest"
  | echoReply => "EchoReply"
  | listenerQuery => "MldQuery"
  | listenerReport => "MldReport"
  | routerSolicitation => "RouterSolicit"
  | routerAdvertisement => "RouterAdvert"
  | neighborSolicitation => "NeighborSolicit"
  | neighborAdvertisement => "NeighborAdvert"
  | redirect => "Redirect"
  | unknown n => Assigned.unknownName n.toNat

/-- The type in text for readers. -/
def text : MessageType → String
  | unreachable => "destination unreachable"
  | packetTooBig => "packet too big"
  | timeExceeded => "time exceeded"
  | parameterProblem => "parameter problem"
  | echoRequest => "echo request"
  | echoReply => "echo reply"
  | listenerQuery => "multicast listener query"
  | listenerReport => "multicast listener report"
  | routerSolicitation => "router solicitation"
  | routerAdvertisement => "router advertisement"
  | neighborSolicitation => "neighbor solicitation"
  | neighborAdvertisement => "neighbor advertisement"
  | redirect => "redirect"
  | unknown n => toString n

end MessageType

/-! ## §2. Layout. -/

/-- The length of the header. -/
def headerLength : Nat := 8

/-- The header format. -/
def format : HeaderFormat := .fixed .icmpv6 headerLength

namespace Layout

def type : Field MessageType := .word MessageType 0 1
def code : Field UInt8 := .word UInt8 1 1
def checksum : Field UInt16 := .word UInt16 2 2
def echoIdent : Field UInt16 := .word UInt16 4 2
def echoSequence : Field UInt16 := .word UInt16 6 2
/-- The transmission unit of "packet too big", or the pointer of a parameter
problem. -/
def data : Field UInt32 := .word UInt32 4 4

end Layout

/-- The sum over pseudo header, header and body. -/
def sum (pseudo : PseudoHeader) (h payload : Bytes) : UInt16 :=
  Checksum.upperLayer (some pseudo) .icmpv6 h payload

/-- Whether the checksum holds. -/
def verifyChecksum (pseudo : PseudoHeader) (payload h : Bytes) : Bool :=
  sum pseudo h payload == 0xffff

/-- Fill the checksum. -/
def fillChecksum (pseudo : PseudoHeader) (payload h : Bytes) : Access Bytes := do
  let h ← Layout.checksum.set 0 h
  Layout.checksum.set (~~~ sum pseudo h payload) h

/-! ## §3. Contents. -/

/-- The messages that have a meaning of their own. -/
inductive Message where
  | echoRequest (ident sequence : UInt16)
  | echoReply (ident sequence : UInt16)
  | unreachable (code : UInt8)
  | packetTooBig (mtu : UInt32)
  | timeExceeded (code : UInt8)
  | parameterProblem (code : UInt8) (pointer : UInt32)
  deriving DecidableEq

namespace Message

/-- The contents of a header. -/
def parse (h : Bytes) : Except Error Message := do
  format.check h
  let type := Layout.type.value h
  let code := Layout.code.value h
  if type = .echoRequest ∧ code = 0 then
    return .echoRequest (Layout.echoIdent.value h) (Layout.echoSequence.value h)
  else if type = .echoReply ∧ code = 0 then
    return .echoReply (Layout.echoIdent.value h) (Layout.echoSequence.value h)
  else if type = .unreachable then return .unreachable code
  else if type = .packetTooBig ∧ code = 0 then return .packetTooBig (Layout.data.value h)
  else if type = .timeExceeded then return .timeExceeded code
  else if type = .parameterProblem then
    return .parameterProblem code (Layout.data.value h)
  else if type.isKnown then throw .unsupported
  else throw .unrecognized

/-- Identifier and sequence number in the four bytes after the checksum. -/
def echoData (ident sequence : UInt16) : UInt32 :=
  (ident.toUInt32 <<< 16) ||| sequence.toUInt32

/-- Type, code and data of a message. -/
def parts : Message → MessageType × UInt8 × UInt32
  | .echoRequest ident sequence => (.echoRequest, 0, echoData ident sequence)
  | .echoReply ident sequence => (.echoReply, 0, echoData ident sequence)
  | .unreachable code => (.unreachable, code, 0)
  | .packetTooBig mtu => (.packetTooBig, 0, mtu)
  | .timeExceeded code => (.timeExceeded, code, 0)
  | .parameterProblem code pointer => (.parameterProblem, code, pointer)

/-- Write the contents over a header; the checksum becomes zero. -/
def emit (r : Message) (h : Bytes) : Access Bytes :=
  let (type, code, data) := r.parts
  Layout.type.set type h
    >>= Layout.code.set code
    >>= Layout.data.set data
    >>= Layout.checksum.set 0

/-- The contents in text for readers. -/
def text : Message → String
  | .echoRequest ident sequence =>
    "ICMPv6 echo request id=" ++ toString ident ++ " seq=" ++ toString sequence
  | .echoReply ident sequence =>
    "ICMPv6 echo reply id=" ++ toString ident ++ " seq=" ++ toString sequence
  | .unreachable code => "ICMPv6 destination unreachable code=" ++ toString code
  | .packetTooBig mtu => "ICMPv6 packet too big mtu=" ++ toString mtu
  | .timeExceeded code => "ICMPv6 time exceeded code=" ++ toString code
  | .parameterProblem code pointer =>
    "ICMPv6 parameter problem code=" ++ toString code ++ " pointer=" ++ toString pointer

end Message

/-! ## §4. Behaviour as a layer. -/

/-- Fill the checksum, inside an IP layer. -/
def recompute (h : Bytes) (cx : Context) : Access Bytes :=
  format.guarded h h do
    match cx.mode, cx.pseudo with
    | .fill, some pseudo => fillChecksum pseudo cx.payload h
    | _, _ => return h

/-- Whether the checksum holds, inside an IP layer. -/
def checksumValid (h : Bytes) (cx : Context) : Access (Option Bool) :=
  format.guarded h none do
    return cx.pseudo.map fun pseudo => verifyChecksum pseudo cx.payload h

/-- Control messages of IPv6 as a layer of a packet. -/
def dissector : Dissector where
  kind := .icmpv6
  headerLength := format.fixedLength headerLength
  defaultHeader := 0x80 :: List.replicate 7 0
  requiredLength _ := .ok (some headerLength)
  recompute := recompute
  checksumValid := checksumValid

instance : WireHeader Message where
  dissector := dissector
  parse := Message.parse
  size _ := headerLength
  emit := Message.emit
  text := Message.text

/-- The default header is an echo request. -/
theorem defaultHeader_eq :
    WireHeader.toBytes (Message.echoRequest 0 0) = .ok dissector.defaultHeader := by
  rfl

end PacketLayers.Icmpv6
