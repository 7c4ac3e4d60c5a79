/-
  PacketLayers.Network.Arp
  ────────────────────────────────
  **ADDRESS RESOLUTION MESSAGES.**

      0              2              4     5     6          8
      hardware type  protocol type  hlen  plen  operation  addresses …

  Four addresses follow the fixed part: hardware and protocol address of the
  source, then of the target.  Their lengths are stated in the message.  A
  message has no payload; bytes after it are padding.
-/
import PacketLayers.Address.Ethernet
import PacketLayers.Layer.Dissector

namespace PacketLayers.Arp

/-! ## §1. Number spaces. -/

/-- The hardware that a message speaks of. -/
inductive Hardware where
  | ethernet
  | unknown (code : UInt16)
  deriving DecidableEq, Repr

namespace Hardware

/-- The number on the wire. -/
def code : Hardware → UInt16
  | ethernet => 1
  | unknown n => n

instance : Assigned Hardware UInt16 where
  named := [ethernet]
  unknown := unknown
  code := code
  exhaustive x := by cases x <;> simp
  code_unknown _ := rfl
  code_injOn_named := by decide

/-- The identifier of the hardware. -/
def name : Hardware → String
  | ethernet => "Ethernet"
  | unknown n => Assigned.unknownName n.toNat

end Hardware

/-- What a message asks or answers. -/
inductive Operation where
  | request
  | reply
  | unknown (code : UInt16)
  deriving DecidableEq, Repr

namespace Operation

/-- The number on the wire. -/
def code : Operation → UInt16
  | request => 1
  | reply => 2
  | unknown n => n

instance : Assigned Operation UInt16 where
  named := [request, reply]
  unknown := unknown
  code := code
  exhaustive x := by cases x <;> simp
  code_unknown _ := rfl
  code_injOn_named := by decide

/-- The identifier of the operation. -/
def name : Operation → String
  | request => "Request"
  | reply => "Reply"
  | unknown n => Assigned.unknownName n.toNat

end Operation

/-! ## §2. Layout. -/

/-- The length of the fixed part. -/
def fixedLength : Nat := 8

namespace Layout

def hardwareType : Field Hardware := .word Hardware 0 2
def protocolType : Field EtherType := .word EtherType 2 2
def hardwareLength : Field UInt8 := .word UInt8 4 1
def protocolLength : Field UInt8 := .word UInt8 5 1
def operation : Field Operation := .word Operation 6 2

/-! The addresses of a message between Ethernet stations about IPv4. -/

def sourceEthernet : Field EthernetAddress := .octets 8 6
def sourceIpv4 : Field Ipv4Address := .octets 14 4
def targetEthernet : Field EthernetAddress := .octets 18 6
def targetIpv4 : Field Ipv4Address := .octets 24 4

end Layout

/-- The length of a message with addresses of the given lengths. -/
def lengthOf (hardware protocol : UInt8) : Nat :=
  fixedLength + 2 * hardware.toNat + 2 * protocol.toNat

/-- The length of a message of an Ethernet station about an IPv4 address. -/
def ethernetIpv4Length : Nat := 28

/-- The length that a message asks for. -/
def messageLength (h : Bytes) : Access Nat := do
  return lengthOf (← Layout.hardwareLength.get h) (← Layout.protocolLength.get h)

/-- The length that the fixed part asks for. -/
def messageLengthValue (h : Bytes) : Nat :=
  lengthOf (Layout.hardwareLength.value h) (Layout.protocolLength.value h)

/-- The message format. -/
def format : HeaderFormat where
  kind := .arp
  check h :=
    if h.length < fixedLength then .error .truncated
    else if h.length < messageLengthValue h then .error .truncated
    else .ok ()

/-- The four addresses of a message. -/
inductive AddressRole where
  | sourceHardware
  | sourceProtocol
  | targetHardware
  | targetProtocol
  deriving DecidableEq, Repr

/-- First byte and length of an address, given the lengths of both kinds. -/
def AddressRole.range (hardware protocol : Nat) : AddressRole → Nat × Nat
  | sourceHardware => (fixedLength, hardware)
  | sourceProtocol => (fixedLength + hardware, protocol)
  | targetHardware => (fixedLength + hardware + protocol, hardware)
  | targetProtocol => (fixedLength + hardware + protocol + hardware, protocol)

/-- First byte and length of an address in a message. -/
def addressRange (role : AddressRole) (h : Bytes) : Access (Nat × Nat) := do
  return role.range (← Layout.hardwareLength.get h).toNat (← Layout.protocolLength.get h).toNat

/-- An address of a message. -/
def getAddress (role : AddressRole) (h : Bytes) : Access Bytes := do
  let (first, size) ← addressRange role h
  h.slice first size

/-- Write an address, of the length that the message states. -/
def setAddress (role : AddressRole) (new h : Bytes) : Access Bytes := do
  let (first, size) ← addressRange role h
  h.replace first size new

/-! ## §3. Contents. -/

/-- The contents of a message of an Ethernet station about an IPv4 address. -/
structure Message where
  operation : Operation
  sourceHardware : EthernetAddress
  sourceProtocol : Ipv4Address
  targetHardware : EthernetAddress
  targetProtocol : Ipv4Address
  deriving DecidableEq

namespace Message

/-- Whether the fixed part is that of a request or reply between Ethernet
stations about IPv4. -/
def recognized (h : Bytes) : Bool :=
  Layout.hardwareType.value h == .ethernet
    && Layout.protocolType.value h == .ipv4
    && Layout.hardwareLength.value h == 6
    && Layout.protocolLength.value h == 4
    && (Layout.operation.value h == .request || Layout.operation.value h == .reply)

/-- The contents of a message. -/
def parse (h : Bytes) : Except Error Message := do
  format.check h
  if recognized h then
    return ⟨Layout.operation.value h, Layout.sourceEthernet.value h, Layout.sourceIpv4.value h,
      Layout.targetEthernet.value h, Layout.targetIpv4.value h⟩
  else throw .unrecognized

/-- Write the contents over a message. -/
def emit (r : Message) (h : Bytes) : Access Bytes :=
  Layout.hardwareType.set .ethernet h
    >>= Layout.protocolType.set .ipv4
    >>= Layout.hardwareLength.set 6
    >>= Layout.protocolLength.set 4
    >>= Layout.operation.set r.operation
    >>= Layout.sourceEthernet.set r.sourceHardware
    >>= Layout.sourceIpv4.set r.sourceProtocol
    >>= Layout.targetEthernet.set r.targetHardware
    >>= Layout.targetIpv4.set r.targetProtocol

/-- The contents in text for readers. -/
def text (r : Message) : String :=
  "ARP type=Ethernet+IPv4 src=" ++ EthernetAddress.text r.sourceHardware
    ++ "/" ++ Ipv4Address.text r.sourceProtocol
    ++ " tgt=" ++ EthernetAddress.text r.targetHardware
    ++ "/" ++ Ipv4Address.text r.targetProtocol
    ++ " op=" ++ r.operation.name

end Message

/-- Any bytes as a message, in text for readers. -/
def describe (h : Bytes) : String :=
  match format.check h with
  | .error e => "ARP (" ++ e.message ++ ")"
  | .ok () =>
    match Message.parse h with
    | .ok r => r.text
    | .error _ =>
      "ARP (unrecognized) htype=" ++ (Layout.hardwareType.value h).name
        ++ " ptype=" ++ (Layout.protocolType.value h).name
        ++ " hlen=" ++ toString (Layout.hardwareLength.value h)
        ++ " plen=" ++ toString (Layout.protocolLength.value h)
        ++ " op=" ++ (Layout.operation.value h).name

/-! ## §4. Behaviour as a layer. -/

/-- The length that the fixed part asks for, or that of the default message
where there is none. -/
def requiredLength (h : Bytes) : Access (Option Nat) := do
  if h.length < fixedLength then return some ethernetIpv4Length
  else return some (← messageLength h)

/-- Address resolution as a layer of a packet. -/
def dissector : Dissector where
  kind := .arp
  headerLength h := (format.check h).map fun _ => messageLengthValue h
  payloadLength _ _ := .ok 0
  defaultHeader := [0, 1, 0x08, 0, 6, 4, 0, 1] ++ List.replicate 20 0
  requiredLength := requiredLength

instance : WireHeader Message where
  dissector := dissector
  parse := Message.parse
  size _ := ethernetIpv4Length
  emit := Message.emit
  text := Message.text

/-- The default message is a request between unspecified addresses. -/
theorem defaultHeader_eq :
    WireHeader.toBytes
        (Message.mk .request .unspecified .unspecified .unspecified .unspecified)
      = .ok dissector.defaultHeader := by
  rfl

end PacketLayers.Arp
