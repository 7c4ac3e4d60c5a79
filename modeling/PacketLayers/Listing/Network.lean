/-
  PacketLayers.Listing.Network
  ────────────────────────────────
  **TABLES OF THE NETWORK LAYERS.**
-/
import PacketLayers.Listing.Link
import PacketLayers.Network.Arp
import PacketLayers.Network.Gre
import PacketLayers.Network.Ipv4
import PacketLayers.Network.Ipv6

namespace PacketLayers

open Listing

instance : Listable IpProtocol := .ofNamed IpProtocol.name
instance : Listable Arp.Hardware := .ofNamed Arp.Hardware.name
instance : Listable Arp.Operation := .ofNamed Arp.Operation.name

/-! ## §1. ARP. -/

/-- The parts of the contents of an ARP message. -/
def Arp.form : Form Arp.Message Arp.Message :=
  Form.of Arp.Message.mk |>.part "operation" (·.operation)
    |>.part "source_hardware_addr" (·.sourceHardware)
    |>.part "source_protocol_addr" (·.sourceProtocol)
    |>.part "target_hardware_addr" (·.targetHardware)
    |>.part "target_protocol_addr" (·.targetProtocol)

/-- An address of an ARP message, under its name. -/
def Arp.addressField (name : String) (role : AddressRole) : NamedField :=
  .both name (getAddress role) (setAddress role)

/-- The table of ARP. -/
def Arp.table : Table :=
  .of "arp" format
    [.of "hardware_type" Layout.hardwareType, .of "protocol_type" Layout.protocolType,
      .of "hardware_len" Layout.hardwareLength, .of "protocol_len" Layout.protocolLength,
      .of "operation" Layout.operation, .derived "message_len" messageLength,
      addressField "source_hardware_addr" .sourceHardware,
      addressField "source_protocol_addr" .sourceProtocol,
      addressField "target_hardware_addr" .targetHardware,
      addressField "target_protocol_addr" .targetProtocol] form

/-! ## §2. IPv4 and IPv6. -/

/-- The parts of the contents of an IPv4 header. -/
def Ipv4.form : Form Ipv4.Header Ipv4.Header :=
  Form.of Ipv4.Header.mk |>.part "src_addr" (·.source) |>.part "dst_addr" (·.destination)
    |>.part "protocol" (·.protocol) |>.part "payload_len" (·.payloadLength)
    |>.part "hop_limit" (·.hopLimit)

/-- The table of IPv4. -/
def Ipv4.table : Table :=
  .of "ipv4" format
    [.of "version" Layout.version, .of "header_len" Layout.headerLength,
      .of "dscp" Layout.dscp, .of "ecn" Layout.ecn, .of "total_len" Layout.totalLength,
      .of "ident" Layout.ident, .of "dont_frag" Layout.dontFragment,
      .of "more_frags" Layout.moreFragments, .of "frag_offset" Layout.fragmentOffset,
      .of "hop_limit" Layout.hopLimit, .of "protocol" Layout.protocol,
      .of "checksum" Layout.checksum, .of "src_addr" Layout.source,
      .of "dst_addr" Layout.destination, .both "options" getOptions setOptions,
      .derived "verify_checksum" verifyChecksum]
    form (fun mode r => r.emit mode)

/-- The parts of the contents of an IPv6 header. -/
def Ipv6.form : Form Ipv6.Header Ipv6.Header :=
  Form.of Ipv6.Header.mk |>.part "src_addr" (·.source) |>.part "dst_addr" (·.destination)
    |>.part "next_header" (·.nextHeader) |>.part "payload_len" (·.payloadLength)
    |>.part "hop_limit" (·.hopLimit)

/-- The table of IPv6. -/
def Ipv6.table : Table :=
  .of "ipv6" format
    [.of "version" Layout.version, .of "traffic_class" Layout.trafficClass,
      .of "flow_label" Layout.flowLabel, .of "payload_len" Layout.payloadLength,
      .of "next_header" Layout.nextHeader, .of "hop_limit" Layout.hopLimit,
      .of "src_addr" Layout.source, .of "dst_addr" Layout.destination] form

/-! ## §3. GRE. -/

/-- The parts of the contents of a GRE header. -/
def Gre.form : Form Gre.Header Gre.Header :=
  Form.of Gre.Header.mk |>.part "protocol" (·.protocol) |>.part "checksum" (·.checksum)
    |>.part "key" (·.key) |>.part "sequence" (·.sequence)

/-- The table of GRE. -/
def Gre.table : Table :=
  .of "gre" format
    [.derived "header_len" headerLength, .derived "has_checksum" Layout.hasChecksum.get,
      .derived "has_key" Layout.hasKey.get, .derived "has_sequence" Layout.hasSequence.get,
      .of "version" Layout.version, .of "protocol" Layout.protocol,
      .both "checksum" checksum? setChecksum, .both "key" key? setKey,
      .both "sequence" sequence? setSequence] form

end PacketLayers
