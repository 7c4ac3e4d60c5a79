/-
  PacketLayers.Listing.Link
  ────────────────────────────────
  **TABLES OF THE LINK LAYERS.**
-/
import PacketLayers.Link.Ethernet
import PacketLayers.Link.Llc
import PacketLayers.Link.Loopback
import PacketLayers.Link.Vlan
import PacketLayers.Link.Wireless
import PacketLayers.Listing.Table

namespace PacketLayers

open Listing

instance : Listable EtherType := .ofNamed EtherType.name
instance : Listable FrameType := .ofNamed FrameType.name
instance : Listable FrameFlags := .ofNumber FrameFlags

/-! ## §1. Ethernet and VLAN tags. -/

/-- The parts of the contents of an Ethernet header. -/
def Ethernet.form : Form Ethernet.Header Ethernet.Header :=
  Form.of Ethernet.Header.mk |>.part "src_addr" (·.source)
    |>.part "dst_addr" (·.destination) |>.part "ethertype" (·.etherType)

/-- The table of Ethernet. -/
def Ethernet.table : Table :=
  .of "ethernet" format
    [.of "dst_addr" Layout.destination, .of "src_addr" Layout.source,
      .of "ethertype" Layout.etherType] form

/-- The parts of the contents of a VLAN tag. -/
def Vlan.form : Form Vlan.Header Vlan.Header :=
  Form.of Vlan.Header.mk |>.part "priority" (·.priority)
    |>.part "drop_eligible" (·.dropEligible) |>.part "vlan_id" (·.identifier)
    |>.part "ethertype" (·.etherType)

/-- The table of VLAN tags. -/
def Vlan.table : Table :=
  .of "vlan" format
    [.of "priority" Layout.priority, .of "drop_eligible" Layout.dropEligible,
      .of "vlan_id" Layout.identifier, .of "ethertype" Layout.etherType] form

/-! ## §2. Loopback. -/

/-- The parts of the contents of a loopback header. -/
def Loopback.form : Form Loopback.Header Loopback.Header :=
  Form.of Loopback.Header.mk |>.part "family" (·.family)

/-- The contents that a loopback header has. -/
def Loopback.contents (r : Loopback.Header) : Contents where
  parts := form.parts r
  text := none
  size := headerLength
  emit _ h := .ok (r.emit h)
  packet := .ok (Packet.ofHeader dissector r.toBytes)

/-- The table of the loopback encapsulation; its one field is its contents. -/
def Loopback.table : Table where
  name := "null"
  format := .fixed .loopback headerLength
  fields := []
  parse h := (Loopback.Header.parse h).map contents
  make v := (form.make v).map contents

/-! ## §3. Wireless frames. -/

/-- The flags of a frame one by one, lowest bit first. -/
def FrameFlags.list (f : FrameFlags) : List Bool :=
  [f.toDistribution, f.fromDistribution, f.moreFragments, f.retry, f.powerManagement,
    f.moreData, f.isProtected, f.order]

/-- The parts of the contents of a wireless header. -/
def Wireless.form : Form Wireless.Header Wireless.Header :=
  Form.of Wireless.Header.mk |>.part "frame_type" (·.frameType)
    |>.part "subtype" (·.subtype) |>.part "flags" (·.flags) |>.part "duration" (·.duration)
    |>.part "addr1" (·.addr1) |>.part "addr2" (·.addr2) |>.part "addr3" (·.addr3)
    |>.part "sequence_control" (·.sequenceControl) |>.part "addr4" (·.addr4)
    |>.part "qos_control" (·.qosControl)

/-- The table of wireless frames. -/
def Wireless.table : Table :=
  .of "ieee80211" format
    [.derived "header_len" headerLength, .derived "version" Layout.version.get,
      .derived "frame_type" Layout.frameType.get, .derived "subtype" Layout.subtype.get,
      .derived "type_subtype" typeAndSubtype, .of "flags" Layout.flags,
      .derived "flag_bits" fun h => do return (← Layout.flags.get h).list,
      .of "duration" Layout.duration, .of "addr1" Layout.addr1,
      .both "addr2" addr2? Layout.addr2.set, .both "addr3" addr3? Layout.addr3.set,
      .both "sequence_control" sequenceControl? Layout.sequenceControl.set,
      .both "addr4" addr4? Layout.addr4.set, .both "qos_control" qosControl? setQosControl]
    form

/-! ## §4. Logical link control. -/

/-- The parts of the contents of a header of logical link control. -/
def Llc.form : Form Llc.Header Llc.Header where
  parts
    | .plain dsap ssap control =>
      [("type", .word "Llc"), ("dsap", toValue dsap), ("ssap", toValue ssap),
        ("control", toValue control)]
    | .snap organization etherType =>
      [("type", .word "Snap"), ("oui", toValue organization),
        ("ethertype", toValue etherType)]
  make v := do
    match v "type" with
    | .word "Llc" =>
      return .plain (← Form.ask v "dsap") (← Form.ask v "ssap") (← Form.ask v "control")
    | .word "Snap" => return .snap (← Form.ask v "oui") (← Form.ask v "ethertype")
    | _ => none

/-- The table of logical link control. -/
def Llc.table : Table :=
  .of "llc" format
    [.derived "header_len" headerLength, .of "dsap" Layout.dsap, .of "ssap" Layout.ssap,
      .derived "control" control, .derived "is_snap" isSnap,
      .both "oui" organization? Layout.organization.set,
      .both "ethertype" etherType? Layout.etherType.set] form

end PacketLayers
