/-
  PacketLayers.Packet.Standard
  ────────────────────────────────
  **THE PROTOCOLS KNOWN HERE, AND THEIR REGISTRY.**
-/
import PacketLayers.Control.Icmpv4
import PacketLayers.Control.Icmpv6
import PacketLayers.Control.Igmp
import PacketLayers.Link.Ethernet
import PacketLayers.Link.Llc
import PacketLayers.Link.Loopback
import PacketLayers.Link.RawIp
import PacketLayers.Link.Vlan
import PacketLayers.Link.Wireless
import PacketLayers.Network.Arp
import PacketLayers.Network.Gre
import PacketLayers.Network.Ipv4
import PacketLayers.Network.Ipv6
import PacketLayers.Packet.Registry
import PacketLayers.Transport.Tcp.Header
import PacketLayers.Transport.Udp

namespace PacketLayers

/-- Every dissector of the library. -/
def Dissector.all : List Dissector :=
  [Ethernet.dissector, Vlan.dissector, Arp.dissector, Ipv4.dissector, Ipv6.dissector,
    Tcp.dissector, Udp.dissector, Icmpv4.dissector, Icmpv6.dissector, Igmp.dissector,
    Gre.dissector, Loopback.dissector, RawIp.dissector, Wireless.dissector, Llc.dissector]

namespace Registry

/-- The subtypes of data frames with a body, each behind the data type. -/
def wirelessBodies : List UInt8 := [0x20, 0x21, 0x22, 0x23, 0x28, 0x29, 0x2a, 0x2b]

/-- What every discriminant known here stands for. -/
def standardDissectors : List (Discriminant × Dissector) :=
  [(.link .loopback, Loopback.dissector), (.link .ethernet, Ethernet.dissector),
    (.link .rawIp, RawIp.dissector), (.link .wireless, Wireless.dissector),
    (.link .ipv4, Ipv4.dissector), (.link .ipv6, Ipv6.dissector),
    (.loopbackFamily Loopback.Family.ipv4, Ipv4.dissector),
    (.loopbackFamily Loopback.Family.ipv6, Ipv6.dissector),
    (.loopbackFamily Loopback.Family.ipv6FreeBsd, Ipv6.dissector),
    (.loopbackFamily Loopback.Family.ipv6Darwin, Ipv6.dissector),
    (.ipVersion 4, Ipv4.dissector), (.ipVersion 6, Ipv6.dissector),
    (.etherType .ipv4, Ipv4.dissector), (.etherType .arp, Arp.dissector),
    (.etherType .ipv6, Ipv6.dissector), (.etherType .vlan, Vlan.dissector),
    (.etherType .serviceVlan, Vlan.dissector),
    (.ip .tcp, Tcp.dissector), (.ip .udp, Udp.dissector), (.ip .icmp, Icmpv4.dissector),
    (.ip .icmpv6, Icmpv6.dissector), (.ip .igmp, Igmp.dissector),
    (.ip .ipIp, Ipv4.dissector), (.ip .ipv6, Ipv6.dissector), (.ip .gre, Gre.dissector)]
    ++ wirelessBodies.map fun value => (.wireless value, Llc.dissector)

/-- The registry of all protocols known here.  Link types, loopback families
and IP versions have to be known. -/
def standard : Registry :=
  let known := standardDissectors.foldl (fun r (d, l) => r.register d l) empty
  ((known.requireKnown .link).requireKnown .loopbackFamily).requireKnown .ipVersion

end Registry

end PacketLayers
