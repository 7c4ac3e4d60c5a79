/-
  PacketLayers.Listing.Standard
  ────────────────────────────────
  **THE TABLES OF ALL PROTOCOLS WITH A HEADER.**
-/
import PacketLayers.Listing.Control
import PacketLayers.Listing.Network
import PacketLayers.Listing.Transport

namespace PacketLayers.Listing.Table

/-- Every table of the library. -/
def all : List Table :=
  [Ethernet.table, Vlan.table, Arp.table, Ipv4.table, Ipv6.table, Tcp.table, Udp.table,
    Icmpv4.table, Icmpv6.table, Igmp.table, Gre.table, Loopback.table, Wireless.table,
    Llc.table]

/-- The table of some name. -/
def find? (name : String) : Option Table := all.find? (·.name == name)

end PacketLayers.Listing.Table
