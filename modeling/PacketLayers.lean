import PacketLayers.Address.Ethernet
import PacketLayers.Address.Ip
import PacketLayers.Address.Ipv4
import PacketLayers.Address.Ipv6
import PacketLayers.Assigned.EtherType
import PacketLayers.Assigned.IpProtocol
import PacketLayers.Assigned.LinkType
import PacketLayers.Assigned.Space
import PacketLayers.Bytes.Basic
import PacketLayers.Bytes.Field
import PacketLayers.Bytes.Octets
import PacketLayers.Bytes.Span
import PacketLayers.Checksum.Crc32
import PacketLayers.Checksum.Internet
import PacketLayers.Checksum.PseudoHeader
import PacketLayers.Control.Icmpv4
import PacketLayers.Control.Icmpv6
import PacketLayers.Control.Igmp
import PacketLayers.Error
import PacketLayers.Layer.Discriminant
import PacketLayers.Layer.Dissector
import PacketLayers.Layer.Kind
import PacketLayers.Link.Ethernet
import PacketLayers.Link.Llc
import PacketLayers.Link.Loopback
import PacketLayers.Link.RawIp
import PacketLayers.Link.Vlan
import PacketLayers.Link.Wireless
import PacketLayers.Listing.Control
import PacketLayers.Listing.Link
import PacketLayers.Listing.Network
import PacketLayers.Listing.Standard
import PacketLayers.Listing.Table
import PacketLayers.Listing.Transport
import PacketLayers.Listing.Value
import PacketLayers.Main
import PacketLayers.Network.Arp
import PacketLayers.Network.Gre
import PacketLayers.Network.Ipv4
import PacketLayers.Network.Ipv6
import PacketLayers.Packet.Basic
import PacketLayers.Packet.Cursor
import PacketLayers.Packet.Decode
import PacketLayers.Packet.Inspect
import PacketLayers.Packet.Options
import PacketLayers.Packet.Recompute
import PacketLayers.Packet.Region
import PacketLayers.Packet.Registry
import PacketLayers.Packet.Serialize
import PacketLayers.Packet.Standard
import PacketLayers.Report.Outcome
import PacketLayers.Report.Request
import PacketLayers.Text.Blank
import PacketLayers.Text.Number
import PacketLayers.Transport.Tcp.Flags
import PacketLayers.Transport.Tcp.Header
import PacketLayers.Transport.Tcp.Option
import PacketLayers.Transport.Udp
import PacketLayers.Proofs.Assembly
import PacketLayers.Proofs.Checksum
import PacketLayers.Proofs.Decode
import PacketLayers.Proofs.Dissector
import PacketLayers.Proofs.Edit
import PacketLayers.Proofs.Emission
import PacketLayers.Proofs.Emission.Link
import PacketLayers.Proofs.Emission.Network
import PacketLayers.Proofs.Emission.Transport
import PacketLayers.Proofs.Field
import PacketLayers.Proofs.Idempotence
import PacketLayers.Proofs.Lawful.Control
import PacketLayers.Proofs.Lawful.Link
import PacketLayers.Proofs.Lawful.Network
import PacketLayers.Proofs.Lawful.Standard
import PacketLayers.Proofs.Lawful.Transport
import PacketLayers.Proofs.Lawful.Wireless
import PacketLayers.Proofs.Layout
import PacketLayers.Proofs.Legible
import PacketLayers.Proofs.Legible.Link
import PacketLayers.Proofs.Legible.Network
import PacketLayers.Proofs.Legible.Transport
import PacketLayers.Proofs.Lengths
import PacketLayers.Proofs.Plain
import PacketLayers.Proofs.Reachable
import PacketLayers.Proofs.Reading
import PacketLayers.Proofs.Recompute
import PacketLayers.Proofs.Serialize
import PacketLayers.Proofs.Stack
import PacketLayers.Theory.Number
import PacketLayers.Theory.Result
import PacketLayers.Proofs.Verdict
import PacketLayers.Proofs.Dispatch
import PacketLayers.Proofs.Steady
import PacketLayers.Proofs.Redecode
import PacketLayers.Proofs.Parse
import PacketLayers.Proofs.Locality
import PacketLayers.Proofs.Upfront
import PacketLayers.Proofs.Truncation
import PacketLayers.Proofs.Resizing
import PacketLayers.Proofs.Replacement
import PacketLayers.Proofs.Trimming
import PacketLayers.Proofs.Announcement
import PacketLayers.Proofs.Refusal
import PacketLayers.Proofs.Conversion
import PacketLayers.Proofs.Offloading
import PacketLayers.Proofs.Alias
import PacketLayers.Proofs.Reattachment
import PacketLayers.Proofs.FrameCheck
import PacketLayers.Proofs.Corruption
import PacketLayers.Proofs.Safety
import PacketLayers.Proofs.Accessors
import PacketLayers.Proofs.RoundTrip
import PacketLayers.Proofs.RoundTrip.Llc
import PacketLayers.Proofs.RoundTrip.Wireless
import PacketLayers.Proofs.RoundTrip.TcpOption
import PacketLayers.Proofs.RoundTrip.Tcp
import PacketLayers.Proofs.Bits
import PacketLayers.Proofs.RoundTrip.Link
import PacketLayers.Proofs.RoundTrip.Network
import PacketLayers.Proofs.RoundTrip.Message
import PacketLayers.Proofs.RoundTrip.Standard
import PacketLayers.Proofs.Emission.Length
import PacketLayers.Proofs.Stated
import PacketLayers.Proofs.Exchange
import PacketLayers.Proofs.Options
import PacketLayers.Proofs.OnesComplement
import PacketLayers.Proofs.FlatSum
import PacketLayers.Proofs.Splitting
import PacketLayers.Proofs.Padding
import PacketLayers.Proofs.HeaderLength
import PacketLayers.Proofs.Registration
import PacketLayers.Theory.Text
import PacketLayers.Proofs.AddressText
import PacketLayers.Proofs.Setters
import PacketLayers.Proofs.Setters.Headers
import PacketLayers.Proofs.EthernetText
import PacketLayers.Proofs.View
import PacketLayers.Proofs.Window
import PacketLayers.Proofs.Contiguity
