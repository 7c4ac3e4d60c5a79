/-
  PacketLayers.Proofs.RoundTrip.Standard
  ────────────────────────────────
  **HEADERS WITHOUT OPTIONS ARE READ BACK.**

  What was read from any bytes is written as one header, whatever the buffer
  held, and read from that header again: nothing of the buffer is left in it
  and nothing of the contents is lost.
-/
import PacketLayers.Proofs.RoundTrip.Link
import PacketLayers.Proofs.RoundTrip.Message
import PacketLayers.Proofs.RoundTrip.Network

namespace PacketLayers

/-- **Contents that were read come back**, for every protocol whose header is
written without options, with the checksum of IPv4 filled or left alone. -/
theorem headers_roundTrip :
    RoundTrips Ethernet.Header.parse WireHeader.size Ethernet.Header.emit
      ∧ RoundTrips Vlan.Header.parse WireHeader.size Vlan.Header.emit
      ∧ RoundTrips Arp.Message.parse WireHeader.size Arp.Message.emit
      ∧ (∀ mode, RoundTrips Ipv4.Header.parse WireHeader.size fun r => r.emit mode)
      ∧ RoundTrips Ipv6.Header.parse WireHeader.size Ipv6.Header.emit
      ∧ RoundTrips Udp.Header.parse WireHeader.size Udp.Header.emit
      ∧ RoundTrips Icmpv4.Message.parse WireHeader.size Icmpv4.Message.emit
      ∧ RoundTrips Icmpv6.Message.parse WireHeader.size Icmpv6.Message.emit
      ∧ RoundTrips Igmp.Message.parse WireHeader.size Igmp.Message.emit
      ∧ RoundTrips Gre.Header.parse WireHeader.size Gre.Header.emit
      ∧ RoundTrips Loopback.Header.parse (fun _ => Loopback.headerLength) Loopback.Header.emit :=
  ⟨Ethernet.Header.roundTrips, Vlan.Header.roundTrips, Arp.Message.roundTrips,
    Ipv4.Header.roundTrips, Ipv6.Header.roundTrips, Udp.Header.roundTrips,
    Icmpv4.Message.roundTrips, Icmpv6.Message.roundTrips, Igmp.Message.roundTrips,
    Gre.Header.roundTrips, Loopback.Header.roundTrips⟩

/-- An IPv4 header with a word of options and a fragment offset is written
without both, and states a total that is four bytes less; a GRE header with key
and sequence number, but no checksum, keeps its words. -/
theorem headers_roundTrip_words :
    let datagram : Bytes := [0x46, 0xb8, 0, 100, 1, 2, 0xe0, 9, 64, 17, 0xab, 0xcd, 10, 0, 0, 1,
      10, 0, 0, 2, 1, 1, 1, 0]
    let tunnel : Bytes := [0x30, 0, 0x08, 0, 0, 0, 0, 7, 0, 0, 1, 0, 0xff]
    (∃ r header, Ipv4.Header.parse datagram = .ok r ∧ r.payloadLength = 76
        ∧ r.emit .fill (datagram.take 20) = .ok header
        ∧ header = [0x45, 0, 0, 96, 0, 0, 0x40, 0, 64, 17, 0x26, 0x8b, 10, 0, 0, 1, 10, 0, 0, 2]
        ∧ Ipv4.Header.parse header = .ok r)
      ∧ ∃ r header, Gre.Header.parse tunnel = .ok r ∧ r.size = 12
        ∧ r.emit (List.replicate 12 0xff) = .ok header ∧ header = tunnel.take 12
        ∧ Gre.Header.parse header = .ok r := by
  intro datagram tunnel
  obtain ⟨_, _, _, hipv4, _, _, _, _, _, hgre, _⟩ := headers_roundTrip
  have hdatagram : Ipv4.Header.parse datagram
      = .ok ⟨⟨[10, 0, 0, 1], rfl⟩, ⟨[10, 0, 0, 2], rfl⟩, .udp, 76, 64⟩ := by decide
  have htunnel : Gre.Header.parse tunnel = .ok ⟨.ipv4, false, some 7, some 256⟩ := by decide
  obtain ⟨header, _, hwrites, hagain⟩ := hipv4 .fill datagram _ hdatagram
  obtain ⟨header', _, hwrites', hagain'⟩ := hgre tunnel _ htunnel
  refine ⟨⟨_, header, hdatagram, rfl, hwrites _ rfl, ?_, hagain⟩,
    _, header', htunnel, rfl, hwrites' _ rfl, ?_, hagain'⟩
  · exact Except.ok.inj ((hwrites (datagram.take 20) rfl).symm.trans (by decide))
  · exact Except.ok.inj ((hwrites' (tunnel.take 12) rfl).symm.trans (by decide))

end PacketLayers
