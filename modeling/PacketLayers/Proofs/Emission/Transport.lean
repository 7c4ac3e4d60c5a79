/-
  PacketLayers.Proofs.Emission.Transport
  ────────────────────────────────
  **TRANSPORT AND CONTROL ARE WRITTEN WHOLE.**

  All but TCP have eight bytes.  A TCP header is written in whole words, and
  what is written is known byte by byte.
-/
import PacketLayers.Proofs.Emission
import PacketLayers.Proofs.Legible.Transport
import PacketLayers.Proofs.RoundTrip.Tcp

namespace PacketLayers

/-! ## §1. Headers of eight bytes. -/

theorem Udp.emits (r : Udp.Header) :
    Udp.dissector.Emits (fun _ => True) (WireHeader.toBytes r) := by
  have hwhole : ∀ {h : Bytes}, h.length = 8 → Udp.Layout.length.value h = 8 →
      Udp.dissector.Whole h := by
    intro h hlength hvalue
    refine ⟨[], HeaderFormat.fixedLength_eq_ok.2 ⟨?_, hlength⟩⟩
    rw [List.append_nil, Udp.accepts_iff, hlength, hvalue]
    decide
  exact ⟨_, rfl, hwhole rfl rfl, trivial⟩

theorem Icmpv4.emits (r : Icmpv4.Message) :
    Icmpv4.dissector.Emits (fun _ => True) (WireHeader.toBytes r) := by
  cases r <;> exact ⟨_, rfl, (Dissector.whole_fixed rfl).2 rfl, trivial⟩

theorem Icmpv6.emits (r : Icmpv6.Message) :
    Icmpv6.dissector.Emits (fun _ => True) (WireHeader.toBytes r) := by
  cases r <;> exact ⟨_, rfl, (Dissector.whole_fixed rfl).2 rfl, trivial⟩

theorem Igmp.emits (r : Igmp.Message) :
    Igmp.dissector.Emits (fun _ => True) (WireHeader.toBytes r) := by
  have hwrites : ∀ type time (group : Ipv4Address), Writes 8 []
      (Igmp.Layout.type.set type (List.replicate 8 0)
        >>= Igmp.Layout.maxResponseTime.set time
        >>= Igmp.Layout.group.set group
        >>= Igmp.Layout.checksum.set 0) := by
    intro type time group
    exact ((((Writes.zeros 8).set (Field.lawful_word Igmp.MessageType 0 1) (by decide)
      (Nat.zero_le _) type).set (Field.lawful_word UInt8 1 1) (by decide) (Nat.zero_le _) time).set
      (Field.lawful_octets 4 4) (by decide) (Nat.zero_le _) group).set
      Control.lawful_checksum (by decide) (Nat.zero_le _) 0
  exact Dissector.emits_of_writes (hwrites r.parts.1 r.parts.2.1 r.parts.2.2) fun h hlength _ =>
    ⟨(Dissector.whole_fixed rfl).2 hlength, trivial⟩

/-! ## §2. TCP. -/

/-- The header that is written states its own length. -/
theorem Tcp.emits (r : Tcp.Header) :
    Tcp.dissector.Emits (fun _ => True) (WireHeader.toBytes r) := by
  have hzeros : (List.replicate r.size (0 : UInt8)).length = r.size := List.length_replicate
  have hemit := r.emit_eq (Nat.le_of_eq hzeros.symm)
  rw [List.drop_of_length_le (Nat.le_of_eq hzeros), List.append_nil] at hemit
  refine ⟨r.headerBytes, hemit, Tcp.whole_iff.2 ⟨?_, ?_⟩, trivial⟩
  · rw [r.length_headerBytes]
    exact r.size_bounds.1
  · rw [r.length_headerBytes]
    exact r.toNat_headerLength r.optionBytes

end PacketLayers
