/-
  PacketLayers.Proofs.Emission.Length
  ────────────────────────────────
  **PAYLOAD LENGTHS THAT ARE WRITTEN FOR CONTENTS.**

  The contents of an IP header state the length of the payload as any number;
  the header has sixteen bits for it.  Writing keeps the low sixteen bits, of
  the sum in the case of IPv4, so a length that does not fit is honoured only
  if these bits come out as zero.
-/
import PacketLayers.Proofs.RoundTrip.Network

namespace PacketLayers

open PacketLayers.Field

/-! ## §1. IPv4. -/

namespace Ipv4.Header

/-- What the header that is written says of the payload. -/
theorem payloadLength_runs (r : Header) (checksum : UInt16) (available : Nat) :
    dissector.payloadLength (Run.bytes minHeaderLength (r.runs checksum)) available
      = .ok (if (20 + r.payloadLength) % 2 ^ 16 = 0 then available
        else (20 + r.payloadLength) % 2 ^ 16 - 20) := by
  have hlength : (Run.bytes minHeaderLength (r.runs checksum)).length = 20 :=
    Bytes.length_ofNat _ _
  rw [payloadLength_eq (r.accepts_runs checksum), r.totalLength_runs checksum, toNat_total, hlength]

end Ipv4.Header

/-! ## §2. IPv6. -/

namespace Ipv6.Header

theorem payloadLength_runs (r : Header) (available : Nat) :
    dissector.payloadLength (Run.bytes headerLength r.runs) available
      = .ok (if r.payloadLength % 2 ^ 16 = 0 then available else r.payloadLength % 2 ^ 16) := by
  have hlong : 40 ≤ (Run.bytes headerLength r.runs).length :=
    Nat.le_of_eq (Bytes.length_ofNat _ _).symm
  rw [payloadLength_eq hlong, r.length_runs, UInt16.toNat_ofNat']

end Ipv6.Header

/-! ## §3. Both. -/

/-- **Which payload lengths are honoured.**  Contents with any payload length
are written, over whatever the buffer holds.  The header then states the total
length modulo `2 ^ 16` in the case of IPv4, and the payload length modulo
`2 ^ 16` in the case of IPv6; zero stands for all that is available.  So the
length is honoured exactly if it fits, or if nothing is left of it. -/
theorem emit_honours_payloadLength (r : Ipv4.Header) (r' : Ipv6.Header) (mode : ChecksumMode)
    {buffer buffer' : Bytes} (length : buffer.length = WireHeader.size r)
    (length' : buffer'.length = WireHeader.size r') :
    (∃ header, r.emit mode buffer = .ok header
        ∧ (∀ available, Ipv4.dissector.payloadLength header available
          = .ok (if (20 + r.payloadLength) % 2 ^ 16 = 0 then available
            else (20 + r.payloadLength) % 2 ^ 16 - 20))
        ∧ (Ipv4.dissector.payloadLength header r.payloadLength = .ok r.payloadLength
          ↔ 20 + r.payloadLength < 2 ^ 16 ∨ (20 + r.payloadLength) % 2 ^ 16 = 0))
      ∧ ∃ header, r'.emit buffer' = .ok header
        ∧ (∀ available, Ipv6.dissector.payloadLength header available
          = .ok (if r'.payloadLength % 2 ^ 16 = 0 then available
            else r'.payloadLength % 2 ^ 16))
        ∧ (Ipv6.dissector.payloadLength header r'.payloadLength = .ok r'.payloadLength
          ↔ r'.payloadLength < 2 ^ 16 ∨ r'.payloadLength % 2 ^ 16 = 0) := by
  constructor
  · have hwritten := (r.written_emit mode length).eq_ok_of_tile (r.tile_runs _)
    refine ⟨_, hwritten, r.payloadLength_runs _, ?_⟩
    rw [r.payloadLength_runs, Except.ok.injEq]
    split <;> omega
  · have hwritten := (r'.written_emit length').eq_ok_of_tile r'.tile_runs
    refine ⟨_, hwritten, r'.payloadLength_runs, ?_⟩
    rw [r'.payloadLength_runs, Except.ok.injEq]
    split <;> omega

/-- The longest payload that an IPv4 header can state, and one of four
gigabytes whose low sixteen bits are zero in the header of IPv6. -/
theorem emit_honours_payloadLength_limits :
    let least : Ipv4.Header := ⟨.unspecified, .unspecified, .udp, 65515, 64⟩
    let jumbo : Ipv6.Header := ⟨.unspecified, .unspecified, .udp, 2 ^ 32, 64⟩
    (∃ header, least.emit .fill (List.replicate 20 0xff) = .ok header
        ∧ Ipv4.dissector.payloadLength header 65515 = .ok 65515)
      ∧ ∃ header, jumbo.emit (List.replicate 40 0xff) = .ok header
        ∧ Ipv6.dissector.payloadLength header (2 ^ 32) = .ok (2 ^ 32) := by
  intro least jumbo
  obtain ⟨⟨header, hwritten, _, honoured⟩, header', hwritten', _, honoured'⟩ :=
    @emit_honours_payloadLength least jumbo .fill (List.replicate 20 0xff) (List.replicate 40 0xff)
      rfl rfl
  exact ⟨⟨header, hwritten, honoured.2 (.inl (by decide))⟩,
    header', hwritten', honoured'.2 (.inr (by decide))⟩

/-- A payload of 65537 bytes is written as one of a single byte, and one of
65536 bytes behind an IPv4 header as an empty one. -/
theorem emit_narrows_payloadLength :
    let jumbo : Ipv6.Header := ⟨.unspecified, .unspecified, .udp, 65537, 64⟩
    let large : Ipv4.Header := ⟨.unspecified, .unspecified, .udp, 65536, 64⟩
    ((jumbo.emit (List.replicate 40 0)).map fun h => Ipv6.Layout.payloadLength.value h) = .ok 1
      ∧ (jumbo.emit (List.replicate 40 0) >>= fun h => Ipv6.dissector.payloadLength h 65537) = .ok 1
      ∧ (large.emit .fill (List.replicate 20 0) >>= fun h =>
        Ipv4.dissector.payloadLength h 65536) = .ok 0 := by
  decide

end PacketLayers
