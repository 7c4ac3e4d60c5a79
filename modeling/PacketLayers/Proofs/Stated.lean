/-
  PacketLayers.Proofs.Stated
  ────────────────────────────────
  **LENGTHS ARE READ AS THEY WERE WRITTEN.**

  Four protocols state how long their payload is, so that bytes behind it are
  padding: Ethernet if its type is a length, IPv4 with its header, UDP likewise,
  and IPv6 without.  Each writes the length of the payload it is brought up to
  date with, and reads it back, however many bytes follow:

    • `written_word` — a sum below `2 ^ 16` is written whole, and zero only if
      it is zero;
    • `payload_told_from_padding` — so the payload is told from the padding, apart from an
      empty one behind an IPv6 header, whose length zero stands for everything.
-/
import PacketLayers.Proofs.Resizing

namespace PacketLayers

/-- The length field of the header counts payload bytes, and has room for so
many. -/
def LayerKind.Counts (kind : LayerKind) (h : Bytes) (payload : Nat) : Prop :=
  match kind with
  | .ethernet => (Ethernet.Layout.etherType.value h).isLength = true ∧ payload ≤ 1500
  | .ipv4 | .udp => h.length + payload ≤ 65535
  | .ipv6 => payload ≤ 65535
  | _ => False

/-- A length that fits is written whole. -/
theorem written_word {n : Nat} (fits : n ≤ 65535) :
    (if 65535 < n then 0 else UInt16.ofNat n).toNat = n := by
  rw [if_neg (Nat.not_lt.2 fits), UInt16.toNat_ofNat_of_lt' (Nat.lt_succ_of_le fits)]

section

variable {h : Bytes} {cx : Context}

/-- A type that is a length becomes the length of the payload. -/
theorem Ethernet.recompute_states (whole : dissector.Whole h)
    (counts : LayerKind.ethernet.Counts h cx.payload.length) (k : Nat) :
    ∃ h', dissector.recompute h cx = .ok h'
      ∧ dissector.payloadLength h' (cx.payload.length + k) = .ok cx.payload.length := by
  have accepted := sized.accepts_of_whole whole
  obtain ⟨hlength, hshort⟩ := counts
  have hrefreshed : refreshed h cx
      = Layout.etherType.put (Assigned.ofCode (UInt16.ofNat cx.payload.length)) h :=
    if_pos ⟨hlength, hshort⟩
  refine ⟨_, (recompute_eq h cx).trans (by rw [if_pos accepted, hrefreshed]), ?_⟩
  rw [payloadLength_eq (accepts_put accepted _), value_put_length accepted,
    isLength_ofNat hshort, if_pos rfl, toNat_length hshort]

theorem Ipv4.recompute_states (whole : dissector.Whole h)
    (counts : LayerKind.ipv4.Counts h cx.payload.length) (k : Nat) :
    ∃ h', dissector.recompute h cx = .ok h'
      ∧ dissector.payloadLength h' (cx.payload.length + k) = .ok cx.payload.length := by
  have long := (whole_iff.1 whole).1
  have hwritten : (totalOf h cx.payload).toNat = h.length + cx.payload.length :=
    written_word counts
  refine ⟨_, derives.works cx long, (payloadLength_work whole cx _).trans ?_⟩
  rw [hwritten, if_neg (by omega), Nat.add_sub_cancel_left]

theorem Udp.recompute_states (whole : dissector.Whole h)
    (counts : LayerKind.udp.Counts h cx.payload.length) (k : Nat) :
    ∃ h', dissector.recompute h cx = .ok h'
      ∧ dissector.payloadLength h' (cx.payload.length + k) = .ok cx.payload.length := by
  have accepted := accepts_of_whole whole
  have hlength : h.length = 8 := whole_length whole
  have hwritten : (lengthOf cx.payload).toNat = 8 + cx.payload.length :=
    written_word (hlength ▸ counts)
  refine ⟨_, derives.works cx accepted, (payloadLength_work (accepts_iff.1 accepted).1 cx _).trans ?_⟩
  rw [hwritten, if_neg (by omega)]
  exact congrArg Except.ok (@Nat.add_sub_cancel_left 8 cx.payload.length)

/-- The length zero stands for all that is there, padding included. -/
theorem Ipv6.recompute_states (whole : dissector.Whole h)
    (counts : LayerKind.ipv6.Counts h cx.payload.length) (k : Nat) :
    ∃ h', dissector.recompute h cx = .ok h'
      ∧ dissector.payloadLength h' (cx.payload.length + k)
        = .ok (if cx.payload = [] then k else cx.payload.length) := by
  have long : 40 ≤ h.length := by rw [whole_iff.1 whole]
  have hwritten : (lengthOf cx.payload).toNat = cx.payload.length := written_word counts
  refine ⟨_, derives.works cx long, (payloadLength_work long cx _).trans ?_⟩
  rw [hwritten]
  by_cases empty : cx.payload = []
  · rw [if_pos empty, empty, List.length_nil, if_pos rfl, Nat.zero_add]
  · rw [if_neg empty, if_neg (mt List.length_eq_zero_iff.1 empty)]

end

/-- **Payload is told from padding by the length that was written.**  A header
that is accepted as a whole and whose length field counts the payload is brought
up to date in either mode, and then states exactly that payload in front of any
number of further bytes.  An empty payload behind an IPv6 header is the
exception: its length is zero, which stands for all the bytes there are. -/
theorem payload_told_from_padding {d : Dissector} (known : d ∈ Dissector.all) {h : Bytes}
    (whole : d.headerLength h = .ok h.length) {cx : Context}
    (counts : d.kind.Counts h cx.payload.length) (k : Nat) :
    ∃ h', d.recompute h cx = .ok h'
      ∧ d.payloadLength h' (cx.payload.length + k)
        = .ok (if d.kind = .ipv6 ∧ cx.payload = [] then k else cx.payload.length) := by
  have whole : d.Whole h := ⟨[], by rw [List.append_nil]; exact whole⟩
  cases known using Dissector.all_cases with
  | ethernet => exact Ethernet.recompute_states whole counts k
  | ipv4 => exact Ipv4.recompute_states whole counts k
  | udp => exact Udp.recompute_states whole counts k
  | ipv6 =>
    obtain ⟨h', hwork, hstates⟩ := Ipv6.recompute_states whole counts k
    exact ⟨h', hwork, hstates.trans (by simp [Ipv6.dissector])⟩
  | _ => exact counts.elim

/-- The longest datagram that IPv4 can state, with one byte of padding, and an
empty Ethernet frame with a length in its type field, padded to sixty bytes. -/
theorem payload_told_from_padding_limits :
    let datagram : Context := ⟨List.replicate 65515 0, none, .fill⟩
    let frame : Context := ⟨[], none, .keep⟩
    (∃ h', Ipv4.dissector.recompute Ipv4.dissector.defaultHeader datagram = .ok h'
        ∧ Ipv4.dissector.payloadLength h' (65515 + 1) = .ok 65515)
      ∧ ∃ h', Ethernet.dissector.recompute (List.replicate 13 0 ++ [7]) frame = .ok h'
        ∧ Ethernet.dissector.payloadLength h' 46 = .ok 0 := by
  intro datagram frame
  have hlength : datagram.payload.length = 65515 := List.length_replicate
  have hcounts : LayerKind.ipv4.Counts Ipv4.dissector.defaultHeader datagram.payload.length := by
    rw [hlength]
    show 20 + 65515 ≤ 65535
    decide
  have hdatagram := @payload_told_from_padding Ipv4.dissector (by simp [Dissector.all])
    Ipv4.dissector.defaultHeader rfl datagram hcounts 1
  have hframe := @payload_told_from_padding Ethernet.dissector (by simp [Dissector.all])
    (List.replicate 13 0 ++ [7]) rfl frame ⟨by decide, by decide⟩ 46
  rw [hlength] at hdatagram
  exact ⟨hdatagram, hframe⟩

/-- Five bytes of padding behind an empty IPv6 packet are its payload after the
header was brought up to date. -/
theorem payload_told_from_padding_empty :
    Ipv6.dissector.headerLength Ipv6.dissector.defaultHeader
        = .ok Ipv6.dissector.defaultHeader.length
      ∧ LayerKind.ipv6.Counts Ipv6.dissector.defaultHeader ([] : Bytes).length
      ∧ ∃ h', Ipv6.dissector.recompute Ipv6.dissector.defaultHeader ⟨[], none, .fill⟩ = .ok h'
        ∧ Ipv6.dissector.payloadLength h' (([] : Bytes).length + 5) = .ok 5 :=
  ⟨rfl, Nat.zero_le _, _, rfl, by decide⟩

end PacketLayers
