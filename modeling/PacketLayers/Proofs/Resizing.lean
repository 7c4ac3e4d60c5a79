/-
  PacketLayers.Proofs.Resizing
  ────────────────────────────────
  **A HEADER CUTS THE PAYLOAD THAT IT WAS BROUGHT UP TO DATE WITH.**

  Some protocols state the length of their payload, in sixteen bits; what
  follows it is padding.  With another payload the length is written anew, and
  cuts off that payload exactly.  A payload that the field has no room for is
  stated as zero, and then everything is taken, so there must be no padding.
  All other protocols take everything anyway, and never have padding.

    • `cut_resized` — a length of sixteen bits, written for a payload;
    • `resizes_of_mem_all` — the protocols of this library.
-/
import PacketLayers.Proofs.Steady

namespace PacketLayers

/-! ## §1. One header, another payload. -/

/-- The length fields of sixteen bits have room for header and payload. -/
def LayerKind.Fits (kind : LayerKind) (header payload : Nat) : Prop :=
  match kind with
  | .ipv4 | .udp => header + payload ≤ 65535
  | .ipv6 => payload ≤ 65535
  | _ => True

namespace Dissector

/-- A header that cut off a payload cuts off any other one that it is brought
up to date with, if there is one where the header names it, and the padding is
kept apart by a length that fits. -/
structure Resizes (d : Dissector) : Prop where
  cuts : ∀ {h h' : Bytes} {cx : Context} {old padding stated : Nat}, d.Whole h →
    d.recompute h cx = .ok h' → d.payloadLength h (old + padding) = .ok stated →
    old = min stated (old + padding) →
    d.kind.TakesBytes ∨ cx.payload ≠ [] ∧ (∃ payload o, d.next h payload = .ok (some o)) →
    padding = 0 ∨ d.kind.Fits h.length cx.payload.length →
      ∃ stated', d.payloadLength h' (cx.payload.length + padding) = .ok stated'
        ∧ cx.payload.length = min stated' (cx.payload.length + padding)

variable {d : Dissector}

/-- A protocol that takes all there is leaves no padding. -/
theorem Resizes.of_all (all : ∀ h available, d.payloadLength h available = .ok available) :
    d.Resizes where
  cuts {h h' cx old padding stated} _ _ states cut _ _ := by
    rw [all] at states
    injection states with states
    exact ⟨_, all _ _, by omega⟩

/-- A protocol that names nothing and takes no bytes has no payload to be
replaced. -/
theorem Resizes.of_nothing_inside (names : ∀ h payload, d.next h payload = .ok none)
    (takes : ¬ d.kind.TakesBytes) : d.Resizes where
  cuts _ _ _ _ inside _ := by
    rcases inside with htakes | ⟨_, payload, o, hnamed⟩
    · exact (takes htakes).elim
    · cases (names _ payload).symm.trans hnamed

/-- **A length of sixteen bits cuts what it was written for,** or everything
where it has no room. -/
theorem cut_resized (header payload padding : Nat) {written : UInt16} (filled : 0 < header + payload)
    (fits : padding = 0 ∨ header + payload ≤ 65535)
    (write : written = if 65535 < header + payload then 0 else UInt16.ofNat (header + payload)) :
    payload = min (if written.toNat = 0 then payload + padding else written.toNat - header)
      (payload + padding) := by
  subst write
  by_cases long : 65535 < header + payload
  · rw [if_pos long, if_pos (by decide)]
    omega
  · rw [if_neg long, UInt16.toNat_ofNat']
    have hwritten : (header + payload) % 2 ^ 16 = header + payload := Nat.mod_eq_of_lt (by omega)
    rw [hwritten, if_neg (by omega)]
    omega

end Dissector

/-! ## §2. Protocols that state a length. -/

/-- An Ethernet header that names its payload states no length. -/
theorem Ethernet.resizes : Ethernet.dissector.Resizes where
  cuts {h h' cx old padding stated} whole ok states cut inside _ := by
    have accepted := sized.accepts_of_whole whole
    obtain ⟨_, o, hnamed⟩ : ∃ payload o, dissector.next h payload = .ok (some o) :=
      inside.elim (fun takes => takes.elim) And.right
    have htype : ¬ (Layout.etherType.value h).isLength = true := by
      intro hlength
      have hnamed : next h = .ok (some o) := hnamed
      rw [next_eq accepted, if_pos hlength] at hnamed
      cases hnamed
    rcases recompute_cases whole ok with ⟨rfl, _⟩ | ⟨hlength, _⟩
    · rw [payloadLength_eq accepted, if_neg htype] at states
      injection states with states
      refine ⟨_, payloadLength_eq accepted _, ?_⟩
      rw [if_neg htype]
      omega
    · exact absurd hlength htype

/-- An IPv4 header cuts what it was brought up to date with, whatever it cut
before. -/
theorem Ipv4.cuts {h h' : Bytes} {cx : Context} {padding : Nat} (whole : dissector.Whole h)
    (ok : dissector.recompute h cx = .ok h')
    (fits : padding = 0 ∨ dissector.kind.Fits h.length cx.payload.length) :
    ∃ stated, dissector.payloadLength h' (cx.payload.length + padding) = .ok stated
      ∧ cx.payload.length = min stated (cx.payload.length + padding) := by
  have long := (whole_iff.1 whole).1
  rcases derives.cases ok with ⟨_, rfl⟩ | ⟨short, _⟩
  · exact ⟨_, payloadLength_work whole cx _,
      Dissector.cut_resized h.length cx.payload.length padding (by omega) fits rfl⟩
  · exact absurd long short

theorem Ipv4.resizes : Ipv4.dissector.Resizes where
  cuts whole ok _ _ _ fits := Ipv4.cuts whole ok fits

theorem Ipv6.resizes : Ipv6.dissector.Resizes where
  cuts {h h' cx old padding stated} whole ok _ _ inside fits := by
    have long : 40 ≤ h.length := by rw [whole_iff.1 whole]
    have hsome : 0 < cx.payload.length :=
      List.length_pos_iff.2 (inside.elim (fun takes => takes.elim) And.left)
    have fits : padding = 0 ∨ cx.payload.length ≤ 65535 := fits
    rcases derives.cases ok with ⟨_, rfl⟩ | ⟨short, _⟩
    · have hcut := Dissector.cut_resized 0 cx.payload.length padding (by omega)
        (by rw [Nat.zero_add]; exact fits) (by rw [Nat.zero_add])
      exact ⟨_, payloadLength_work long cx _, hcut⟩
    · exact absurd long short

theorem Udp.resizes : Udp.dissector.Resizes where
  cuts {h h' cx old padding stated} whole ok _ _ _ fits := by
    have accepted := accepts_of_whole whole
    have hlength : h.length = headerLength := whole_length whole
    have fits : padding = 0 ∨ headerLength + cx.payload.length ≤ 65535 := hlength ▸ fits
    rcases derives.cases ok with ⟨_, rfl⟩ | ⟨refused, _⟩
    · exact ⟨_, payloadLength_work (accepts_iff.1 accepted).1 cx _,
        Dissector.cut_resized 8 cx.payload.length padding (by omega) fits rfl⟩
    · exact absurd accepted refused

/-! ## §3. All of them. -/

theorem Dissector.resizes_of_mem_all {d : Dissector} (known : d ∈ all) : d.Resizes := by
  cases known using Dissector.all_cases with
  | ethernet => exact Ethernet.resizes
  | vlan | tcp | icmpv4 | icmpv6 | igmp | gre | loopback | rawIp | wireless | llc =>
    exact .of_all fun _ _ => rfl
  | arp => exact .of_nothing_inside (fun _ _ => rfl) id
  | ipv4 => exact Ipv4.resizes
  | ipv6 => exact Ipv6.resizes
  | udp => exact Udp.resizes

end PacketLayers
