/-
  PacketLayers.Proofs.Lawful.Standard
  ────────────────────────────────
  **EVERY PROTOCOL KNOWN HERE IS LAWFUL.**
-/
import PacketLayers.Packet.Standard
import PacketLayers.Proofs.Lawful.Control
import PacketLayers.Proofs.Lawful.Link
import PacketLayers.Proofs.Lawful.Network
import PacketLayers.Proofs.Lawful.Transport
import PacketLayers.Proofs.Lawful.Wireless

namespace PacketLayers

/-- One case for each dissector of the library. -/
@[elab_as_elim]
theorem Dissector.all_cases {motive : (d : Dissector) → d ∈ all → Prop}
    (ethernet : ∀ h, motive Ethernet.dissector h)
    (vlan : ∀ h, motive Vlan.dissector h)
    (arp : ∀ h, motive Arp.dissector h)
    (ipv4 : ∀ h, motive Ipv4.dissector h)
    (ipv6 : ∀ h, motive Ipv6.dissector h)
    (tcp : ∀ h, motive Tcp.dissector h)
    (udp : ∀ h, motive Udp.dissector h)
    (icmpv4 : ∀ h, motive Icmpv4.dissector h)
    (icmpv6 : ∀ h, motive Icmpv6.dissector h)
    (igmp : ∀ h, motive Igmp.dissector h)
    (gre : ∀ h, motive Gre.dissector h)
    (loopback : ∀ h, motive Loopback.dissector h)
    (rawIp : ∀ h, motive RawIp.dissector h)
    (wireless : ∀ h, motive Wireless.dissector h)
    (llc : ∀ h, motive Llc.dissector h)
    {d : Dissector} (known : d ∈ all) : motive d known := by
  have hknown := known
  simp only [all, List.mem_cons, List.not_mem_nil, or_false] at hknown
  rcases hknown with rfl | rfl | rfl | rfl | rfl | rfl | rfl | rfl | rfl | rfl | rfl | rfl | rfl
    | rfl | rfl
  · exact ethernet _
  · exact vlan _
  · exact arp _
  · exact ipv4 _
  · exact ipv6 _
  · exact tcp _
  · exact udp _
  · exact icmpv4 _
  · exact icmpv6 _
  · exact igmp _
  · exact gre _
  · exact loopback _
  · exact rawIp _
  · exact wireless _
  · exact llc _

/-- The dissectors of the library are lawful. -/
theorem Dissector.lawful_of_mem_all {d : Dissector} (known : d ∈ all) : d.Lawful := by
  cases known using Dissector.all_cases with
  | ethernet => exact Ethernet.lawful
  | vlan => exact Vlan.lawful
  | arp => exact Arp.lawful
  | ipv4 => exact Ipv4.lawful
  | ipv6 => exact Ipv6.lawful
  | tcp => exact Tcp.lawful
  | udp => exact Udp.lawful
  | icmpv4 => exact Icmpv4.lawful
  | icmpv6 => exact Icmpv6.lawful
  | igmp => exact Igmp.lawful
  | gre => exact Gre.lawful
  | loopback => exact Loopback.lawful
  | rawIp => exact RawIp.lawful
  | wireless => exact Wireless.lawful
  | llc => exact Llc.lawful

namespace Registry

/-- Entries registered one after the other are found last first. -/
theorem instructions_foldl (table : List (Discriminant × Dissector)) (r : Registry) :
    (table.foldl (fun r (o, d) => r.register o d) r).instructions
      = (table.map fun entry => (entry.1, Instruction.dissect entry.2)).reverse
        ++ r.instructions := by
  induction table generalizing r with
  | nil => rfl
  | cons entry rest ih =>
    rw [List.foldl_cons, ih, List.map_cons, List.reverse_cons, List.append_assoc]
    rfl

theorem standardDissectors_known : ∀ entry ∈ standardDissectors, entry.2 ∈ Dissector.all := by
  intro entry hentry
  rcases List.mem_append.1 hentry with hentry | hentry
  · simp only [List.mem_cons, List.not_mem_nil, or_false] at hentry
    rcases hentry with rfl | rfl | rfl | rfl | rfl | rfl | rfl | rfl | rfl | rfl | rfl | rfl | rfl
      | rfl | rfl | rfl | rfl | rfl | rfl | rfl | rfl | rfl | rfl | rfl | rfl <;>
      simp [Dissector.all]
  · obtain ⟨_, _, rfl⟩ := List.mem_map.1 hentry
    simp [Dissector.all]

/-- The entries of the registry of the library, latest first. -/
theorem standard_instructions : standard.instructions
    = (standardDissectors.map fun entry => (entry.1, Instruction.dissect entry.2)).reverse := by
  have hfold := instructions_foldl standardDissectors empty
  rw [show empty.instructions = [] from rfl, List.append_nil] at hfold
  exact hfold

/-- What the registry of the library dissects is in its table. -/
theorem mem_standardDissectors {o : Discriminant} {d : Dissector}
    (stands : (o, Instruction.dissect d) ∈ standard.instructions) : (o, d) ∈ standardDissectors := by
  rw [standard_instructions, List.mem_reverse] at stands
  obtain ⟨entry, hentry, hsame⟩ := List.mem_map.1 stands
  injection hsame with ho hd
  injection hd with hd
  rw [← ho, ← hd]
  exact hentry

/-- The registry of the library dissects with the dissectors of the library. -/
theorem standard_uses : standard.Uses (· ∈ Dissector.all) := by
  rintro ⟨o, instruction⟩ hentry d rfl
  exact standardDissectors_known _ (mem_standardDissectors hentry)

end Registry

end PacketLayers
