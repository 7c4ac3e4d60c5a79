/-
  PacketLayers.Proofs.Upfront
  ────────────────────────────────
  **EVERY PROTOCOL DECIDES UP FRONT.**

  How bytes are cut and named is decided by what comes first: the length of a
  header by its own bytes, the name of a payload by the header and at most one
  byte behind it, the length of a payload by the header alone, if the header
  states one.  How much follows is never asked, except whether anything does.

    • `Dissector.Upfront` — these three promises;
    • `upfront_of_mem_all` — the protocols of this library keep them.
-/
import PacketLayers.Proofs.Legible.Link
import PacketLayers.Proofs.Legible.Network
import PacketLayers.Proofs.Legible.Transport

namespace PacketLayers

/-! ## §1. The promises. -/

namespace Dissector

/-- A dissector that decides by what comes first. -/
structure Upfront (d : Dissector) : Prop where
  /-- A header ends where it ends, whatever follows. -/
  reads : ∀ {h rest rest' : Bytes}, d.headerLength (h ++ rest) = .ok h.length → h ++ rest' ≠ [] →
    d.headerLength (h ++ rest') = .ok h.length
  /-- Of a payload only the first byte has a say in what it is named. -/
  next : ∀ (h : Bytes) {payload payload' : Bytes}, payload'.head? = payload.head? →
    d.next h payload' = d.next h payload
  /-- A header states the length of its payload, or takes all there is. -/
  measures : ∀ h : Bytes, ∃ stated : Option Nat,
    ∀ available, d.payloadLength h available = .ok (stated.getD available)

variable {d : Dissector}

/-- A dissector that states no length, and does not look behind its header. -/
theorem Upfront.of_legible {fair : Bytes → Prop} (legible : d.Legible fair)
    (next : ∀ h payload payload', d.next h payload' = d.next h payload)
    (measures : ∀ h : Bytes, ∃ stated : Option Nat,
      ∀ available, d.payloadLength h available = .ok (stated.getD available)) : d.Upfront where
  reads cut _ := legible.reads ⟨_, cut⟩ _
  next h _ _ _ := next h _ _
  measures := measures

/-- A length that is stated unless some field is zero. -/
theorem getD_ite (c : Prop) [Decidable c] (stated available : Nat) :
    (if c then none else some stated).getD available = if c then available else stated := by
  by_cases h : c
  · rw [if_pos h, if_pos h, Option.getD_none]
  · rw [if_neg h, if_neg h, Option.getD_some]

/-- A header that its format refuses takes all there is. -/
theorem measures_of_guarded {f : HeaderFormat} {h : Bytes} {ask : Nat → Access Nat}
    (guarded : ∀ available, d.payloadLength h available = f.guarded h available (ask available))
    (accepted : f.accepts h = true → ∃ stated : Option Nat,
      ∀ available, d.payloadLength h available = .ok (stated.getD available)) :
    ∃ stated : Option Nat, ∀ available, d.payloadLength h available = .ok (stated.getD available) := by
  by_cases accepts : f.accepts h = true
  · exact accepted accepts
  · refine ⟨none, fun available => ?_⟩
    rw [guarded, HeaderFormat.guarded_of_refused accepts]
    rfl

end Dissector

/-! ## §2. Link layers. -/

theorem Ethernet.upfront : Ethernet.dissector.Upfront :=
  .of_legible legible (fun _ _ _ => rfl) fun h =>
    Dissector.measures_of_guarded (fun _ => rfl) fun accepted =>
      ⟨if ¬ (Layout.etherType.value h).isLength = true then none
        else some (Layout.etherType.value h).code.toNat, fun available => by
        rw [payloadLength_eq accepted, Dissector.getD_ite, ite_not]⟩

theorem Vlan.upfront : Vlan.dissector.Upfront :=
  .of_legible legible (fun _ _ _ => rfl) fun _ => ⟨none, fun _ => rfl⟩

theorem Loopback.upfront : Loopback.dissector.Upfront :=
  .of_legible legible (fun _ _ _ => rfl) fun _ => ⟨none, fun _ => rfl⟩

theorem Llc.upfront : Llc.dissector.Upfront :=
  .of_legible legible (fun _ _ _ => rfl) fun _ => ⟨none, fun _ => rfl⟩

theorem Wireless.upfront : Wireless.dissector.Upfront :=
  .of_legible legible (fun _ _ _ => rfl) fun _ => ⟨none, fun _ => rfl⟩

/-- Raw IP has an empty header, reads only whether anything follows, and names
the payload by its first byte. -/
theorem RawIp.upfront : RawIp.dissector.Upfront where
  reads {h rest rest'} cut filled := by
    obtain rfl : h = [] := whole_iff.1 ⟨rest, cut⟩
    show (if rest'.isEmpty then .error .truncated else .ok 0 : Except Error Nat) = .ok 0
    rw [if_neg (by simpa using filled)]
  next h payload payload' head := by
    show Except.ok (next payload') = Except.ok (next payload)
    cases payload <;> cases payload' <;> simp_all [next]
  measures _ := ⟨none, fun _ => rfl⟩

/-! ## §3. Network layers. -/

theorem Arp.upfront : Arp.dissector.Upfront :=
  .of_legible legible (fun _ _ _ => rfl) fun _ => ⟨some 0, fun _ => rfl⟩

theorem Ipv6.upfront : Ipv6.dissector.Upfront :=
  .of_legible legible (fun _ _ _ => rfl) fun h =>
    Dissector.measures_of_guarded (fun _ => rfl) fun accepted =>
      ⟨if (Layout.payloadLength.value h).toNat = 0 then none
        else some (Layout.payloadLength.value h).toNat, fun available => by
        rw [payloadLength_eq (accepts_iff.1 accepted), Dissector.getD_ite]⟩

theorem Ipv4.upfront : Ipv4.dissector.Upfront :=
  .of_legible legible (fun _ _ _ => rfl) fun h =>
    Dissector.measures_of_guarded (fun _ => rfl) fun accepted =>
      ⟨if (Layout.totalLength.value h).toNat = 0 then none
        else some ((Layout.totalLength.value h).toNat - h.length), fun available => by
        rw [payloadLength_eq accepted, Dissector.getD_ite]⟩

theorem Gre.upfront : Gre.dissector.Upfront :=
  .of_legible legible (fun _ _ _ => rfl) fun _ => ⟨none, fun _ => rfl⟩

/-! ## §4. Transport and control messages. -/

theorem Udp.upfront : Udp.dissector.Upfront :=
  .of_legible legible (fun _ _ _ => rfl) fun h =>
    Dissector.measures_of_guarded (fun _ => rfl) fun accepted =>
      ⟨if (Layout.length.value h).toNat = 0 then none
        else some ((Layout.length.value h).toNat - headerLength), fun available => by
        rw [payloadLength_eq accepted, Dissector.getD_ite]⟩

theorem Tcp.upfront : Tcp.dissector.Upfront :=
  .of_legible legible (fun _ _ _ => rfl) fun _ => ⟨none, fun _ => rfl⟩

theorem Icmpv4.upfront : Icmpv4.dissector.Upfront :=
  .of_legible legible (fun _ _ _ => rfl) fun _ => ⟨none, fun _ => rfl⟩

theorem Icmpv6.upfront : Icmpv6.dissector.Upfront :=
  .of_legible legible (fun _ _ _ => rfl) fun _ => ⟨none, fun _ => rfl⟩

theorem Igmp.upfront : Igmp.dissector.Upfront :=
  .of_legible legible (fun _ _ _ => rfl) fun _ => ⟨none, fun _ => rfl⟩

/-! ## §5. All of them. -/

theorem Dissector.upfront_of_mem_all {d : Dissector} (known : d ∈ all) : d.Upfront := by
  cases known using Dissector.all_cases with
  | ethernet => exact Ethernet.upfront
  | vlan => exact Vlan.upfront
  | arp => exact Arp.upfront
  | ipv4 => exact Ipv4.upfront
  | ipv6 => exact Ipv6.upfront
  | tcp => exact Tcp.upfront
  | udp => exact Udp.upfront
  | icmpv4 => exact Icmpv4.upfront
  | icmpv6 => exact Icmpv6.upfront
  | igmp => exact Igmp.upfront
  | gre => exact Gre.upfront
  | loopback => exact Loopback.upfront
  | rawIp => exact RawIp.upfront
  | wireless => exact Wireless.upfront
  | llc => exact Llc.upfront

end PacketLayers
