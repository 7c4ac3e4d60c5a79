/-
  PacketLayers.Proofs.Legible
  ────────────────────────────────
  **WHAT DECODING NEEDS TO FIND IN A HEADER.**

  A layer that was built and brought up to date is decoded again.  For that
  its header has to say what is there: where it ends, how long the payload is,
  and what the payload is.  `Legible` asks this of a dissector for its whole
  headers with some property, one that a header is built with and keeps: an
  IPv4 header that is no later fragment, an LLC header that names its payload,
  a wireless header of a body that can be read.
-/
import PacketLayers.Proofs.Lawful.Standard

namespace PacketLayers

/-! ## §1. What announced payloads are decoded by. -/

namespace Registry

variable {child : Dissector}

theorem resolve_etherType (known : child ∈ Dissector.all) {t : EtherType}
    (named : EtherType.ofKind child.kind = some t) :
    standard.resolve (.etherType t) = .dissect child := by
  cases known using Dissector.all_cases <;> cases named <;> rfl

theorem resolve_ip (known : child ∈ Dissector.all) {p : IpProtocol}
    (named : IpProtocol.ofKind child.kind = some p) :
    standard.resolve (.ip p) = .dissect child := by
  cases known using Dissector.all_cases <;> cases named <;> rfl

theorem resolve_loopback (known : child ∈ Dissector.all) {o : Discriminant}
    (named : Loopback.dissector.discriminantOf child.kind = some o) :
    standard.resolve o = .dissect child := by
  cases known using Dissector.all_cases <;> cases named <;> rfl

/-- The only payload that wireless frames announce is LLC. -/
theorem llc_of_wireless (known : child ∈ Dissector.all) {o : Discriminant}
    (named : Wireless.dissector.discriminantOf child.kind = some o) :
    child = Llc.dissector ∧ o = .wireless 0x20 := by
  cases known using Dissector.all_cases with
  | llc =>
    cases named
    exact ⟨rfl, rfl⟩
  | _ => cases named

end Registry

/-! ## §2. Legible headers. -/

/-- Protocols whose payload stays bytes. -/
def LayerKind.TakesBytes : LayerKind → Prop
  | tcp | udp | icmpv4 | icmpv6 | igmp => True
  | _ => False

namespace Dissector

/-- A payload that can stand behind the header: none, one that the header
states, or plain bytes where the protocol takes them. -/
def Carries (d : Dissector) (h payload : Bytes) : Prop :=
  payload = [] ∨ (∃ o, d.next h payload = .ok (some o)) ∨ d.kind.TakesBytes

/-- Whole headers that have some property say what is behind them, when they
are up to date. -/
structure Legible (d : Dissector) (fair : Bytes → Prop) : Prop where
  lawful : d.Lawful
  /-- Where the header ends does not depend on what is behind it. -/
  reads : ∀ {h : Bytes}, d.Whole h → ∀ rest, d.headerLength (h ++ rest) = .ok h.length
  nonempty : ∀ {h : Bytes}, d.Whole h → h ≠ []
  fair_setNext : ∀ {h h' h'' : Bytes} {o : Discriminant}, d.Whole h → fair h →
    d.setNext h o = .ok h' → d.fit h' = .ok h'' → fair h''
  fair_recompute : ∀ {h h' : Bytes} {cx : Context}, d.Whole h → fair h →
    d.recompute h cx = .ok h' → fair h'
  unsealed : ∀ {h : Bytes}, d.Whole h → fair h → d.sealed h = .ok false
  /-- A payload that the header leads to is decoded by its own dissector. -/
  states : ∀ {h payload : Bytes} {child : Dissector} {o : Discriminant}, d.Whole h → fair h →
    child ∈ all → d.discriminantOf child.kind = some o → d.Leads h payload o →
      ∃ o', d.next h payload = .ok (some o') ∧ Registry.standard.resolve o' = .dissect child
  /-- Plain bytes stay bytes. -/
  stays : ∀ {h payload : Bytes}, d.kind.TakesBytes → d.next h payload = .ok none
  /-- A header that is up to date claims all that is behind it. -/
  measures : ∀ {h h' : Bytes} {cx : Context}, d.Whole h → fair h → d.recompute h cx = .ok h' →
    d.Carries h' cx.payload →
      ∃ n, d.payloadLength h' cx.payload.length = .ok n ∧ cx.payload.length ≤ n
  /-- Its checksum holds, if it has one. -/
  checks : ∀ {h h' : Bytes} {cx : Context}, d.Whole h → fair h → cx.mode = .fill →
    d.recompute h cx = .ok h' → ∃ v, d.checksumValid h' cx = .ok v ∧ v ≠ some false

variable {d child : Dissector} {h payload : Bytes} {o : Discriminant}

/-- A length of sixteen bits leaves room for the payload: it is the length of
header and payload, or zero where the field has no room for that. -/
theorem payload_le_stated (header payload : Nat) {stated : UInt16}
    (written : stated = if 65535 < header + payload then 0 else UInt16.ofNat (header + payload)) :
    payload ≤ if stated.toNat = 0 then payload else stated.toNat - header := by
  subst written
  by_cases long : 65535 < header + payload
  · rw [if_pos long]
    exact Nat.le_refl _
  · rw [if_neg long, UInt16.toNat_ofNat']
    split <;> omega

/-- A protocol that announces its payload by a number of its kind states a name
that stands for the payload, if it reads back what it was told. -/
theorem states_number {α : Type} {ofKind : LayerKind → Option α} {name : α → Discriminant}
    (announces : d.discriminantOf child.kind = (ofKind child.kind).map name)
    (resolves : ∀ {v : α}, ofKind child.kind = some v →
      Registry.standard.resolve (name v) = .dissect child)
    (named : d.discriminantOf child.kind = some o) (leads : d.Leads h payload o)
    (reads : ∀ v, ofKind child.kind = some v → d.setNext h (name v) = .ok h →
      d.next h payload = .ok (some (name v))) :
    ∃ o', d.next h payload = .ok (some o') ∧ Registry.standard.resolve o' = .dissect child := by
  rw [announces] at named
  obtain ⟨v, hv, rfl⟩ := Option.map_eq_some_iff.1 named
  rcases leads with hnext | hset
  · exact ⟨_, hnext, resolves hv⟩
  · exact ⟨_, reads v hv hset, resolves hv⟩

/-- A protocol that announces its payload by an Ethernet type. -/
theorem states_etherType
    (announces : d.discriminantOf child.kind = (EtherType.ofKind child.kind).map .etherType)
    (known : child ∈ all) (named : d.discriminantOf child.kind = some o) (leads : d.Leads h payload o)
    (reads : ∀ t, EtherType.ofKind child.kind = some t → d.setNext h (.etherType t) = .ok h →
      d.next h payload = .ok (some (.etherType t))) :
    ∃ o', d.next h payload = .ok (some o') ∧ Registry.standard.resolve o' = .dissect child :=
  states_number announces (Registry.resolve_etherType known) named leads reads

/-- A protocol that announces its payload by an IP protocol number. -/
theorem states_ip (announces : d.discriminantOf child.kind = (IpProtocol.ofKind child.kind).map .ip)
    (known : child ∈ all) (named : d.discriminantOf child.kind = some o) (leads : d.Leads h payload o)
    (reads : ∀ p, IpProtocol.ofKind child.kind = some p → d.setNext h (.ip p) = .ok h →
      d.next h payload = .ok (some (.ip p))) :
    ∃ o', d.next h payload = .ok (some o') ∧ Registry.standard.resolve o' = .dissect child :=
  states_number announces (Registry.resolve_ip known) named leads reads

/-- A name that is there can be read, if fields read back what is written. -/
theorem Names.value_of_setNext {α : Type} {guard : Bytes → Prop} {field : Field α}
    {name : α → Discriminant} (n : d.Names guard field name) {v : α} (hg : guard h)
    (reads : field.value (field.put v h) = v) (ok : d.setNext h (name v) = .ok h) :
    field.value h = v := by
  rw [n.writes v hg] at ok
  injection ok with ok
  rw [ok] at reads
  exact reads

/-- So can a number that is read as it was written. -/
theorem Names.value_of_announced {α κ : Type} [Assigned α κ] [DecidableEq κ] [Coded κ]
    {first size : Nat} {guard : Bytes → Prop} {name : α → Discriminant}
    (n : d.Names guard (Field.word α first size) name) (fits : Field.Fits κ (256 ^ size)) {v : α}
    (canonical : Assigned.canonical v = v) (hg : guard h) (ok : d.setNext h (name v) = .ok h) :
    (Field.word α first size).value h = v :=
  n.value_of_setNext hg ((Field.value_put_assigned fits (n.covers hg) v).trans canonical) ok

end Dissector

end PacketLayers
