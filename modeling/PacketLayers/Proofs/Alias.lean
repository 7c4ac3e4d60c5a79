/-
  PacketLayers.Proofs.Alias
  ────────────────────────────────
  **PROTOCOLS WITH MORE THAN ONE NAME.**

  Decoding takes a tag under two Ethernet types, IPv6 under the loopback
  families of three systems, and LLC under eight subtypes of data frames.  A
  layer that is told what is inside it writes one of these names, whichever it
  had.

    • `Discriminant.IsAlias` — the names that are never written;
    • `Dissector.setNext_of_next` — any other name stays as it is;
    • `Dissector.retold_of_setNext` — in place of an alias the layer leads to
      the same protocol under another name, and is cut as before;
    • `Parses.retold` — so the rules find the same layers.
-/
import PacketLayers.Proofs.Announcement
import PacketLayers.Proofs.Replacement

namespace PacketLayers

/-! ## §1. Names and aliases. -/

/-- The value stands for a protocol that is always announced by another one:
the tag of service providers, the IPv6 families of FreeBSD and Darwin, and the
subtypes of data frames that acknowledge or poll. -/
def Discriminant.IsAlias : Discriminant → Prop
  | etherType type => type = EtherType.serviceVlan
  | loopbackFamily family =>
    family = Loopback.Family.ipv6FreeBsd ∨ family = Loopback.Family.ipv6Darwin
  | wireless value => value &&& 3 ≠ 0
  | _ => False

instance : DecidablePred Discriminant.IsAlias
  | .etherType _ => inferInstanceAs (Decidable (_ = _))
  | .loopbackFamily _ => inferInstanceAs (Decidable (_ ∨ _))
  | .wireless _ => inferInstanceAs (Decidable (_ ≠ _))
  | .link _ | .ip _ | .ipVersion _ => inferInstanceAs (Decidable False)

namespace Registry

/-- What a protocol announces another one by is no alias, and any other name
that decoding takes there is one.  LLC in a data frame with QoS is announced by
the subtype without it, which leaves the QoS bit alone. -/
theorem alias_of_standard : ∀ d ∈ Dissector.all, ∀ entry ∈ standardDissectors,
    d.kind.namesIn = some entry.1.space → ∀ o ∈ d.discriminantOf entry.2.kind,
      ¬ o.IsAlias ∧ (entry.1 = o ∨ entry.1.IsAlias ∨ entry.1 = .wireless 0x28) := by
  decide

/-- Loopback and wireless headers are found at the beginning of a buffer
only. -/
theorem nested_of_standard : ∀ entry ∈ standardDissectors, entry.1.space ≠ .link →
    entry.2.kind ≠ .loopback ∧ entry.2.kind ≠ .wireless := by
  decide

end Registry

/-! ## §2. Names that are read where they are written. -/

namespace Dissector

variable {α : Type} {d : Dissector} {guard : Bytes → Prop} {field : Field α}
  {name : α → Discriminant} {h h' payload : Bytes} {o : Discriminant}

/-- The dissector reads names from the field in which it writes them. -/
structure Spells (d : Dissector) (guard : Bytes → Prop) (field : Field α)
    (name : α → Discriminant) : Prop where
  names : d.Names guard field name
  stated : ∀ {h payload : Bytes} {o : Discriminant}, d.next h payload = .ok (some o) →
    guard h ∧ o = name (field.value h)
  own : ∀ {h : Bytes}, guard h → field.Holds (field.value h) h
  /-- A name of a protocol is read as it was written. -/
  reads : ∀ {h : Bytes} {v : α} {kind : LayerKind}, guard h →
    d.discriminantOf kind = some (name v) → field.value (field.put v h) = v

/-- A header is told what it says already. -/
theorem Spells.setNext_of_next (s : d.Spells guard field name)
    (named : d.next h payload = .ok (some o)) : d.setNext h o = .ok h := by
  obtain ⟨hguard, rfl⟩ := s.stated named
  exact (s.names.writes _ hguard).trans (congrArg Except.ok (s.own hguard))

/-- A header that was told a name, and says any, says that one. -/
theorem Spells.next_of_told {v : α} {kind : LayerKind} (s : d.Spells guard field name)
    (hguard : guard h) (announced : d.discriminantOf kind = some (name v))
    (told : d.setNext h (name v) = .ok h') (named : d.next h' payload = .ok (some o)) :
    o = name v := by
  obtain rfl : field.put v h = h' := Except.ok.inj ((s.names.writes v hguard).symm.trans told)
  rw [(s.stated named).2, s.reads hguard announced]

/-- What every accepted header names is all that any header names. -/
theorem named_of_guarded {f : HeaderFormat} {v : α} {ask : Access (Option Discriminant)}
    (guarded : d.next h payload = f.guarded h none ask)
    (every : f.accepts h = true → d.next h payload = .ok (some (name v)))
    (named : d.next h payload = .ok (some o)) : f.accepts h = true ∧ o = name v := by
  have accepted := (HeaderFormat.accepts_of_guarded (guarded.symm.trans named)).1
  exact ⟨accepted, Option.some.inj (Except.ok.inj (named.symm.trans (every accepted)))⟩

end Dissector

theorem EtherType.canonical_of_announced {kind : LayerKind} {t : EtherType}
    (announced : (ofKind kind).map Discriminant.etherType = some (.etherType t)) :
    Assigned.canonical t = t :=
  canonical_of_ofKind (Option.map_injective (fun _ _ => Discriminant.etherType.inj) announced)

theorem IpProtocol.canonical_of_announced {kind : LayerKind} {p : IpProtocol}
    (announced : (ofKind kind).map Discriminant.ip = some (.ip p)) : Assigned.canonical p = p :=
  canonical_of_ofKind (Option.map_injective (fun _ _ => Discriminant.ip.inj) announced)

theorem Ethernet.spells :
    dissector.Spells (format.accepts · = true) Layout.etherType .etherType where
  names := names
  stated {h payload o} named := by
    have accepted := (HeaderFormat.accepts_of_guarded named).1
    refine ⟨accepted, ?_⟩
    have hnext : next h = .ok (some o) := named
    rw [next_eq accepted] at hnext
    split at hnext
    · cases hnext
    · cases hnext
      rfl
  own accepted := Field.holds_value_word toNat_etherType (covers_etherType accepted)
  reads accepted announced :=
    (value_put_etherType accepted _).trans (EtherType.canonical_of_announced announced)

theorem Vlan.spells :
    dissector.Spells (format.accepts · = true) Layout.etherType .etherType where
  names := names
  stated named := Dissector.named_of_guarded rfl (fun accepted => next_eq accepted) named
  own accepted := Field.holds_value_word Ethernet.toNat_etherType (covers_etherType accepted)
  reads accepted announced :=
    (Field.value_put_assigned Field.fits_word (covers_etherType accepted) _).trans
      (EtherType.canonical_of_announced announced)

theorem Gre.spells : dissector.Spells (format.accepts · = true) Layout.protocol .etherType where
  names := names
  stated named := Dissector.named_of_guarded rfl (fun accepted => next_eq accepted) named
  own accepted := Field.holds_value_word Ethernet.toNat_etherType (covers_protocol accepted)
  reads accepted announced :=
    (Field.value_put_assigned Field.fits_word (covers_protocol accepted) _).trans
      (EtherType.canonical_of_announced announced)

theorem Llc.spells : dissector.Spells (fun h => 8 ≤ h.length ∧ snap h = true) Layout.etherType
    .etherType where
  names := names
  stated {h payload o} named := by
    obtain ⟨accepted, named⟩ := HeaderFormat.accepts_of_guarded named
    obtain ⟨t, ht, named⟩ := bind_eq_ok.1 named
    unfold etherType? snapField? at ht
    rw [isSnap_eq (three_le_of_accepts accepted), ok_bind] at ht
    -- only a SNAP header with room for it says a type
    by_cases hsays : (snap h && decide (Layout.etherType.stop ≤ h.length)) = true
    · rw [if_pos hsays] at ht
      cases ht
      cases named
      obtain ⟨hsnap, hlong⟩ := Bool.and_eq_true_iff.1 hsays
      exact ⟨⟨of_decide_eq_true hlong, hsnap⟩, rfl⟩
    · rw [if_neg hsays] at ht
      cases ht
      cases named
  own guard := Field.holds_value_word Ethernet.toNat_etherType guard.1
  reads guard announced :=
    (Field.value_put_assigned Field.fits_word (names.covers guard) _).trans
      (EtherType.canonical_of_announced announced)

theorem Loopback.spells : dissector.Spells (4 ≤ ·.length) family .loopbackFamily where
  names := names
  stated {h payload o} named := by
    have hnext : next h = some o := Except.ok.inj named
    unfold next at hnext
    rw [parse_eq] at hnext
    by_cases long : 4 ≤ h.length
    · rw [if_pos long] at hnext
      cases hnext
      exact ⟨long, rfl⟩
    · rw [if_neg long] at hnext
      cases hnext
  own long := Field.holds_value_wordLittle
    (fun n small => (UInt32.toNat_ofNat' (n := n)).trans (Nat.mod_eq_of_lt small)) long
  reads long _ := value_put_family long _

theorem Ipv6.spells :
    dissector.Spells (Layout.nextHeader.stop ≤ ·.length) Layout.nextHeader .ip where
  names := names
  stated {h payload o} named := by
    obtain ⟨accepted, ho⟩ :=
      Dissector.named_of_guarded rfl (fun accepted => next_eq (accepts_iff.1 accepted)) named
    exact ⟨Nat.le_trans (by decide) (accepts_iff.1 accepted), ho⟩
  own covers := Field.holds_value_word toNat_ipProtocol covers
  reads covers announced :=
    (Field.value_put_assigned Field.fits_byte covers _).trans
      (IpProtocol.canonical_of_announced announced)

/-! ## §3. Wireless frames. -/

namespace Wireless

variable {h payload : Bytes} {value : UInt8}

/-- A frame that names its payload is a data frame with a body. -/
theorem stated (named : next h = .ok (some (.wireless value))) :
    10 ≤ h.length ∧ Layout.frameType.value h = .data ∧ hasBody (Layout.subtype.value h) = true
      ∧ value = (FrameType.data.code <<< 4) ||| Layout.subtype.value h := by
  obtain ⟨accepted, named⟩ := HeaderFormat.accepts_of_guarded named
  have hten := ten_le_of_accepts accepted
  have htype : Layout.frameType.stop ≤ h.length := Nat.le_trans (by decide) hten
  have hsubtype : Layout.subtype.stop ≤ h.length := Nat.le_trans (by decide) hten
  unfold typeAndSubtype at named
  rw [Field.get_eq_value htype, Field.get_eq_value hsubtype] at named
  simp only [ok_bind, pure_eq_ok] at named
  by_cases hdata : (decide (Layout.frameType.value h = .data)
      && hasBody (Layout.subtype.value h)) = true
  · rw [if_pos hdata] at named
    obtain ⟨htyped, hbody⟩ := Bool.and_eq_true_iff.1 hdata
    have htyped := of_decide_eq_true htyped
    rw [htyped] at named
    cases named
    exact ⟨hten, htyped, hbody, rfl⟩
  · rw [if_neg hdata] at named
    cases named

/-- Of the first byte of a data frame the subtype is written over, but for its
QoS bit. -/
theorem relabel_byte : ∀ v : BitVec 8, Layout.frameType.value [⟨v⟩] = .data →
    relabel 0x20 [⟨v⟩] = [(⟨v⟩ : UInt8) &&& 0x8f] := by
  decide +kernel

/-- What is written over has no say in how long the header is. -/
theorem length_byte : ∀ v : BitVec 8, Layout.frameType.value [⟨v⟩] = .data →
    ((⟨v⟩ : UInt8) >>> 2) &&& 0x3 = 2 ∧ (((⟨v⟩ : UInt8) &&& 0x8f) >>> 2) &&& 0x3 = 2
      ∧ hasQos (((⟨v⟩ : UInt8) &&& 0x8f) >>> 4) = hasQos ((⟨v⟩ : UInt8) >>> 4) := by
  decide +kernel

/-- The two subtypes that neither acknowledge nor poll are left by it. -/
theorem plain_byte : ∀ v : BitVec 8, Layout.frameType.value [⟨v⟩] = .data →
    (FrameType.data.code <<< 4) ||| Layout.subtype.value [⟨v⟩] = 0x20
      ∨ (FrameType.data.code <<< 4) ||| Layout.subtype.value [⟨v⟩] = 0x28 →
        (⟨v⟩ : UInt8) &&& 0x8f = ⟨v⟩ := by
  decide +kernel

section Data

variable {x : UInt8} {rest : Bytes} (data : Layout.frameType.value (x :: rest) = .data)

include data

theorem data_byte : Layout.frameType.value [x] = .data := by
  have hcovers : Layout.frameType.stop ≤ [x].length := Nat.le_refl 1
  have hfirst := Field.value_append hcovers rest
  exact hfirst.symm.trans data

theorem relabel_data : relabel 0x20 (x :: rest) = (x &&& 0x8f) :: rest := by
  have hfirst := @relabel_append [x] (Nat.le_refl 1) 0x20 rest
  rw [relabel_byte x.toBitVec (data_byte data)] at hfirst
  exact hfirst

/-- **A data frame that is told again that LLC is inside it** keeps the length of
its header. -/
theorem headerLength?_relabel :
    headerLength? (relabel 0x20 (x :: rest)) = headerLength? (x :: rest) := by
  rw [relabel_data data]
  obtain ⟨htype, htype', hqos⟩ := length_byte x.toBitVec (data_byte data)
  cases rest with
  | nil => rfl
  | cons y rest =>
    show some (lengthOf (Assigned.ofCode _) _ _) = some (lengthOf (Assigned.ofCode _) _ _)
    rw [htype, htype']
    -- of the subtype of a data frame only the QoS bit counts
    show some (_ + if hasQos ((x &&& 0x8f) >>> 4) then _ else _)
      = some (_ + if hasQos (x >>> 4) then _ else _)
    rw [hqos]

end Data

/-- The subtype of a data frame that neither acknowledges nor polls stays when
LLC is announced. -/
theorem setNext_of_plain (named : next h = .ok (some (.wireless value)))
    (plain : value = 0x20 ∨ value = 0x28) : setNext h (.wireless 0x20) = .ok h := by
  obtain ⟨hten, hdata, _, rfl⟩ := stated named
  obtain ⟨x, rest, rfl⟩ : ∃ x rest, h = x :: rest :=
    List.exists_cons_of_length_pos (Nat.lt_of_lt_of_le (by decide) hten)
  have hsubtype : Layout.subtype.value (x :: rest) = Layout.subtype.value [x] := by
    have hcovers : Layout.subtype.stop ≤ [x].length := Nat.le_refl 1
    exact Field.value_append hcovers rest
  rw [hsubtype] at plain
  have hsame := plain_byte x.toBitVec (data_byte hdata) plain
  rw [setNext_wireless, if_pos (Nat.le_trans (by decide) hten), relabel_data hdata]
  exact congrArg (fun y : UInt8 => Except.ok (y :: rest)) hsame

end Wireless

/-! ## §4. Headers that are told again what is inside. -/

namespace Dissector

variable {d child : Dissector} {h h' payload : Bytes} {o a : Discriminant}

/-- A header in place of another one that leads to the same protocol, not by an
alias, and is cut, measured and opened like the other. -/
structure Retold (d : Dissector) (h h' payload : Bytes) (child : Dissector) : Prop where
  whole : d.Whole h'
  length : h'.length = h.length
  measures : ∀ available, d.payloadLength h' available = d.payloadLength h available
  isSealed : d.sealed h' = d.sealed h
  leads : ∃ o, d.next h' payload = .ok (some o) ∧ Registry.standard.resolve o = .dissect child
    ∧ ¬ o.IsAlias

/-- What a header names its payload, and what it would be told. -/
theorem alias_cases (known : d ∈ all) (leads : d.next h payload = .ok (some a))
    (stands : Registry.standard.resolve a = .dissect child)
    (named : d.discriminantOf child.kind = some o) :
    ¬ o.IsAlias ∧ (a = o ∨ a.IsAlias ∨ a = .wireless 0x28) :=
  Registry.alias_of_standard d known _ (Registry.mem_standardDissectors (Registry.dissect_mem stands))
    (space_of_next known leads) o named

/-- **A header that names its payload by no alias** is not changed when it is
told what that is. -/
theorem setNext_of_next (known : d ∈ all) (leads : d.next h payload = .ok (some a))
    (stands : Registry.standard.resolve a = .dissect child)
    (named : d.discriminantOf child.kind = some o) (plain : ¬ a.IsAlias) :
    d.setNext h o = .ok h := by
  have inside : child ∈ all := Registry.standard_uses _ (Registry.dissect_mem stands) _ rfl
  obtain ⟨_, rfl | halias | rfl⟩ := alias_cases known leads stands named
  · -- the name that is there is the one that is told
    cases known using Dissector.all_cases with
    | ethernet => exact Ethernet.spells.setNext_of_next leads
    | vlan => exact Vlan.spells.setNext_of_next leads
    | arp | tcp | udp | icmpv4 | icmpv6 | igmp | rawIp => rfl
    | ipv4 => exact Ipv4.setNext_of_next leads
    | ipv6 => exact Ipv6.spells.setNext_of_next leads
    | gre => exact Gre.spells.setNext_of_next leads
    | loopback => exact Loopback.spells.setNext_of_next leads
    | llc => exact Llc.spells.setNext_of_next leads
    | wireless =>
      obtain ⟨_, rfl⟩ := Registry.llc_of_wireless inside named
      exact Wireless.setNext_of_plain leads (.inl rfl)
  · exact absurd halias plain
  · have hspace := space_of_next known leads
    cases known using Dissector.all_cases with
    | wireless =>
      obtain ⟨_, rfl⟩ := Registry.llc_of_wireless inside named
      exact Wireless.setNext_of_plain leads (.inr rfl)
    | _ => cases hspace

/-- A header that was told a name in place of an alias, and leads there. -/
theorem Retold.of_spells {α : Type} {guard : Bytes → Prop} {field : Field α}
    {name : α → Discriminant} {v : α} {kind : LayerKind} (s : d.Spells guard field name)
    (named : d.next h payload = .ok (some a)) (announced : d.discriminantOf kind = some (name v))
    (told : d.setNext h (name v) = .ok h')
    (plain : ¬ (name v).IsAlias) (whole : d.Whole h')
    (states : ∃ o, d.next h' payload = .ok (some o)
      ∧ Registry.standard.resolve o = .dissect child)
    (measures : ∀ available, d.payloadLength h' available = d.payloadLength h available)
    (isSealed : d.sealed h' = d.sealed h) : d.Retold h h' payload child where
  whole := whole
  length := by
    obtain ⟨_, hset, hlength⟩ := s.names.succeeds h (name v)
    rw [Except.ok.inj (told.symm.trans hset), hlength]
  measures := measures
  isSealed := isSealed
  leads := by
    obtain ⟨o, hnext, hstands⟩ := states
    obtain rfl := s.next_of_told (s.stated named).1 announced told hnext
    exact ⟨_, hnext, hstands, plain⟩

end Dissector

/-- A header that names its payload states no length. -/
theorem Ethernet.payloadLength_of_next {h : Bytes} {o : Discriminant}
    (named : next h = .ok (some o)) (available : Nat) :
    dissector.payloadLength h available = .ok available := by
  have accepted := (HeaderFormat.accepts_of_guarded named).1
  rw [next_eq accepted] at named
  rw [payloadLength_eq accepted]
  by_cases hlength : (Layout.etherType.value h).isLength = true
  · rw [if_pos hlength] at named
    cases named
  · rw [if_neg hlength]

/-- A data frame that is told that LLC is inside it. -/
theorem Wireless.retold {h h' payload : Bytes} {a : Discriminant} (whole : dissector.Whole h)
    (leads : dissector.next h payload = .ok (some a))
    (told : dissector.setNext h (.wireless 0x20) = .ok h') :
    dissector.Retold h h' payload Llc.dissector := by
  have hspace := space_of_next leads
  obtain ⟨value, rfl⟩ : ∃ value, a = .wireless value := by
    cases a <;> first | exact ⟨_, rfl⟩ | cases hspace
  obtain ⟨hten, hdata, _, _⟩ := stated leads
  have hone : 1 ≤ h.length := Nat.le_trans (by decide) hten
  have hrelabel := setNext_wireless h 0x20
  rw [if_pos (Nat.le_trans (by decide) hten)] at hrelabel
  obtain rfl : relabel 0x20 h = h' := Except.ok.inj (hrelabel.symm.trans told)
  have hlength := length_relabel hone 0x20
  -- the length hangs on bits that the new name does not touch
  have hwhole : dissector.Whole (relabel 0x20 h) := by
    obtain ⟨x, rest, rfl⟩ := List.exists_cons_of_length_pos hone
    rw [whole_iff, headerLength?_relabel hdata, whole_iff.1 whole, hlength]
  refine ⟨hwhole, hlength, fun _ => rfl, ?_, ?_⟩
  · have hflags : Layout.flags.stop ≤ h.length := Nat.le_trans (by decide) hten
    have hflags' : Layout.flags.stop ≤ (relabel 0x20 h).length := hlength ▸ hflags
    show format.guarded _ _ _ = format.guarded _ _ _
    rw [HeaderFormat.guarded_of_accepts (sized.accepts_of_whole whole),
      HeaderFormat.guarded_of_accepts (sized.accepts_of_whole hwhole), Field.get_eq_value hflags,
      Field.get_eq_value hflags', flags_relabel hone]
  · rcases next_of_llc hwhole (setNext_again told) with hnext | hnext
    · exact ⟨_, hnext, rfl, by decide⟩
    · exact ⟨_, hnext, rfl, by decide⟩

namespace Dissector

/-- **A header that was told what is inside it,** and led there before. -/
theorem retold_of_setNext (known : d ∈ all) (whole : d.Whole h)
    (leads : d.next h payload = .ok (some a)) (stands : Registry.standard.resolve a = .dissect child)
    (named : d.discriminantOf child.kind = some o) (told : d.setNext h o = .ok h') :
    d.Retold h h' payload child := by
  have inside : child ∈ all := Registry.standard_uses _ (Registry.dissect_mem stands) _ rfl
  by_cases halias : a.IsAlias
  · have hplain := (alias_cases known leads stands named).1
    have hspace := space_of_next known leads
    have hfix := (lawful_of_mem_all known).setNext_again told
    cases known using Dissector.all_cases with
    | arp | tcp | udp | icmpv4 | icmpv6 | igmp => cases named
    | ipv4 | ipv6 | rawIp => cases a <;> first | exact halias.elim | cases hspace
    | ethernet =>
      obtain ⟨t, _, rfl⟩ := Option.map_eq_some_iff.1 named
      have hwhole := Ethernet.names.preserves Ethernet.whole_put_etherType whole told
      obtain ⟨o', hnext, hstands⟩ :=
        @Ethernet.legible.states _ payload _ _ hwhole trivial inside named (.inr hfix)
      refine .of_spells Ethernet.spells leads named told hplain hwhole ⟨o', hnext, hstands⟩ ?_ rfl
      intro available
      rw [Ethernet.payloadLength_of_next hnext, Ethernet.payloadLength_of_next leads]
    | vlan =>
      obtain ⟨t, _, rfl⟩ := Option.map_eq_some_iff.1 named
      have hwhole := Vlan.names.preserves Vlan.whole_put_etherType whole told
      exact .of_spells Vlan.spells leads named told hplain hwhole
        (Vlan.legible.states hwhole trivial inside named (.inr hfix)) (fun _ => rfl) rfl
    | gre =>
      obtain ⟨t, _, rfl⟩ := Option.map_eq_some_iff.1 named
      have hwhole := Gre.names.preserves Gre.whole_put_protocol whole told
      exact .of_spells Gre.spells leads named told hplain hwhole
        (Gre.legible.states hwhole trivial inside named (.inr hfix)) (fun _ => rfl) rfl
    | loopback =>
      obtain ⟨v, rfl⟩ : ∃ v, o = .loopbackFamily v := by
        cases hkind : child.kind <;> rw [hkind] at named <;> cases named <;> exact ⟨_, rfl⟩
      have hwhole := Loopback.names.preserves Loopback.whole_put_family whole told
      exact .of_spells Loopback.spells leads named told hplain hwhole
        (Loopback.legible.states hwhole trivial inside named (.inr hfix)) (fun _ => rfl) rfl
    | wireless =>
      obtain ⟨rfl, rfl⟩ := Registry.llc_of_wireless inside named
      exact Wireless.retold whole leads told
    | llc =>
      obtain ⟨t, _, rfl⟩ := Option.map_eq_some_iff.1 named
      have hguard := (Llc.spells.stated leads).1
      have hwhole := Llc.names.preserves Llc.whole_put_etherType whole told
      have hsnap := Llc.names.preserves (P := fun b => 8 ≤ b.length ∧ Llc.snap b = true)
        (fun t guard _ => Llc.names.stable t guard) hguard told
      exact .of_spells Llc.spells leads named told hplain hwhole
        (Llc.legible.states hwhole hsnap.2 inside named (.inr hfix)) (fun _ => rfl) rfl
  · -- nothing was written
    obtain rfl : h = h' :=
      Except.ok.inj ((setNext_of_next known leads stands named halias).symm.trans told)
    exact ⟨whole, rfl, fun _ => rfl, rfl, a, leads, stands, halias⟩

/-- A header behind another one begins as before when it was told what is inside
it. -/
theorem head?_of_setNext (known : d ∈ all) (nested : d.kind ≠ .loopback ∧ d.kind ≠ .wireless)
    (told : d.setNext h o = .ok h') : h'.head? = h.head? := by
  cases known using Dissector.all_cases with
  | ethernet => exact Ethernet.names.head? (by decide) told
  | vlan => exact Vlan.names.head? (by decide) told
  | ipv4 => exact Ipv4.names.head? (by decide) told
  | ipv6 => exact Ipv6.names.head? (by decide) told
  | gre => exact Gre.names.head? (by decide) told
  | llc => exact Llc.names.head? (by decide) told
  | loopback => exact absurd rfl nested.1
  | wireless => exact absurd rfl nested.2
  | arp | tcp | udp | icmpv4 | icmpv6 | igmp | rawIp =>
    obtain rfl := Except.ok.inj told
    rfl

end Dissector

/-! ## §5. The rules once more. -/

/-- The layers with one of them told what is inside it. -/
def PlainLayer.told (outer : List PlainLayer) (l : PlainLayer) (header : Bytes)
    (child : PlainLayer) (o : Discriminant) (inner : List PlainLayer) : List PlainLayer :=
  outer ++ { l with header := header } :: { child with origin := some o } :: inner

namespace Registry

variable {r : Registry} {d child : Dissector} {origin : Option Discriminant} {o a : Discriminant}
  {room : Nat} {bytes header payload padding header' payload' : Bytes} {found : PlainBranch}

/-- The first layer is found under any name. -/
theorem Parses.reroot (h : Parses r room d origin bytes found) {l : PlainLayer}
    {inner : List PlainLayer} (first : found.layers = l :: inner) (origin' : Option Discriminant) :
    Parses r room d origin' bytes
      { found with layers := { l with origin := origin' } :: inner } := by
  cases h with
  | innermost parts rests =>
    obtain ⟨rfl, rfl⟩ := List.cons.inj first
    exact .innermost parts rests
  | around parts offered stands inside =>
    obtain ⟨rfl, rfl⟩ := List.cons.inj first
    exact .around parts offered stands inside

/-- What is inside a layer does not begin with a loopback or wireless header. -/
theorem nested_of_next (known : d ∈ Dissector.all) (named : d.next header payload = .ok (some a))
    (stands : standard.resolve a = .dissect child) :
    child.kind ≠ .loopback ∧ child.kind ≠ .wireless := by
  refine nested_of_standard _ (mem_standardDissectors (dissect_mem stands)) ?_
  have hspace := Dissector.space_of_next known named
  intro hlink
  rw [show a.space = .link from hlink] at hspace
  cases hkind : d.kind <;> rw [hkind] at hspace <;> cases hspace

/-- **The rules lead to the same layers** when one of them was told what is
inside it. -/
theorem Parses.retold (h : Parses standard room d origin bytes found) :
    d ∈ Dissector.all → ∀ {outer : List PlainLayer} {l inside : PlainLayer}
      {inner : List PlainLayer} {o : Discriminant} {header : Bytes},
      found.layers = outer ++ l :: inside :: inner →
      l.dissector.discriminantOf inside.kind = some o →
      l.dissector.setNext l.header o = .ok header →
      ∃ a, ¬ a.IsAlias
        ∧ Parses standard room d origin
          (PlainLayer.wire (PlainLayer.told outer l header inside a inner) found.body)
          { found with layers := PlainLayer.told outer l header inside a inner }
        ∧ (PlainLayer.wire (PlainLayer.told outer l header inside a inner) found.body).length
          = bytes.length
        ∧ (d.kind ≠ .loopback ∧ d.kind ≠ .wireless →
          (PlainLayer.wire (PlainLayer.told outer l header inside a inner) found.body).head?
            = bytes.head?) := by
  -- on the rules: around the layer only lengths and the first byte of what is inside count
  induction h with
  | innermost =>
    intro _ outer l inside inner o header split
    have hlength := congrArg List.length split
    simp at hlength
    omega
  | @around room d child origin o bytes header payload padding branch parts offered stands deeper ih =>
    intro root outer l inside inner o' header' split named told
    have hchild : child ∈ Dissector.all := standard_uses _ (dissect_mem stands) _ rfl
    cases outer with
    | nil =>
      -- the layer that was told is the first one
      obtain ⟨rfl, hlayers⟩ := List.cons.inj split
      have hdissector : inside.dissector = child := by
        obtain ⟨_, _, _, _, _, hfirst⟩ := deeper.first
        rw [(List.cons.inj (hlayers.symm.trans hfirst)).1]
      have hkind : inside.kind = child.kind := congrArg Dissector.kind hdissector
      rw [hkind] at named
      have hretold := Dissector.retold_of_setNext root parts.whole_header offered.named stands
        named told
      obtain ⟨a, hnext, hstands, hplain⟩ := hretold.leads
      have hdeeper := deeper.reroot hlayers (some a)
      have hparts := parts.exchange root hretold.whole hretold.measures rfl
        (by simp [offered.nonempty])
      have hwire : PlainLayer.wire (PlainLayer.told [] ⟨d, origin, header, padding⟩ header' inside a
          inner) branch.body = header' ++ (payload ++ padding) := by
        rw [← hdeeper.wire_eq]
        exact PlainLayer.wire_cons _ _ _
      refine ⟨a, hplain, ?_, ?_, fun nested => ?_⟩
      · rw [hwire]
        exact .around hparts ⟨offered.nonempty, hretold.isSealed.trans offered.unsealed, hnext⟩
          hstands hdeeper
      · rw [hwire, parts.whole]
        simp only [List.length_append, hretold.length]
      · have hfirst : header'.head? = header.head? :=
          Dissector.head?_of_setNext root nested told
        rw [hwire, parts.whole, List.head?_append, hfirst, ← List.head?_append]
    | cons first outer =>
      obtain ⟨rfl, hlayers⟩ := List.cons.inj split
      obtain ⟨a, hplain, hparses, hlength, hhead⟩ := ih hchild hlayers named told
      replace hhead := hhead (nested_of_next root offered.named stands)
      have hoffered := offered.of_head? root hhead
      have hparts := parts.exchange root parts.whole_header (fun _ => rfl) hlength
        (by simp [hoffered.nonempty])
      have hwire : PlainLayer.wire (PlainLayer.told (⟨d, origin, header, padding⟩ :: outer) l header'
          inside a inner) branch.body
          = header ++ (PlainLayer.wire (PlainLayer.told outer l header' inside a inner) branch.body
            ++ padding) := PlainLayer.wire_cons _ _ _
      refine ⟨a, hplain, ?_, ?_, fun _ => ?_⟩
      · rw [hwire]
        exact .around hparts hoffered stands hparses
      · rw [hwire, parts.whole]
        simp only [List.length_append, hlength]
      · rw [hwire, parts.whole, List.head?_append, List.head?_append, List.head?_append,
          List.head?_append, hhead]

end Registry

end PacketLayers
