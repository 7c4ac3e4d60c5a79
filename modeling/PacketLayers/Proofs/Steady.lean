/-
  PacketLayers.Proofs.Steady
  ────────────────────────────────
  **WHAT BRINGING A HEADER UP TO DATE LEAVES TO BE DECODED.**

  A header that was cut off a buffer and then brought up to date is written
  over in a few fields only, and what decoding reads in it stays.  The one
  exception are payload lengths: they may have been zero, too small or too
  large, and become true.  `Steady` says that the header is cut off again at
  the same place, names the same payload, and that the new length cuts the
  same bytes as the old one did.
-/
import PacketLayers.Proofs.Legible.Link
import PacketLayers.Proofs.Legible.Network
import PacketLayers.Proofs.Legible.Transport

namespace PacketLayers

/-! ## §1. Derived bytes. -/

/-- The bytes of a header that are derived: the lengths and checksums that
depend on what is around the header and behind it. -/
def LayerKind.Derives (kind : LayerKind) (h : Bytes) (i : Nat) : Prop :=
  match kind with
  | .ethernet =>
    (Ethernet.Layout.etherType.value h).isLength = true ∧ Ethernet.Layout.etherType.Covers i
  | .ipv4 => Ipv4.Layout.totalLength.Covers i ∨ Ipv4.Layout.checksum.Covers i
  | .ipv6 => Ipv6.Layout.payloadLength.Covers i
  | .tcp => Tcp.Layout.checksum.Covers i
  | .udp => Udp.Layout.length.Covers i ∨ Udp.Layout.checksum.Covers i
  | .icmpv4 => Icmpv4.Layout.checksum.Covers i
  | .icmpv6 => Icmpv6.Layout.checksum.Covers i
  | .igmp => Igmp.Layout.checksum.Covers i
  | .gre => Gre.hasChecksum h = true ∧ Gre.checksum.Covers i
  | _ => False

/-- The first byte of a header is never derived. -/
theorem LayerKind.not_derives_zero (kind : LayerKind) (h : Bytes) : ¬ kind.Derives h 0 := by
  cases kind with
  | ethernet | gre => exact fun derived => Nat.not_succ_le_zero _ derived.2.1
  | ipv4 | udp =>
    exact fun derived => derived.elim (fun covers => Nat.not_succ_le_zero _ covers.1)
      (fun covers => Nat.not_succ_le_zero _ covers.1)
  | ipv6 | tcp | icmpv4 | icmpv6 | igmp => exact fun derived => Nat.not_succ_le_zero _ derived.1
  | _ => exact fun derived => derived

/-! ## §2. Steady dissectors. -/

namespace Dissector

/-- How a whole header is decoded when it was brought up to date. -/
structure Steady (d : Dissector) : Prop where
  lawful : d.Lawful
  /-- It ends where it ended. -/
  reads : ∀ {h h' rest rest' : Bytes} {cx : Context}, d.headerLength (h ++ rest) = .ok h.length →
    d.recompute h cx = .ok h' → rest'.length = rest.length →
      d.headerLength (h' ++ rest') = .ok h'.length
  isSealed : ∀ {h h' : Bytes} {cx : Context}, d.Whole h → d.recompute h cx = .ok h' →
    d.sealed h' = d.sealed h
  /-- It names what it named, in front of a payload that begins alike. -/
  next : ∀ {h h' payload payload' : Bytes} {cx : Context}, d.Whole h → d.recompute h cx = .ok h' →
    payload'.head? = payload.head? → d.next h' payload' = d.next h payload
  /-- It cuts the payload that it was brought up to date with, if it cut as
  much before. -/
  measures : ∀ {h h' : Bytes} {cx : Context} {available stated : Nat}, d.Whole h →
    d.recompute h cx = .ok h' → d.payloadLength h available = .ok stated →
      cx.payload.length = min stated available →
        ∃ stated', d.payloadLength h' available = .ok stated'
          ∧ cx.payload.length = min stated' available
  /-- Other bytes than the derived ones stay. -/
  keeps : ∀ {h h' : Bytes} {cx : Context}, d.Whole h → d.recompute h cx = .ok h' →
    ∀ i, ¬ d.kind.Derives h i → h'[i]? = h[i]?

variable {d : Dissector}

/-- A dissector that derives nothing. -/
theorem Steady.of_nothing_derived (lawful : d.Lawful)
    (derives : ∀ h cx, d.recompute h cx = .ok h)
    (reads : ∀ {h rest rest' : Bytes}, d.headerLength (h ++ rest) = .ok h.length →
      rest'.length = rest.length → d.headerLength (h ++ rest') = .ok h.length)
    (next : ∀ {h payload payload' : Bytes}, payload'.head? = payload.head? →
      d.next h payload' = d.next h payload) : d.Steady := by
  -- every promise is about one header only
  have same : ∀ {h h' : Bytes} {cx : Context}, d.recompute h cx = .ok h' → h' = h := by
    intro h h' cx ok
    rw [derives] at ok
    injection ok with ok
    exact ok.symm
  refine ⟨lawful, ?_, ?_, ?_, ?_, ?_⟩
  · intro h h' rest rest' cx cut ok hlength
    rw [same ok]
    exact reads cut hlength
  · intro h h' cx _ ok
    rw [same ok]
  · intro h h' payload payload' cx _ ok hhead
    rw [same ok]
    exact next hhead
  · intro h h' cx available stated _ ok states hpayload
    rw [same ok]
    exact ⟨stated, states, hpayload⟩
  · intro h h' cx _ ok i _
    rw [same ok]

/-- Where a header ends that stays whole. -/
theorem reads_of_legible {fair : Bytes → Prop} (legible : d.Legible fair)
    {h h' rest rest' : Bytes} {cx : Context} (cut : d.headerLength (h ++ rest) = .ok h.length)
    (ok : d.recompute h cx = .ok h') : d.headerLength (h' ++ rest') = .ok h'.length :=
  legible.reads (legible.lawful.whole_recompute ⟨rest, cut⟩ ok).1 rest'

/-- A dissector that says nothing about its payload and takes all of it. -/
theorem Steady.of_quiet {fair : Bytes → Prop} (quiet : d.Quiet) (legible : d.Legible fair)
    (measures : ∀ h available, d.payloadLength h available = .ok available)
    (keeps : ∀ {h h' : Bytes} {cx : Context}, d.Whole h → d.recompute h cx = .ok h' →
      ∀ i, ¬ d.kind.Derives h i → h'[i]? = h[i]?) : d.Steady where
  lawful := legible.lawful
  reads cut ok _ := reads_of_legible legible cut ok
  isSealed _ _ := (quiet.isSealed _).trans (quiet.isSealed _).symm
  next _ _ _ := (quiet.next _ _).trans (quiet.next _ _).symm
  measures {h h' cx available stated} _ _ states hpayload := by
    rw [measures] at states
    injection states with states
    subst states
    exact ⟨available, measures _ _, hpayload⟩
  keeps := keeps

/-- **A length of sixteen bits is cut again.**  The length of header and
payload is written, or zero where the field has no room for that, in place of
a length that cut the payload; zero stands for all there is. -/
theorem cut_again (header available stated payload : Nat) {written : UInt16}
    (short : header ≤ 65535) (fits : stated ≤ 65535)
    (cut : payload = min (if stated = 0 then available else stated - header) available)
    (write : written = if 65535 < header + payload then 0 else UInt16.ofNat (header + payload)) :
    payload = min (if written.toNat = 0 then available else written.toNat - header) available := by
  subst write
  by_cases long : 65535 < header + payload
  · -- no stated length could have cut so much
    rw [if_pos long]
    have hall : payload = available := by
      split at cut <;> omega
    simp [hall]
  · rw [if_neg long, UInt16.toNat_ofNat']
    have hwritten : (header + payload) % 2 ^ 16 = header + payload := Nat.mod_eq_of_lt (by omega)
    rw [hwritten]
    split at cut <;> split <;> omega

end Dissector

/-! ## §3. Link layers. -/

namespace Ethernet

/-- A whole header is written to only if it states a length, and then states
that of the payload. -/
theorem recompute_cases {h h' : Bytes} {cx : Context} (whole : dissector.Whole h)
    (ok : dissector.recompute h cx = .ok h') :
    h' = h ∧ ((Layout.etherType.value h).isLength = true → 1500 < cx.payload.length)
      ∨ (Layout.etherType.value h).isLength = true ∧ cx.payload.length ≤ 1500
        ∧ h' = Layout.etherType.put (Assigned.ofCode (UInt16.ofNat cx.payload.length)) h := by
  have ok : recompute h cx = .ok h' := ok
  rw [recompute_eq, if_pos (sized.accepts_of_whole whole), refreshed] at ok
  injection ok with ok
  subst ok
  by_cases hlength : (Layout.etherType.value h).isLength = true ∧ cx.payload.length ≤ 1500
  · rw [if_pos hlength]
    exact .inr ⟨hlength.1, hlength.2, rfl⟩
  · rw [if_neg hlength]
    exact .inl ⟨rfl, fun hstated => Nat.lt_of_not_le fun hle => hlength ⟨hstated, hle⟩⟩

theorem steady : dissector.Steady where
  lawful := lawful
  reads cut ok _ := Dissector.reads_of_legible legible cut ok
  isSealed _ _ := rfl
  next {h h' payload payload' cx} whole ok _ := by
    have accepted := sized.accepts_of_whole whole
    rcases recompute_cases whole ok with ⟨rfl, _⟩ | ⟨hstated, hshort, rfl⟩
    · rfl
    · show next _ = next _
      rw [next_eq accepted, next_eq (accepts_put accepted _), value_put_length accepted, hstated,
        isLength_ofNat hshort]
      rfl
  measures {h h' cx available stated} whole ok states hpayload := by
    have accepted := sized.accepts_of_whole whole
    rcases recompute_cases whole ok with ⟨rfl, _⟩ | ⟨_, hshort, rfl⟩
    · exact ⟨stated, states, hpayload⟩
    · -- a length that was written is short enough to be one
      refine ⟨_, payloadLength_eq (accepts_put accepted _) available, ?_⟩
      rw [value_put_length accepted, isLength_ofNat hshort, if_pos rfl, toNat_length hshort]
      omega
  keeps {h h' cx} whole ok i underived := by
    have accepted := sized.accepts_of_whole whole
    rcases recompute_cases whole ok with ⟨rfl, _⟩ | ⟨hstated, _, rfl⟩
    · rfl
    · exact Field.getElem?_put lawful_etherType (covers_etherType accepted) _ fun hcovers =>
        underived ⟨hstated, hcovers⟩

end Ethernet

theorem Vlan.steady : Vlan.dissector.Steady :=
  .of_nothing_derived lawful (fun _ _ => rfl) (fun cut _ => legible.reads ⟨_, cut⟩ _) (fun _ => rfl)

theorem Loopback.steady : Loopback.dissector.Steady :=
  .of_nothing_derived lawful (fun _ _ => rfl) (fun cut _ => legible.reads ⟨_, cut⟩ _) (fun _ => rfl)

theorem Llc.steady : Llc.dissector.Steady :=
  .of_nothing_derived lawful (fun _ _ => rfl) (fun cut _ => legible.reads ⟨_, cut⟩ _) (fun _ => rfl)

theorem Wireless.steady : Wireless.dissector.Steady :=
  .of_nothing_derived lawful (fun _ _ => rfl) (fun cut _ => legible.reads ⟨_, cut⟩ _) (fun _ => rfl)

/-- Raw IP has an empty header and looks at the first byte behind it. -/
theorem RawIp.steady : RawIp.dissector.Steady :=
  .of_nothing_derived lawful (fun _ _ => rfl)
    (fun {h rest rest'} cut hlength => by
      have hempty : h = [] := whole_iff.1 ⟨rest, cut⟩
      subst hempty
      have cut : (if rest.isEmpty then .error .truncated else .ok 0 : Except Error Nat) = .ok 0 :=
        cut
      show (if rest'.isEmpty then .error .truncated else .ok 0 : Except Error Nat) = .ok 0
      rw [← cut]
      cases rest <;> cases rest' <;> first | rfl | cases hlength)
    (fun {h payload payload'} hhead => by
      show Except.ok (next payload') = Except.ok (next payload)
      cases payload <;> cases payload' <;> simp_all [next])

/-! ## §4. Network layers. -/

theorem Arp.steady : Arp.dissector.Steady :=
  .of_nothing_derived lawful (fun _ _ => rfl) (fun cut _ => legible.reads ⟨_, cut⟩ _) (fun _ => rfl)

namespace Ipv6

theorem steady : dissector.Steady where
  lawful := lawful
  reads cut ok _ := Dissector.reads_of_legible legible cut ok
  isSealed _ _ := rfl
  next {h h' payload payload' cx} whole ok _ := by
    have long : 40 ≤ h.length := by rw [whole_iff.1 whole]
    rcases derives.cases ok with ⟨_, rfl⟩ | ⟨_, rfl⟩
    · show next _ = next _
      have hnext : Layout.nextHeader.value (work cx h) = Layout.nextHeader.value h :=
        Field.value_put_of_apart lawful_payloadLength (covers_payloadLength long) (by decide) _
      rw [next_eq long, next_eq (by rw [length_work long]; exact long), hnext]
    · rfl
  measures {h h' cx available stated} whole ok states hpayload := by
    have long : 40 ≤ h.length := by rw [whole_iff.1 whole]
    rw [payloadLength_eq long] at states
    injection states with states
    subst states
    rcases derives.cases ok with ⟨_, rfl⟩ | ⟨short, _⟩
    · -- the length field of IPv6 counts no header
      exact ⟨_, payloadLength_work long cx available,
        Dissector.cut_again 0 available _ cx.payload.length (Nat.zero_le _)
          (Nat.le_of_lt_succ (UInt16.toNat_lt _)) hpayload (by rw [Nat.zero_add]; rfl)⟩
    · exact absurd long short
  keeps {h h' cx} whole ok i underived := by
    have long : 40 ≤ h.length := by rw [whole_iff.1 whole]
    rcases derives.cases ok with ⟨_, rfl⟩ | ⟨_, rfl⟩
    · exact Field.getElem?_put lawful_payloadLength (covers_payloadLength long) _ underived
    · rfl

end Ipv6

namespace Ipv4

/-- Whole headers have their length written over by itself. -/
theorem measured_of_whole {h : Bytes} (whole : dissector.Whole h) (payload : Bytes) :
    measured payload h = Layout.totalLength.put (totalOf h payload) h := by
  obtain ⟨long, hlength⟩ := whole_iff.1 whole
  have hholds : Layout.headerLength.Holds (UInt8.ofNat h.length) h :=
    Field.holds_words (by decide) (covers_headerLength long) hlength
  rw [measured, show Layout.headerLength.put _ h = h from hholds]

theorem isSealed_work {h : Bytes} (whole : dissector.Whole h) (cx : Context) :
    isSealed (work cx h) = isSealed h := by
  have long := (whole_iff.1 whole).1
  have long' := (whole_iff.1 (whole_work whole cx)).1
  have hcovers : ∀ {b : Bytes}, 20 ≤ b.length → Layout.fragmentOffset.stop ≤ b.length :=
    fun hb => Nat.le_trans (by decide) hb
  have hwindow : Layout.fragmentOffset.window (work cx h) = Layout.fragmentOffset.window h :=
    window_work long cx (by decide)
  unfold isSealed
  rw [HeaderFormat.guarded_of_accepts (sized.accepts_of_whole (whole_work whole cx)),
    HeaderFormat.guarded_of_accepts (sized.accepts_of_whole whole),
    Field.get_eq_value (hcovers long), Field.get_eq_value (hcovers long'), Field.value_eq, hwindow]
  rfl

theorem steady : dissector.Steady where
  lawful := lawful
  reads cut ok _ := Dissector.reads_of_legible legible cut ok
  isSealed {h h' cx} whole ok := by
    rcases derives.cases ok with ⟨_, rfl⟩ | ⟨_, rfl⟩
    · exact isSealed_work whole cx
    · rfl
  next {h h' payload payload' cx} whole ok _ := by
    rcases derives.cases ok with ⟨long, rfl⟩ | ⟨_, rfl⟩
    · show next _ = next _
      have hwindow : Layout.protocol.window (work cx h) = Layout.protocol.window h :=
        window_work long cx (by decide)
      rw [next_eq (sized.accepts_of_whole whole),
        next_eq (sized.accepts_of_whole (whole_work whole cx)), Field.value_eq, hwindow]
      rfl
    · rfl
  measures {h h' cx available stated} whole ok states hpayload := by
    have hmax := length_of_whole whole
    rw [payloadLength_eq (sized.accepts_of_whole whole)] at states
    injection states with states
    subst states
    rcases derives.cases ok with ⟨_, rfl⟩ | ⟨short, _⟩
    · exact ⟨_, payloadLength_work whole cx available,
        Dissector.cut_again h.length available _ cx.payload.length (by omega)
          (Nat.le_of_lt_succ (UInt16.toNat_lt _)) hpayload rfl⟩
    · exact absurd (whole_iff.1 whole).1 short
  keeps {h h' cx} whole ok i underived := by
    rcases derives.cases ok with ⟨long, rfl⟩ | ⟨_, rfl⟩
    · have hcovers : Layout.totalLength.stop ≤ h.length := Nat.le_trans (by decide) long
      -- the checksum is written last, so it is taken off first
      rw [work, Field.getElem?_refill lawful_checksum (covers_checksum long _)
          fun hchecksum => underived (.inr hchecksum),
        measured_of_whole whole, Field.getElem?_put lawful_totalLength hcovers _
          fun htotal => underived (.inl htotal)]
    · rfl

end Ipv4

namespace Gre

theorem steady : dissector.Steady where
  lawful := lawful
  reads cut ok _ := Dissector.reads_of_legible legible cut ok
  isSealed _ _ := rfl
  next {h h' payload payload' cx} whole ok _ := by
    rcases derives.cases ok with ⟨accepted, rfl⟩ | ⟨_, rfl⟩
    · show next _ = next _
      have hwindow : Layout.protocol.window (work cx h) = Layout.protocol.window h :=
        window_work accepted cx (by decide)
      rw [next_eq accepted, next_eq (accepts_work accepted cx), Field.value_eq, hwindow]
      rfl
    · rfl
  measures {h h' cx available stated} _ _ states hpayload := ⟨stated, states, hpayload⟩
  keeps {h h' cx} whole ok i underived := by
    rcases derives.cases ok with ⟨accepted, rfl⟩ | ⟨_, rfl⟩
    · unfold work fill?
      split
      · next _ _ _ hpresent =>
        exact Field.getElem?_refill lawful_checksum (covers_checksum accepted hpresent)
          fun hcovers => underived ⟨hpresent, hcovers⟩
      · rfl
    · rfl

end Gre

/-! ## §5. Transport. -/

namespace Udp

theorem steady : dissector.Steady where
  lawful := lawful
  reads cut ok _ := Dissector.reads_of_legible legible cut ok
  isSealed _ _ := rfl
  next _ _ _ := rfl
  measures {h h' cx available stated} whole ok states hpayload := by
    have accepted := accepts_of_whole whole
    rw [payloadLength_eq accepted] at states
    injection states with states
    subst states
    rcases derives.cases ok with ⟨_, rfl⟩ | ⟨refused, _⟩
    · exact ⟨_, payloadLength_work (accepts_iff.1 accepted).1 cx available,
        Dissector.cut_again 8 available _ cx.payload.length (by decide)
          (Nat.le_of_lt_succ (UInt16.toNat_lt _)) hpayload rfl⟩
    · exact absurd accepted refused
  keeps {h h' cx} _ ok i underived := by
    rcases derives.cases ok with ⟨accepted, rfl⟩ | ⟨_, rfl⟩
    · have long := (accepts_iff.1 accepted).1
      rw [work, Field.getElem?_refill lawful_checksum (covers_checksum_put long cx)
          fun hchecksum => underived (.inr hchecksum),
        Field.getElem?_put lawful_length (covers_length long) _
          fun hlength => underived (.inl hlength)]
    · rfl

end Udp

theorem Tcp.steady : Tcp.dissector.Steady :=
  .of_quiet quiet legible (fun _ _ => rfl) fun {h h' cx} whole ok i underived => by
    rcases derives.cases ok with ⟨long, rfl⟩ | ⟨_, rfl⟩
    · have hholds : Layout.headerLength.Holds (UInt8.ofNat h.length) h :=
        Field.holds_words (by decide) (covers_headerLength long) (whole_iff.1 whole).2
      rw [work, Field.getElem?_refill lawful_checksum (covers_checksum_put long _) underived,
        show Layout.headerLength.put _ h = h from hholds]
    · rfl

/-! ## §6. Control messages. -/

/-- A control protocol works on the checksum alone. -/
theorem Control.steady_of {d : Dissector} {fair : Bytes → Prop}
    {fill? : Context → Option (Bytes → UInt16)} (quiet : d.Quiet) (legible : d.Legible fair)
    (r : d.Derives (8 ≤ ·.length) (fun cx => checksum.refill 0 (fill? cx)))
    (payloadLength : ∀ h available, d.payloadLength h available = .ok available)
    (derived : ∀ {h i}, checksum.Covers i → d.kind.Derives h i) : d.Steady :=
  .of_quiet quiet legible payloadLength fun {h h' cx} _ ok i underived => by
    rcases r.cases ok with ⟨long, rfl⟩ | ⟨_, rfl⟩
    · exact Field.getElem?_refill lawful_checksum (covers_checksum long)
        fun hcovers => underived (derived hcovers)
    · rfl

theorem Icmpv4.steady : Icmpv4.dissector.Steady :=
  Control.steady_of quiet legible derives (fun _ _ => rfl) fun covers => covers

theorem Icmpv6.steady : Icmpv6.dissector.Steady :=
  Control.steady_of quiet legible derives (fun _ _ => rfl) fun covers => covers

theorem Igmp.steady : Igmp.dissector.Steady :=
  Control.steady_of quiet legible derives (fun _ _ => rfl) fun covers => covers

/-! ## §7. All of them. -/

theorem Dissector.steady_of_mem_all {d : Dissector} (known : d ∈ all) : d.Steady := by
  cases known using Dissector.all_cases with
  | ethernet => exact Ethernet.steady
  | vlan => exact Vlan.steady
  | arp => exact Arp.steady
  | ipv4 => exact Ipv4.steady
  | ipv6 => exact Ipv6.steady
  | tcp => exact Tcp.steady
  | udp => exact Udp.steady
  | icmpv4 => exact Icmpv4.steady
  | icmpv6 => exact Icmpv6.steady
  | igmp => exact Igmp.steady
  | gre => exact Gre.steady
  | loopback => exact Loopback.steady
  | rawIp => exact RawIp.steady
  | wireless => exact Wireless.steady
  | llc => exact Llc.steady

end PacketLayers
