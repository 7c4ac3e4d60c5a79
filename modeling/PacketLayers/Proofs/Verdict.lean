/-
  PacketLayers.Proofs.Verdict
  ────────────────────────────────
  **EVERY CHECKSUM HOLDS AFTER A PASS.**

  Whole headers get checksums that hold, and the check finds them: what a
  layer lends to the one inside it while checksums are filled is what it lends
  when they are checked, and the payload that a checksum covers is final by
  the time it is filled.

    • `verdict` — the answer of the check, for each protocol and place;
    • `verified_of_recomputeAll` — the pass over layers leads to that answer;
    • `Reachable.checksums_hold` — packets, with the frame check sequence.
-/
import PacketLayers.Proofs.Idempotence
import PacketLayers.Proofs.Legible.Network
import PacketLayers.Proofs.Legible.Transport
import PacketLayers.Proofs.Lengths

namespace PacketLayers

/-! ## §1. What the check answers. -/

/-- Protocols that lend a pseudo header to what is inside them. -/
def LayerKind.isIp : LayerKind → Bool
  | ipv4 | ipv6 => true
  | _ => false

/-- The answer of the check for a header that is up to date: its checksum
holds, unless it has none, or none that can be checked outside an IP layer. -/
def verdict (kind : LayerKind) (header : Bytes) (insideIp : Bool) : Option Bool :=
  match kind with
  | .ipv4 | .icmpv4 | .igmp => some true
  | .gre => if Gre.Layout.hasChecksum.value header = true then some true else none
  | .tcp | .udp | .icmpv6 => if insideIp = true then some true else none
  | _ => none

/-! ## §2. Each protocol. -/

namespace Dissector

/-- Whole headers lend what IP headers lend, and are filled so that the check
holds. -/
structure Checked (d : Dissector) : Prop where
  lends : ∀ {h : Bytes}, d.Whole h →
    ∃ lent, d.pseudoHeader h = .ok lent ∧ lent.isSome = d.kind.isIp
  holds : ∀ {h h' : Bytes} {cx : Context}, d.Whole h → cx.mode = .fill →
    d.recompute h cx = .ok h' → d.checksumValid h' cx = .ok (verdict d.kind h' cx.pseudo.isSome)
  /-- Zero would say that there is no checksum. -/
  udp_nonzero : ∀ {h h' : Bytes} {cx : Context}, d.Whole h → cx.mode = .fill →
    d.recompute h cx = .ok h' → d.kind = .udp → cx.pseudo.isSome = true →
      ∃ v, Udp.Layout.checksum.get h' = .ok v ∧ v ≠ 0

variable {d : Dissector}

/-- A protocol whose headers have no checksum. -/
theorem Checked.of_unchecked
    (lends : ∀ {h : Bytes}, d.Whole h →
      ∃ lent, d.pseudoHeader h = .ok lent ∧ lent.isSome = d.kind.isIp)
    (unchecked : ∀ h cx, d.checksumValid h cx = .ok none)
    (exempt : ∀ h insideIp, verdict d.kind h insideIp = none) (other : d.kind ≠ .udp) :
    d.Checked where
  lends := lends
  holds _ _ _ := by rw [unchecked, exempt]
  udp_nonzero _ _ _ udp := absurd udp other

/-- A protocol above IP, given what its check answers. -/
theorem Checked.of_quiet {guard : Bytes → Prop} {work : Context → Bytes → Bytes} (quiet : d.Quiet)
    (r : d.Derives guard work) (guarded : ∀ {h : Bytes}, d.Whole h → guard h)
    (notIp : d.kind.isIp = false)
    (holds : ∀ {h : Bytes} {cx : Context}, d.Whole h → cx.mode = .fill →
      d.checksumValid (work cx h) cx = .ok (verdict d.kind (work cx h) cx.pseudo.isSome))
    (nonzero : ∀ {h : Bytes} {cx : Context}, d.Whole h → cx.mode = .fill → d.kind = .udp →
      cx.pseudo.isSome = true → ∃ v, Udp.Layout.checksum.get (work cx h) = .ok v ∧ v ≠ 0) :
    d.Checked where
  lends _ := ⟨none, quiet.pseudoHeader _, notIp.symm⟩
  holds whole fills ok := by
    rcases r.cases ok with ⟨_, rfl⟩ | ⟨refused, _⟩
    · exact holds whole fills
    · exact absurd (guarded whole) refused
  udp_nonzero whole fills ok udp inside := by
    rcases r.cases ok with ⟨_, rfl⟩ | ⟨refused, _⟩
    · exact nonzero whole fills udp inside
    · exact absurd (guarded whole) refused

end Dissector

/-- A checksum that is there wherever there is a pseudo header. -/
theorem map_true_eq_verdict {kind : LayerKind} (inside : kind = .tcp ∨ kind = .udp ∨ kind = .icmpv6)
    (header : Bytes) (pseudo : Option PseudoHeader) :
    (pseudo.map fun _ => true) = verdict kind header pseudo.isSome := by
  rcases inside with rfl | rfl | rfl <;> cases pseudo <;> rfl

namespace Ipv4

theorem checked : dissector.Checked where
  lends whole := ⟨_, pseudoHeader_eq (sized.accepts_of_whole whole), rfl⟩
  holds {h h' cx} whole fills ok := by
    rcases derives.cases ok with ⟨_, rfl⟩ | ⟨short, _⟩
    · exact checksumValid_work whole fills
    · exact absurd (whole_iff.1 whole).1 short
  udp_nonzero _ _ _ udp := by cases udp

end Ipv4

namespace Ipv6

theorem checked : dissector.Checked :=
  .of_unchecked
    (fun {_} whole => ⟨_, pseudoHeader_eq (Nat.le_of_eq (whole_iff.1 whole).symm), rfl⟩)
    (fun _ _ => rfl) (fun _ _ => rfl) (by decide)

end Ipv6

namespace Gre

theorem checked : dissector.Checked where
  lends _ := ⟨none, rfl, rfl⟩
  holds {h h' cx} whole fills ok := by
    have accepted := sized.accepts_of_whole whole
    rcases derives.cases ok with ⟨_, rfl⟩ | ⟨refused, _⟩
    · -- the flag is read from the new header, and is that of the old one
      have hflag : Layout.hasChecksum.value (work cx h) = hasChecksum h := by
        rw [hasChecksum_eq (Nat.le_trans (by decide) (accepts_iff.1 (accepts_work accepted cx)).1),
          value_flags_work accepted, hasChecksum]
      rw [checksumValid_work whole fills, ← hflag]
      rfl
    · exact absurd accepted refused
  udp_nonzero _ _ _ udp := by cases udp

end Gre

namespace Tcp

theorem checked : dissector.Checked :=
  .of_quiet quiet derives (fun whole => (whole_iff.1 whole).1) rfl
    (fun whole fills => by
      rw [checksumValid_work whole fills, map_true_eq_verdict (.inl rfl)]
      rfl)
    (fun _ _ udp => by cases udp)

end Tcp

namespace Udp

/-- A checksum that was filled is not zero. -/
theorem checksum_work_ne_zero {h : Bytes} (long : 8 ≤ h.length) {cx : Context}
    (fills : cx.mode = .fill) (inside : cx.pseudo.isSome = true) :
    Layout.checksum.value (work cx h) ≠ 0 := by
  obtain ⟨pseudo, hlent⟩ := Option.isSome_iff_exists.1 inside
  rw [work, checksum?, fills, hlent]
  show Layout.checksum.value (Layout.checksum.put _ _) ≠ 0
  rw [Layout.checksum, Field.value_put_word Field.fits_word (covers_checksum_put long cx)]
  dsimp only
  split
  · decide
  · assumption

theorem checked : dissector.Checked :=
  .of_quiet quiet derives (fun whole => accepts_of_whole whole) rfl
    (fun whole fills => by
      rw [checksumValid_work whole fills, map_true_eq_verdict (.inr (.inl rfl))]
      rfl)
    (fun {h cx} whole fills _ inside => by
      have long : 8 ≤ h.length := Nat.le_of_eq (whole_length whole).symm
      have hcovers : Layout.checksum.stop ≤ (work cx h).length := by
        rw [length_work long]
        exact long
      exact ⟨_, Field.get_eq_value hcovers, checksum_work_ne_zero long fills inside⟩)

end Udp

namespace Icmpv4

theorem checked : dissector.Checked :=
  .of_quiet quiet derives (fun whole => Nat.le_of_eq ((Dissector.whole_fixed rfl).1 whole).symm) rfl
    (fun whole fills => checksumValid_work ((Dissector.whole_fixed rfl).1 whole) fills)
    (fun _ _ udp => by cases udp)

end Icmpv4

namespace Icmpv6

theorem checked : dissector.Checked :=
  .of_quiet quiet derives (fun whole => Nat.le_of_eq ((Dissector.whole_fixed rfl).1 whole).symm) rfl
    (fun whole fills => by
      rw [checksumValid_work ((Dissector.whole_fixed rfl).1 whole) fills,
        map_true_eq_verdict (.inr (.inr rfl))]
      rfl)
    (fun _ _ udp => by cases udp)

end Icmpv6

namespace Igmp

theorem checked : dissector.Checked :=
  .of_quiet quiet derives (fun whole => Nat.le_of_eq ((Dissector.whole_fixed rfl).1 whole).symm) rfl
    (fun whole fills => checksumValid_work ((Dissector.whole_fixed rfl).1 whole) fills)
    (fun _ _ udp => by cases udp)

end Igmp

/-- The checksums of all protocols of the library are filled so that they
hold. -/
theorem Dissector.checked_of_mem_all {d : Dissector} (known : d ∈ all) : d.Checked := by
  have unchecked : ∀ {d : Dissector}, (∀ h, d.pseudoHeader h = .ok none) → d.kind.isIp = false →
      (∀ h cx, d.checksumValid h cx = .ok none) → (∀ h insideIp, verdict d.kind h insideIp = none) →
      d.kind ≠ .udp → d.Checked := fun lends notIp valid =>
    .of_unchecked (fun {h} _ => ⟨none, lends h, notIp.symm⟩) valid
  cases known using Dissector.all_cases with
  | ethernet | vlan | arp | loopback | rawIp | wireless | llc =>
    exact unchecked (fun _ => rfl) rfl (fun _ _ => rfl) (fun _ _ => rfl) (by decide)
  | ipv4 => exact Ipv4.checked
  | ipv6 => exact Ipv6.checked
  | tcp => exact Tcp.checked
  | udp => exact Udp.checked
  | icmpv4 => exact Icmpv4.checked
  | icmpv6 => exact Icmpv6.checked
  | igmp => exact Igmp.checked
  | gre => exact Gre.checked

/-! ## §3. All layers. -/

namespace PlainLayer

/-- The checksum of a layer around a payload holds, with the pseudo header
that is lent to it. -/
structure Holds (payload : Bytes) (pseudo : Option PseudoHeader) (l : PlainLayer) : Prop where
  verdict : l.dissector.checksumValid l.header ⟨payload, pseudo, .fill⟩
    = .ok (verdict l.kind l.header pseudo.isSome)
  udp_nonzero : l.kind = .udp → pseudo.isSome = true →
    ∃ v, Udp.Layout.checksum.get l.header = .ok v ∧ v ≠ 0

/-- The checksums of all layers hold, with the pseudo headers that IP layers
lend. -/
def Verified (body : Option Bytes) : Option PseudoHeader → List PlainLayer → Prop
  | _, [] => True
  | pseudo, l :: inner =>
    l.Holds (wire inner body) pseudo
      ∧ ∃ lent, l.dissector.pseudoHeader l.header = .ok lent ∧ lent.isSome = l.kind.isIp
        ∧ Verified body lent inner

variable {body : Option Bytes}

/-- **One pass makes all checksums of whole headers hold.** -/
theorem verified_of_recomputeAll {layers : List PlainLayer} :
    ∀ {pseudo : Option PseudoHeader} {out : List PlainLayer},
      (∀ l ∈ layers, l.dissector ∈ Dissector.all) → (∀ l ∈ layers, l.Whole) →
      recomputeAll .fill body pseudo layers = .ok out → Verified body pseudo out := by
  induction layers with
  | nil =>
    intro pseudo out _ _ ok
    injection ok with ok
    rw [← ok]
    trivial
  | cons l inner ih =>
    intro pseudo out known whole ok
    have hknown := known l List.mem_cons_self
    have hlaw := Dissector.lawful_of_mem_all hknown
    have hchecked := Dissector.checked_of_mem_all hknown
    obtain ⟨h₁, h₂, lent, inner', h₃, hannounce, hfit, hlent, hinner, hrefresh, rfl⟩ :=
      recomputeAll_cons_eq_ok ok
    have hwork := (Dissector.refresh_eq_ok hlaw).1 hrefresh
    have hwhole₂ := (Dissector.whole_announced hlaw (whole l List.mem_cons_self) hannounce hfit).1
    obtain ⟨hwhole₃, hsame⟩ := hlaw.whole_recompute hwhole₂ hwork
    -- what was lent while the checksums inside were filled is lent still
    obtain ⟨lent', hlent', hisIp⟩ := hchecked.lends hwhole₃
    obtain rfl : lent = lent' := Except.ok.inj (hlent.symm.trans (hsame.symm.trans hlent'))
    exact ⟨⟨hchecked.holds hwhole₂ rfl hwork, hchecked.udp_nonzero hwhole₂ rfl hwork⟩, lent, hlent',
      hisIp, ih (fun m hm => known m (List.mem_cons_of_mem l hm))
        (fun m hm => whole m (List.mem_cons_of_mem l hm)) hinner⟩

/-- What lends to the layer at a depth: nothing, or the layer around it. -/
def Lent (pseudo : Option PseudoHeader) (layers : List PlainLayer) :
    Nat → Option PseudoHeader → Prop
  | 0, lent => lent = pseudo
  | above + 1, lent => ∃ parent, layers[above]? = some parent
      ∧ parent.dissector.pseudoHeader parent.header = .ok lent ∧ lent.isSome = parent.kind.isIp

/-- Each layer by itself. -/
theorem Verified.holds_at {layers : List PlainLayer} :
    ∀ {pseudo : Option PseudoHeader}, Verified body pseudo layers →
      ∀ {depth : Nat} {l : PlainLayer}, layers[depth]? = some l →
        ∃ lent, Lent pseudo layers depth lent
          ∧ l.Holds (wire (layers.drop (depth + 1)) body) lent := by
  induction layers with
  | nil => intro _ _ _ _ found; cases found
  | cons first inner ih =>
    intro pseudo ⟨hfirst, lent, hlent, hisIp, hinner⟩ depth l found
    cases depth with
    | zero =>
      obtain rfl : first = l := Option.some.inj found
      exact ⟨pseudo, rfl, hfirst⟩
    | succ depth =>
      obtain ⟨lent', hlent', hholds⟩ := ih hinner found
      refine ⟨lent', ?_, hholds⟩
      -- directly inside the first layer, or further in
      cases depth with
      | zero =>
        obtain rfl : lent' = lent := hlent'
        exact ⟨first, rfl, hlent, hisIp⟩
      | succ depth => exact hlent'

end PlainLayer

/-! ## §4. Packets. -/

namespace Packet

variable {q : Packet}

/-- The frame check sequence holds that the layers call for. -/
theorem fcsValid_of_updated (laid : q.LaidOut) (updated : q.plain.updateFcs = q.plain) :
    q.fcsValid = true := by
  have hframe := laid.frameBytes
  have hfcs := congrArg PlainPacket.fcs updated
  unfold fcsValid fcs?
  cases hr : q.fcs with
  | none => rfl
  | some r =>
    -- the four bytes that were written spell the number that they were written for
    have hbytes : r.bytes q.arena = (Bytes.ofNat fcsLength q.computedFcs.toNat).reverse := by
      rw [computedFcs, hframe]
      simp only [PlainPacket.updateFcs, plain, hr, Option.map_some, Option.some.injEq] at hfcs
      exact hfcs.symm
    have hlength : (r.bytes q.arena).length = fcsLength := by
      rw [hbytes, List.length_reverse, Bytes.length_ofNat]
    have hsize := q.computedFcs.toNat_lt
    have hnumber : Bytes.toNat (r.bytes q.arena).reverse = q.computedFcs.toNat := by
      rw [hbytes, List.reverse_reverse, Bytes.toNat_ofNat]
      exact Nat.mod_eq_of_lt hsize
    simp only
    rw [if_neg (by omega), ← hlength, List.take_length, hnumber, UInt32.ofNat_toNat]
    exact beq_self_eq_true _

/-- A layer is checked as its plain form is. -/
theorem layerChecksumValid_of_lent {depth : Nat} {l : Layer}
    {lent : Option PseudoHeader} (found : q.layers[depth]? = some l)
    (hlent : PlainLayer.Lent none q.plain.layers depth lent) :
    q.layerChecksumValid depth l
        = l.dissector.checksumValid (q.header l) ⟨q.payloadBytes depth, lent, .fill⟩
      ∧ lent.isSome = (q.parent? depth).any (·.kind.isIp) := by
  unfold layerChecksumValid
  cases depth with
  | zero =>
    obtain rfl : lent = none := hlent
    exact ⟨rfl, rfl⟩
  | succ above =>
    obtain ⟨parent, hparent, hlends, hisIp⟩ := hlent
    rw [plain, List.getElem?_map, Option.map_eq_some_iff] at hparent
    obtain ⟨around, haround, rfl⟩ := hparent
    have hparent? : q.parent? (above + 1) = some around := haround
    have hlends : q.lent (some around) = .ok lent := hlends
    rw [hparent?, hlends, ok_bind, hisIp]
    exact ⟨rfl, rfl⟩

end Packet

/-- **Every checksum holds after one pass.**  Take any packet that can come
about from the protocols of the library, each of whose headers its own
dissector accepts at its full length, or is the empty header of raw IP.
Bringing the packet up to date succeeds, and then the check of every layer
says that its checksum holds, or that there is none: in protocols without one,
in GRE headers without the flag for it, and in TCP, UDP and ICMPv6 outside an
IP layer.  No UDP checksum inside an IP layer is zero, and the frame check
sequence holds. -/
theorem Reachable.checksums_hold {p : Packet} (h : Reachable (· ∈ Dissector.all) p)
    (accepted : ∀ l ∈ p.layers,
      l.dissector.headerLength (p.header l) = .ok (p.header l).length
        ∨ l.dissector = RawIp.dissector ∧ p.header l = []) :
    ∃ q, p.recompute .fill = .ok q ∧ q.shapes = p.shapes
      ∧ (∀ {depth : Nat} {l : Layer}, q.layers[depth]? = some l →
          q.layerChecksumValid depth l
              = .ok (verdict l.kind (q.header l) ((q.parent? depth).any (·.kind.isIp)))
            ∧ (l.kind = .udp → (q.parent? depth).any (·.kind.isIp) = true →
                ∃ v, Udp.Layout.checksum.get (q.header l) = .ok v ∧ v ≠ 0))
      ∧ q.fcsValid = true := by
  have hcoherent := h.coherent
  have hknown : ∀ l ∈ p.layers, l.dissector ∈ Dissector.all := fun l hl =>
    hcoherent.linked.known l.shape (List.mem_map_of_mem hl)
  have hknown' : ∀ l ∈ p.plain.layers, l.dissector ∈ Dissector.all := by
    intro l hl
    obtain ⟨m, hm, rfl⟩ := List.mem_map.1 hl
    exact hknown m hm
  have hwhole : ∀ l ∈ p.plain.layers, l.Whole := by
    intro l hl
    obtain ⟨m, hm, rfl⟩ := List.mem_map.1 hl
    show m.dissector.Whole (p.header m)
    rcases accepted m hm with hlength | ⟨hraw, hempty⟩
    · exact ⟨[], by rw [List.append_nil, hlength]⟩
    · rw [hraw, hempty]
      exact RawIp.whole_iff.2 rfl
  obtain ⟨q, hq⟩ := Packet.recompute_succeeds hcoherent.laidOut
    (fun l hl => (Dissector.lawful_of_mem_all (hknown l hl)).total) .fill
  have hlaid := (hcoherent.of_recompute hq).laidOut
  obtain ⟨hall, hbody⟩ := Packet.recomputeAll_of_recompute hcoherent.laidOut hq
  have hverified := PlainLayer.verified_of_recomputeAll hknown' hwhole hall
  refine ⟨q, hq, ?_, fun {depth l} found => ?_, Packet.fcsValid_of_updated hlaid ?_⟩
  · rw [Packet.shapes_plain, Packet.shapes_plain]
    exact PlainLayer.recomputeAll_shapes hall
  · have hfound : q.plain.layers[depth]? = some (l.plain q.arena) := by
      rw [Packet.plain, List.getElem?_map, found, Option.map_some]
    obtain ⟨lent, hlent, holds⟩ := hverified.holds_at hfound
    obtain ⟨hcheck, hisIp⟩ := Packet.layerChecksumValid_of_lent found hlent
    rw [← hbody, ← Packet.payloadBytes_eq hlaid found] at holds
    rw [hcheck, ← hisIp]
    exact ⟨holds.verdict, holds.udp_nonzero⟩
  · -- another frame check sequence of the same layers is the same
    obtain ⟨layers, _, hsealed⟩ := PlainPacket.recompute_eq_ok.1
      (Packet.recompute_plain hcoherent.laidOut hq)
    rw [hsealed]
    exact @PlainPacket.sealed_sealed _ .fill

/-- A UDP datagram in an IPv4 packet, both without checksums and behind them a
wrong frame check sequence. -/
theorem Reachable.checksums_hold_udp :
    ∃ p q l, Registry.standard.decodeFrom Ipv4.dissector (some (.link .ipv4))
          ([0x45, 0, 0, 28, 0, 0, 0, 0, 64, 17, 0, 0, 10, 0, 0, 1, 10, 0, 0, 2]
            ++ [0, 1, 0, 2, 0, 8, 0, 0] ++ [0, 0, 0, 0]) true = .ok (.complete p)
      ∧ p.recompute .fill = .ok q ∧ q.layers[1]? = some l ∧ l.kind = .udp
      ∧ q.layerChecksumValid 1 l = .ok (some true) ∧ q.fcsValid = true := by
  have hdecode : ∃ p l₀ l₁, Registry.standard.decodeFrom Ipv4.dissector (some (.link .ipv4))
        ([0x45, 0, 0, 28, 0, 0, 0, 0, 64, 17, 0, 0, 10, 0, 0, 1, 10, 0, 0, 2]
          ++ [0, 1, 0, 2, 0, 8, 0, 0] ++ [0, 0, 0, 0]) true = .ok (.complete p)
      ∧ p.layers = [l₀, l₁] ∧ l₀.kind = .ipv4 ∧ l₁.kind = .udp
      ∧ l₀.dissector.headerLength (p.header l₀) = .ok (p.header l₀).length
      ∧ l₁.dissector.headerLength (p.header l₁) = .ok (p.header l₁).length :=
    ⟨_, _, _, rfl, rfl, rfl, rfl, rfl, rfl⟩
  obtain ⟨p, l₀, l₁, hp, hlayers, hkind₀, hkind₁, haccepts₀, haccepts₁⟩ := hdecode
  have hreach : Reachable (· ∈ Dissector.all) p :=
    .decoded Registry.standard_uses (by simp [Dissector.all]) hp rfl
  obtain ⟨q, hq, hshapes, hholds, hfcs⟩ := Reachable.checksums_hold hreach fun l hl => by
    rw [hlayers] at hl
    rcases List.mem_pair.1 hl with rfl | rfl
    · exact .inl haccepts₀
    · exact .inl haccepts₁
  -- the layers of the packet are those of before
  rw [Packet.shapes, Packet.shapes, hlayers] at hshapes
  obtain ⟨m₀, rest, hq', hm₀, hrest⟩ := List.map_eq_cons_iff.1 hshapes
  obtain ⟨m₁, nothing, rfl, hm₁, hnothing⟩ := List.map_eq_cons_iff.1 hrest
  have hkind₀' : m₀.kind = .ipv4 := (congrArg (fun s : Shape => s.1.kind) hm₀).trans hkind₀
  have hkind₁' : m₁.kind = .udp := (congrArg (fun s : Shape => s.1.kind) hm₁).trans hkind₁
  have hfound : q.layers[1]? = some m₁ := by rw [hq']; rfl
  have hparent : q.parent? 1 = some m₀ := by
    show q.layers[0]? = _
    rw [hq']
    rfl
  have hvalid := (hholds hfound).1
  rw [hparent, Option.any_some, hkind₀', hkind₁'] at hvalid
  exact ⟨p, q, m₁, hp, hq, hfound, hkind₁', hvalid, hfcs⟩

end PacketLayers
