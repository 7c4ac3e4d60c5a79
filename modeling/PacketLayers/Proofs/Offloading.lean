/-
  PacketLayers.Proofs.Offloading
  ────────────────────────────────
  **LEAVING CHECKSUMS TO THE HARDWARE CHANGES NOTHING ELSE.**

  A packet is brought up to date with its checksums filled, or with its
  checksums left alone.  Every decision of the pass, which name to write, which
  length a header gets, what it lends, is made on the way in, before a
  checksum is written; on the way out a header depends on what is inside it by
  its checksum and by a number of bytes.  So the two passes go in step:

    • `Offloads` — what a protocol does with its checksum, and without;
    • `Offloaded` — two runs of the pass that differ in checksums only;
    • `offloaded_of_recomputeAll` — the two modes, side by side;
    • `Reachable.recompute_keep` — all of this, for every reachable packet.
-/
import PacketLayers.Packet.Inspect
import PacketLayers.Proofs.Idempotence
import PacketLayers.Proofs.Steady

namespace PacketLayers

/-! ## §1. Where the checksum is. -/

/-- Where a header of the protocol has its checksum, if it has one. -/
def LayerKind.checksum? : LayerKind → Bytes → Option (Field UInt16)
  | ipv4, _ => some Ipv4.Layout.checksum
  | tcp, _ => some Tcp.Layout.checksum
  | udp, _ => some Udp.Layout.checksum
  | icmpv4, _ => some Icmpv4.Layout.checksum
  | icmpv6, _ => some Icmpv6.Layout.checksum
  | igmp, _ => some Igmp.Layout.checksum
  | gre, h => if Gre.hasChecksum h then some Gre.checksum else none
  | _, _ => none

/-- The byte belongs to the checksum of the header. -/
def LayerKind.ChecksumAt (kind : LayerKind) (h : Bytes) (i : Nat) : Prop :=
  ∃ f, kind.checksum? h = some f ∧ f.Covers i

theorem LayerKind.not_checksumAt {kind : LayerKind} {h : Bytes} (none : kind.checksum? h = none)
    (i : Nat) : ¬ kind.ChecksumAt h i := by
  intro ⟨f, found, _⟩
  rw [none] at found
  cases found

theorem LayerKind.checksumAt_iff {kind : LayerKind} {h : Bytes} {f : Field UInt16}
    (found : kind.checksum? h = some f) (i : Nat) : kind.ChecksumAt h i ↔ f.Covers i := by
  constructor
  · intro ⟨g, hg, covers⟩
    rw [found] at hg
    injection hg with hg
    subst hg
    exact covers
  · intro covers
    exact ⟨f, found, covers⟩

namespace Field

variable {α β : Type} {f : Field α} {g : Field β}

/-- Fields apart from each other have no byte in common. -/
theorem Apart.not_covers (apart : f.Apart g) {i : Nat} (covers : f.Covers i) : ¬ g.Covers i := by
  intro other
  unfold Apart at apart
  unfold Covers at covers other
  omega

end Field

/-- A header that gets another length keeps its bytes, as many as there is room
for. -/
theorem Bytes.getElem?_resize {h : Bytes} {n i : Nat} (there : i < h.length) (room : i < n) :
    (h.resize n)[i]? = h[i]? := by
  unfold resize
  rw [List.getElem?_append_left (by rw [List.length_take]; omega), List.getElem?_take_of_lt room]

/-! ## §2. What a protocol does with its checksum, and without. -/

namespace Dissector

/-- The checksum of a header takes part in nothing but itself. -/
structure Offloads (d : Dissector) : Prop where
  /-- A payload is named outside of the checksum. -/
  named : ∀ {h h' : Bytes} {o : Discriminant}, d.setNext h o = .ok h' →
    d.kind.checksum? h' = d.kind.checksum? h ∧ ∀ i, d.kind.ChecksumAt h i → h'[i]? = h[i]?
  /-- There is room for it in the length that the header gets. -/
  fitted : ∀ {h h' : Bytes}, d.fit h = .ok h' →
    d.kind.checksum? h' = d.kind.checksum? h
      ∧ ∀ i, d.kind.ChecksumAt h i → i < h.length → h'[i]? = h[i]?
  /-- It is left alone on demand. -/
  kept : ∀ {h h' : Bytes} {cx : Context}, cx.mode = .keep → d.recompute h cx = .ok h' →
    ∀ i, d.kind.ChecksumAt h i → h'[i]? = h[i]?
  /-- All else depends on no more than the length of the payload. -/
  alike : ∀ {h h₁ h₂ : Bytes} {cx cx' : Context}, cx.payload.length = cx'.payload.length →
    d.recompute h cx = .ok h₁ → d.recompute h cx' = .ok h₂ →
      ∀ i, ¬ d.kind.ChecksumAt h i → h₁[i]? = h₂[i]?

variable {d : Dissector}

/-- A protocol without checksums. -/
theorem Offloads.of_none (none : ∀ h, d.kind.checksum? h = none)
    (alike : ∀ {h : Bytes} {cx cx' : Context}, cx.payload.length = cx'.payload.length →
      d.recompute h cx = d.recompute h cx') : d.Offloads where
  named _ := ⟨(none _).trans (none _).symm,
    fun i there => absurd there (LayerKind.not_checksumAt (none _) i)⟩
  fitted _ := ⟨(none _).trans (none _).symm,
    fun i there => absurd there (LayerKind.not_checksumAt (none _) i)⟩
  kept _ _ i there := absurd there (LayerKind.not_checksumAt (none _) i)
  alike {h h₁ h₂ cx cx'} length ok₁ ok₂ i _ := by
    rw [alike length, ok₂] at ok₁
    injection ok₁ with ok₁
    rw [ok₁]

/-- A name apart from the checksum leaves it as it is. -/
theorem Names.getElem?_of_apart {α β : Type} {guard : Bytes → Prop} {field : Field α}
    {name : α → Discriminant} (n : d.Names guard field name) {f : Field β} (apart : f.Apart field)
    {h h' : Bytes} {o : Discriminant} (ok : d.setNext h o = .ok h') {i : Nat} (covers : f.Covers i) :
    h'[i]? = h[i]? := by
  rcases n.cases h o with ⟨v, _, hg, hset⟩ | ⟨_, hset⟩
  · rw [hset] at ok
    injection ok with ok
    rw [← ok]
    exact Field.getElem?_put n.law (n.covers hg) v (apart.not_covers covers)
  · rw [hset] at ok
    injection ok with ok
    rw [ok]

/-- A header that asks for room for its checksum keeps it. -/
theorem getElem?_of_fit {h h' : Bytes} (ok : d.fit h = .ok h')
    {n : Nat} (required : d.requiredLength h = .ok (some n)) {i : Nat} (there : i < h.length)
    (room : i < n) : h'[i]? = h[i]? := by
  rw [fit_eq_resize required] at ok
  injection ok with ok
  rw [← ok]
  exact Bytes.getElem?_resize there room

/-- A protocol that measures its headers and then fills a checksum, or does
not. -/
theorem Offloads.of_refill {f : Field UInt16} {guard : Bytes → Prop}
    {fill? : Context → Option (Bytes → UInt16)} (measured : Bytes → Bytes → Bytes)
    (found : ∀ h, d.kind.checksum? h = some f) (law : f.Lawful)
    (derives : d.Derives guard (fun cx h => f.refill 0 (fill? cx) (measured cx.payload h)))
    (keeps : ∀ {cx : Context}, cx.mode = .keep → fill? cx = none)
    (covers : ∀ {h : Bytes} (payload : Bytes), guard h → f.stop ≤ (measured payload h).length)
    (measures : ∀ {h : Bytes} (payload : Bytes), guard h → ∀ i, f.Covers i →
      (measured payload h)[i]? = h[i]?)
    (alike : ∀ {h payload payload' : Bytes}, payload.length = payload'.length →
      measured payload h = measured payload' h)
    (named : ∀ {h h' : Bytes} {o : Discriminant}, d.setNext h o = .ok h' → ∀ i, f.Covers i →
      h'[i]? = h[i]?)
    (required : ∀ h, ∃ n, d.requiredLength h = .ok (some n) ∧ f.stop ≤ n) : d.Offloads where
  named ok := by
    refine ⟨(found _).trans (found _).symm, ?_⟩
    intro i there
    exact named ok i ((LayerKind.checksumAt_iff (found _) i).1 there)
  fitted {h h'} ok := by
    refine ⟨(found _).trans (found _).symm, ?_⟩
    intro i there inside
    obtain ⟨n, hn, room⟩ := required h
    have hstop := ((LayerKind.checksumAt_iff (found h) i).1 there).2
    exact getElem?_of_fit ok hn inside (Nat.lt_of_lt_of_le hstop room)
  kept {h h' cx} mode ok i there := by
    rcases derives.cases ok with ⟨hg, rfl⟩ | ⟨_, rfl⟩
    · show (f.refill 0 (fill? cx) _)[i]? = _
      rw [keeps mode]
      exact measures cx.payload hg i ((LayerKind.checksumAt_iff (found h) i).1 there)
    · rfl
  alike {h h₁ h₂ cx cx'} length ok₁ ok₂ i elsewhere := by
    have outside : ¬ f.Covers i := fun there =>
      elsewhere ((LayerKind.checksumAt_iff (found h) i).2 there)
    -- both passes work on the header or neither does
    rcases derives.cases ok₁ with ⟨hg, rfl⟩ | ⟨hg, rfl⟩
    · rcases derives.cases ok₂ with ⟨_, rfl⟩ | ⟨hg', _⟩
      · show (f.refill 0 (fill? cx) _)[i]? = (f.refill 0 (fill? cx') _)[i]?
        rw [Field.getElem?_refill law (covers _ hg) outside,
          Field.getElem?_refill law (covers _ hg) outside, alike length]
      · exact absurd hg hg'
    · rcases derives.cases ok₂ with ⟨hg', _⟩ | ⟨_, rfl⟩
      · exact absurd hg' hg
      · rfl

end Dissector

/-! ## §3. The protocols. -/

/-- A protocol that derives nothing has nothing to leave alone. -/
theorem Dissector.Offloads.of_nothing_derived {d : Dissector}
    (none : ∀ h, d.kind.checksum? h = none) (derives : ∀ h cx, d.recompute h cx = .ok h) :
    d.Offloads := by
  refine .of_none none ?_
  intro h cx cx' _
  rw [derives, derives]

/-- Ethernet writes the length of its payload, at most. -/
theorem Ethernet.offloads : Ethernet.dissector.Offloads := by
  refine .of_none (fun _ => rfl) ?_
  intro h cx cx' length
  show recompute h cx = recompute h cx'
  rw [recompute_eq, recompute_eq, refreshed, refreshed, length]

theorem Ipv6.offloads : Ipv6.dissector.Offloads := by
  refine .of_none (fun _ => rfl) ?_
  intro h cx cx' length
  by_cases long : 40 ≤ h.length
  · rw [derives.works cx long, derives.works cx' long, work, work, lengthOf, lengthOf, length]
  · rw [derives.refuses cx long, derives.refuses cx' long]

namespace Ipv4

theorem offloads : dissector.Offloads := by
  refine .of_refill measured (fun _ => rfl) lawful_checksum
    derives ?_ (fun payload long => covers_checksum long payload) ?_ ?_ ?_ ?_
  · intro cx mode
    rw [checksum?, mode]
  · intro h payload long i covers
    have hapart : Layout.checksum.Apart Layout.totalLength ∧ Layout.checksum.Apart
      Layout.headerLength := by decide
    rw [measured, Field.getElem?_put lawful_totalLength (covers_totalLength long _) _
        (hapart.1.not_covers covers),
      Field.getElem?_put lawful_headerLength (covers_headerLength long) _
        (hapart.2.not_covers covers)]
  · intro h payload payload' length
    rw [measured, measured, totalOf, totalOf, length]
  · intro h h' o ok i covers
    exact names.getElem?_of_apart (f := Layout.checksum) (by decide) ok covers
  · intro h
    refine ⟨requiredLength h, rfl, ?_⟩
    show 12 ≤ requiredLength h
    unfold requiredLength minHeaderLength
    split <;> omega

end Ipv4

/-- What says nothing about its payload names it nowhere. -/
theorem Dissector.Quiet.getElem?_named {d : Dissector} (quiet : d.Quiet) {h h' : Bytes}
    {o : Discriminant} (ok : d.setNext h o = .ok h') (i : Nat) : h'[i]? = h[i]? := by
  rw [quiet.setNext] at ok
  injection ok with ok
  rw [ok]

theorem Udp.offloads : Udp.dissector.Offloads := by
  refine .of_refill (fun payload => Layout.length.put (lengthOf payload))
    (fun _ => rfl) lawful_checksum derives ?_ ?_ ?_ ?_ (fun ok i _ => quiet.getElem?_named ok i)
    (fun h => ⟨8, rfl, Nat.le_refl 8⟩)
  · intro cx mode
    rw [checksum?, mode]
  · intro h payload accepted
    show 8 ≤ (Layout.length.put _ h).length
    have long := (accepts_iff.1 accepted).1
    rw [Field.length_put lawful_length (covers_length long)]
    exact long
  · intro h payload accepted i covers
    have hapart : Layout.checksum.Apart Layout.length := by decide
    exact Field.getElem?_put lawful_length (covers_length (accepts_iff.1 accepted).1) _
      (hapart.not_covers covers)
  · intro h payload payload' length
    show Layout.length.put (lengthOf payload) h = Layout.length.put (lengthOf payload') h
    rw [lengthOf, lengthOf, length]

theorem Tcp.offloads : Tcp.dissector.Offloads := by
  refine .of_refill (fun _ h => Layout.headerLength.put (UInt8.ofNat h.length) h) (fun _ => rfl)
    lawful_checksum derives ?_ (fun _ long => covers_checksum_put long _) ?_ (fun _ => rfl)
    (fun ok i _ => quiet.getElem?_named ok i) ?_
  · intro cx mode
    rw [checksum?, mode]
  · intro h payload long i covers
    have hapart : Layout.checksum.Apart Layout.headerLength := by decide
    exact Field.getElem?_put lawful_headerLength (covers_headerLength long) _
      (hapart.not_covers covers)
  · intro h
    by_cases long : 20 ≤ h.length
    · refine ⟨_, requiredLength_eq long, ?_⟩
      show 18 ≤ max _ 20
      omega
    · exact ⟨20, if_pos (Nat.lt_of_not_le long), by decide⟩

/-- A control message has its checksum and nothing else to derive. -/
theorem Control.offloads_of {d : Dissector} {fill? : Context → Option (Bytes → UInt16)}
    (quiet : d.Quiet) (derives : d.Derives (8 ≤ ·.length) (fun cx => checksum.refill 0 (fill? cx)))
    (found : ∀ h, d.kind.checksum? h = some checksum)
    (required : ∀ h, d.requiredLength h = .ok (some 8))
    (keeps : ∀ {cx : Context}, cx.mode = .keep → fill? cx = none) : d.Offloads :=
  .of_refill (fun _ h => h) found lawful_checksum derives keeps
    (fun _ long => covers_checksum long) (fun _ _ _ _ => rfl) (fun _ => rfl)
    (fun ok i _ => quiet.getElem?_named ok i) fun h => ⟨8, required h, by decide⟩

theorem Icmpv4.offloads : Icmpv4.dissector.Offloads :=
  Control.offloads_of quiet derives (fun _ => rfl) (fun _ => rfl) fun mode => by
    rw [checksum?, mode]

theorem Icmpv6.offloads : Icmpv6.dissector.Offloads :=
  Control.offloads_of quiet derives (fun _ => rfl) (fun _ => rfl) fun mode => by
    rw [checksum?, mode]

theorem Igmp.offloads : Igmp.dissector.Offloads :=
  Control.offloads_of quiet derives (fun _ => rfl) (fun _ => rfl) fun mode => by
    rw [checksum?, mode]

namespace Gre

/-- The first byte decides whether there is a checksum. -/
theorem checksum?_of_flags {h h' : Bytes} (flags : hasChecksum h' = hasChecksum h) :
    LayerKind.gre.checksum? h' = LayerKind.gre.checksum? h := by
  show (if hasChecksum h' then some checksum else none) = _
  rw [flags]
  rfl

theorem checksumAt_iff {h : Bytes} {i : Nat} :
    LayerKind.gre.ChecksumAt h i ↔ hasChecksum h = true ∧ checksum.Covers i := by
  by_cases present : hasChecksum h = true
  · have found : LayerKind.gre.checksum? h = some checksum := if_pos present
    rw [LayerKind.checksumAt_iff found, and_iff_right present]
  · have none : LayerKind.gre.checksum? h = none := if_neg present
    exact iff_of_false (LayerKind.not_checksumAt none i) fun both => present both.1

/-- A header that gets the length that its flags ask for keeps its flags. -/
theorem hasChecksum_of_fit {h h' : Bytes} (ok : dissector.fit h = .ok h') :
    hasChecksum h' = hasChecksum h := by
  rw [Dissector.fit_eq_resize (n := (headerLength? h).getD minHeaderLength) rfl] at ok
  injection ok with ok
  subst ok
  cases h with
  | nil => rfl
  | cons x rest =>
    have hmin := minHeaderLength_le_lengthOf x
    obtain ⟨n, hn⟩ : ∃ n, lengthOf x = n + 1 := ⟨lengthOf x - 1, by omega⟩
    have hfirst : Bytes.resize (x :: rest) (lengthOf x)
        = x :: (rest.take n ++ List.replicate (lengthOf x - (x :: rest).length) 0) := by
      rw [Bytes.resize, hn]
      rfl
    show hasChecksum (Bytes.resize (x :: rest) (lengthOf x)) = _
    rw [hfirst]
    rfl

theorem offloads : dissector.Offloads where
  named {h h' o} ok := by
    have flags : hasChecksum h' = hasChecksum h :=
      names.preserves (P := fun b => hasChecksum b = hasChecksum h)
        (fun t accepted same => by
          rw [hasChecksum, Field.value_put_of_apart lawful_protocol (covers_protocol accepted)
            (by decide)]
          exact same) rfl ok
    refine ⟨checksum?_of_flags flags, ?_⟩
    intro i there
    exact names.getElem?_of_apart (f := checksum) (by decide) ok (checksumAt_iff.1 there).2
  fitted {h h'} ok := by
    refine ⟨checksum?_of_flags (hasChecksum_of_fit ok), ?_⟩
    intro i there inside
    obtain ⟨present, covers⟩ := checksumAt_iff.1 there
    refine Dissector.getElem?_of_fit ok (n := (headerLength? h).getD minHeaderLength) rfl inside ?_
    -- a flag that is set asks for the word with the checksum
    have hstop : i < 6 := covers.2
    rw [headerLength?_eq (Nat.lt_of_le_of_lt (Nat.zero_le i) inside), Option.getD_some, lengthOf,
      show OptionalWord.checksum.isIn (Layout.flags.value h) = true from present]
    unfold minHeaderLength roomFor
    simp only [if_true]
    omega
  kept {h h' cx} mode ok i _ := by
    rcases derives.cases ok with ⟨_, rfl⟩ | ⟨_, rfl⟩
    · rw [work, fill?, mode]
      rfl
    · rfl
  alike {h h₁ h₂ cx cx'} _ ok₁ ok₂ i elsewhere := by
    -- off the checksum, a header is what it was
    have same : ∀ {h' : Bytes} {cx : Context}, dissector.recompute h cx = .ok h' →
        h'[i]? = h[i]? := by
      intro h' cx ok
      rcases derives.cases ok with ⟨accepted, rfl⟩ | ⟨_, rfl⟩
      · unfold work fill?
        split
        · next _ _ _ present =>
          exact Field.getElem?_refill lawful_checksum (covers_checksum accepted present)
            fun covers => elsewhere (checksumAt_iff.2 ⟨present, covers⟩)
        · rfl
      · rfl
    rw [same ok₁, same ok₂]

end Gre

theorem Dissector.offloads_of_mem_all {d : Dissector} (known : d ∈ all) : d.Offloads := by
  cases known using Dissector.all_cases with
  | ethernet => exact Ethernet.offloads
  | ipv4 => exact Ipv4.offloads
  | ipv6 => exact Ipv6.offloads
  | tcp => exact Tcp.offloads
  | udp => exact Udp.offloads
  | icmpv4 => exact Icmpv4.offloads
  | icmpv6 => exact Icmpv6.offloads
  | igmp => exact Igmp.offloads
  | gre => exact Gre.offloads
  | vlan | arp | loopback | rawIp | wireless | llc =>
    exact .of_nothing_derived (fun _ => rfl) fun _ _ => rfl

/-! ## §4. Two passes in step. -/

namespace Dissector

variable {d : Dissector}

/-- On the way in a header keeps its checksum, and stays one that has it. -/
theorem Offloads.announced (o : d.Offloads) (law : d.Lawful) {h h₁ : Bytes}
    {inside : Option PlainLayer} (ok : d.announce h inside = .ok h₁) :
    d.kind.checksum? h₁ = d.kind.checksum? h ∧ ∀ i, d.kind.ChecksumAt h i → h₁[i]? = h[i]? := by
  rcases announce_cases law ok with ⟨_, rfl⟩ | ⟨_, _, _, _, ⟨_, rfl⟩ | ⟨_, hset⟩⟩
  · exact ⟨rfl, fun _ _ => rfl⟩
  · exact ⟨rfl, fun _ _ => rfl⟩
  · exact o.named hset

theorem Offloads.entered (o : d.Offloads) (law : d.Lawful) {h h₁ h₂ : Bytes}
    {inside : Option PlainLayer} (announced : d.announce h inside = .ok h₁)
    (fitted : d.fit h₁ = .ok h₂) :
    (∀ i, d.kind.ChecksumAt h₂ i ↔ d.kind.ChecksumAt h i)
      ∧ ∀ i, d.kind.ChecksumAt h i → i < h.length → h₂[i]? = h[i]? := by
  obtain ⟨hfirst, hbytes₁⟩ := o.announced law announced
  obtain ⟨hsecond, hbytes₂⟩ := o.fitted fitted
  have hlength := law.total.length_announce announced
  have hthere : ∀ {b c : Bytes}, d.kind.checksum? b = d.kind.checksum? c → ∀ i,
      (d.kind.ChecksumAt b i ↔ d.kind.ChecksumAt c i) := by
    intro b c same i
    unfold LayerKind.ChecksumAt
    rw [same]
  refine ⟨hthere (hsecond.trans hfirst), ?_⟩
  intro i there inside
  rw [hbytes₂ i ((hthere hfirst i).2 there) (by omega), hbytes₁ i there]

end Dissector

namespace PlainLayer

/-- Layers, and what two passes make of them that agree but for checksums; the
second leaves those as they are. -/
inductive Offloaded : List PlainLayer → List PlainLayer → List PlainLayer → Prop where
  | nil : Offloaded [] [] []
  | cons {l : PlainLayer} {filled kept : Bytes} {inner inner₁ inner₂ : List PlainLayer}
      (length : filled.length = kept.length)
      (alike : ∀ i, ¬ l.kind.ChecksumAt l.header i → filled[i]? = kept[i]?)
      (stays : ∀ i, l.kind.ChecksumAt l.header i → i < l.header.length →
        kept[i]? = l.header[i]?)
      (inside : Offloaded inner inner₁ inner₂) :
      Offloaded (l :: inner) ({ l with header := filled } :: inner₁)
        ({ l with header := kept } :: inner₂)

namespace Offloaded

variable {layers out₁ out₂ : List PlainLayer}

/-- Both are as long. -/
theorem length_wire (h : Offloaded layers out₁ out₂) (body : Option Bytes) :
    (wire out₁ body).length = (wire out₂ body).length := by
  induction h with
  | nil => rfl
  | cons length _ _ _ ih =>
    rw [wire_cons, wire_cons]
    simp only [List.length_append, length, ih]

/-- What two passes made of one of the layers. -/
theorem at_depth (h : Offloaded layers out₁ out₂) :
    ∀ {depth : Nat} {l : PlainLayer}, layers[depth]? = some l →
      ∃ filled kept, out₁[depth]? = some { l with header := filled }
        ∧ out₂[depth]? = some { l with header := kept } ∧ filled.length = kept.length
        ∧ (∀ i, ¬ l.kind.ChecksumAt l.header i → filled[i]? = kept[i]?)
        ∧ ∀ i, l.kind.ChecksumAt l.header i → i < l.header.length → kept[i]? = l.header[i]? := by
  induction h with
  | nil =>
    intro depth l found
    cases found
  | cons length alike stays _ ih =>
    intro depth l found
    cases depth with
    | zero =>
      injection found with found
      subst found
      exact ⟨_, _, rfl, rfl, length, alike, stays⟩
    | succ depth => exact ih found

end Offloaded

variable {known : Dissector → Prop} {body : Option Bytes}

/-- **The two modes of the pass,** side by side over the same layers: all that is
decided on the way in is decided alike, and on the way out a header sees
payloads of the same length. -/
theorem offloaded_of_recomputeAll (law : ∀ d, known d → d.Lawful)
    (offloads : ∀ d, known d → d.Offloads) {layers : List PlainLayer} :
    ∀ {pseudo : Option PseudoHeader} {out₁ out₂ : List PlainLayer},
      (∀ l ∈ layers, known l.dissector) → recomputeAll .fill body pseudo layers = .ok out₁ →
        recomputeAll .keep body pseudo layers = .ok out₂ → Offloaded layers out₁ out₂ := by
  -- on the layers, for all that may be lent to them
  induction layers with
  | nil =>
    intro pseudo out₁ out₂ _ ok₁ ok₂
    obtain rfl := Except.ok.inj ok₁
    obtain rfl := Except.ok.inj ok₂
    exact .nil
  | cons l inner ih =>
    intro pseudo out₁ out₂ hknown ok₁ ok₂
    have hlaw := law _ (hknown l List.mem_cons_self)
    have hoffloads := offloads _ (hknown l List.mem_cons_self)
    obtain ⟨h₁, h₂, lent, inner₁, filled, hannounce, hfit, hlent, hinner₁, hfill, rfl⟩ :=
      recomputeAll_cons_eq_ok ok₁
    obtain ⟨h₁', h₂', lent', inner₂, kept, hannounce', hfit', hlent', hinner₂, hkeep, rfl⟩ :=
      recomputeAll_cons_eq_ok ok₂
    obtain rfl : h₁ = h₁' := Except.ok.inj (hannounce.symm.trans hannounce')
    obtain rfl : h₂ = h₂' := Except.ok.inj (hfit.symm.trans hfit')
    obtain rfl : lent = lent' := Except.ok.inj (hlent.symm.trans hlent')
    have hinside := ih (fun m hm => hknown m (List.mem_cons_of_mem l hm)) hinner₁ hinner₂
    rw [Dissector.refresh_eq_ok hlaw] at hfill hkeep
    obtain ⟨hthere, hentered⟩ := hoffloads.entered hlaw hannounce hfit
    refine .cons ?_ ?_ ?_ hinside
    · rw [hlaw.total.length_recompute hfill, hlaw.total.length_recompute hkeep]
    · intro i elsewhere
      exact hoffloads.alike (hinside.length_wire body) hfill hkeep i
        fun there => elsewhere ((hthere i).1 there)
    · intro i there inside
      rw [hoffloads.kept rfl hkeep i ((hthere i).2 there), hentered i there inside]

end PlainLayer

/-! ## §5. Packets. -/

/-- **Leaving checksums to the hardware changes nothing else.**  Every packet that
can come about from the protocols of the library can be brought up to date
with its checksums filled, and with its checksums left alone.  Layer by layer
the two results have the same protocols, headers of the same length, and the
same bytes outside the checksums; padding and body are what they were in both.
Where checksums are left alone, each byte of one that was in the header before
is still the same, and so is the frame check sequence. -/
theorem Reachable.recompute_keep {p : Packet} (h : Reachable (· ∈ Dissector.all) p) :
    ∃ f k, p.recompute .fill = .ok f ∧ p.recompute .keep = .ok k
      ∧ f.layers.length = p.layers.length ∧ k.layers.length = p.layers.length
      ∧ (∀ {depth : Nat} {l : Layer}, p.layers[depth]? = some l →
          ∃ m n, f.layers[depth]? = some m ∧ k.layers[depth]? = some n
            ∧ m.kind = l.kind ∧ n.kind = l.kind
            ∧ (f.header m).length = (k.header n).length
            ∧ (∀ i, ¬ l.kind.ChecksumAt (p.header l) i → (f.header m)[i]? = (k.header n)[i]?)
            ∧ (∀ i, l.kind.ChecksumAt (p.header l) i → i < (p.header l).length →
                (k.header n)[i]? = (p.header l)[i]?)
            ∧ f.padding m = p.padding l ∧ k.padding n = p.padding l)
      ∧ f.plain.body = p.plain.body ∧ k.plain.body = p.plain.body
      ∧ f.plain.fcs.isSome = p.plain.fcs.isSome ∧ k.plain.fcs = p.plain.fcs := by
  have hcoherent := h.coherent
  have hlaid := hcoherent.laidOut
  have hknown : ∀ l ∈ p.plain.layers, l.dissector ∈ Dissector.all := by
    intro l hl
    obtain ⟨m, hm, rfl⟩ := List.mem_map.1 hl
    exact hcoherent.linked.known m.shape (List.mem_map_of_mem hm)
  have hsucceeds := fun mode => Packet.recompute_succeeds hlaid (fun l hl =>
    (Dissector.lawful_of_mem_all (hknown _ (List.mem_map_of_mem hl))).total) mode
  obtain ⟨f, hf⟩ := hsucceeds .fill
  obtain ⟨k, hk⟩ := hsucceeds .keep
  obtain ⟨layers₁, hall₁, hplain₁⟩ :=
    PlainPacket.recompute_eq_ok.1 (Packet.recompute_plain hlaid hf)
  obtain ⟨layers₂, hall₂, hplain₂⟩ :=
    PlainPacket.recompute_eq_ok.1 (Packet.recompute_plain hlaid hk)
  have hstep := PlainLayer.offloaded_of_recomputeAll (fun _ => Dissector.lawful_of_mem_all)
    (fun _ => Dissector.offloads_of_mem_all) hknown hall₁ hall₂
  have hlayers₁ : f.plain.layers = layers₁ := by rw [hplain₁]; rfl
  have hlayers₂ : k.plain.layers = layers₂ := by rw [hplain₂]; rfl
  rw [← hlayers₁, ← hlayers₂] at hstep
  have hlength : ∀ {q : Packet}, q.shapes = p.shapes → q.layers.length = p.layers.length := by
    intro q same
    have hsame := congrArg List.length same
    rwa [Packet.shapes, Packet.shapes, List.length_map, List.length_map] at hsame
  refine ⟨f, k, hf, hk, hlength (Packet.shapes_of_recompute hlaid hf).1,
    hlength (Packet.shapes_of_recompute hlaid hk).1, ?_, ?_, ?_, ?_, ?_⟩
  · intro depth l found
    have hplain : p.plain.layers[depth]? = some (l.plain p.arena) := by
      show (p.layers.map (Layer.plain p.arena))[depth]? = _
      rw [List.getElem?_map, found, Option.map_some]
    obtain ⟨filled, kept, hfound₁, hfound₂, hsame, alike, stays⟩ := hstep.at_depth hplain
    obtain ⟨m, hm, hm'⟩ := Packet.getElem?_of_plain hfound₁
    obtain ⟨n, hn, hn'⟩ := Packet.getElem?_of_plain hfound₂
    have hheader₁ : f.header m = filled := congrArg PlainLayer.header hm'
    have hheader₂ : k.header n = kept := congrArg PlainLayer.header hn'
    rw [← hheader₁, ← hheader₂] at hsame alike
    rw [← hheader₂] at stays
    exact ⟨m, n, hm, hn, congrArg PlainLayer.kind hm', congrArg PlainLayer.kind hn', hsame, alike,
      stays, congrArg PlainLayer.padding hm', congrArg PlainLayer.padding hn'⟩
  · rw [hplain₁]
    rfl
  · rw [hplain₂]
    rfl
  · rw [hplain₁]
    exact Option.isSome_map
  · rw [hplain₂]
    rfl

/-- An echo request with a check sequence, both wrong, and both left as they are
for the hardware. -/
theorem Reachable.recompute_keep_echo :
    Reachable (· ∈ Dissector.all)
        ((Packet.ofHeader Icmpv4.dissector [8, 0, 0xab, 0xcd, 0, 0, 0, 0]).setFcs true)
      ∧ ∃ f k m n,
        ((Packet.ofHeader Icmpv4.dissector [8, 0, 0xab, 0xcd, 0, 0, 0, 0]).setFcs true).recompute
            .fill = .ok f
          ∧ ((Packet.ofHeader Icmpv4.dissector [8, 0, 0xab, 0xcd, 0, 0, 0, 0]).setFcs
            true).recompute .keep = .ok k
          ∧ f.layers[0]? = some m ∧ k.layers[0]? = some n
          ∧ (f.header m)[0]? = (k.header n)[0]? ∧ (k.header n)[2]? = some 0xab
          ∧ k.plain.fcs = some [0, 0, 0, 0] := by
  have hreach : Reachable (· ∈ Dissector.all)
      ((Packet.ofHeader Icmpv4.dissector [8, 0, 0xab, 0xcd, 0, 0, 0, 0]).setFcs true) :=
    .fcsSet (@Reachable.ofHeader (· ∈ Dissector.all) _ (by simp [Dissector.all]) _) true
  have hthere : ∀ i, LayerKind.icmpv4.ChecksumAt [8, 0, 0xab, 0xcd, 0, 0, 0, 0] i
      ↔ Icmpv4.Layout.checksum.Covers i := LayerKind.checksumAt_iff rfl
  obtain ⟨f, k, hf, hk, _, _, hlayers, _, _, _, hfcs⟩ := Reachable.recompute_keep hreach
  obtain ⟨m, n, hm, hn, _, _, _, alike, stays, _⟩ := @hlayers 0 _ rfl
  refine ⟨hreach, f, k, m, n, hf, hk, hm, hn, alike 0 ?_, stays 2 ?_ (by decide), hfcs⟩
  · intro there
    exact absurd ((hthere 0).1 there) (by decide)
  · exact (hthere 2).2 (by decide)

end PacketLayers
