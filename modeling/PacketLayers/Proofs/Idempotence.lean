/-
  PacketLayers.Proofs.Idempotence
  ────────────────────────────────
  **WHEN BRINGING A PACKET UP TO DATE TWICE IS THE SAME AS ONCE.**

  On its way in, the pass over the layers writes the discriminant before it
  changes the length of a header, and lends the pseudo header before it writes
  the header's own lengths.  A header that was cut short, or whose length
  fields lie, may therefore look different to a second pass.  `AtRest` says of
  every layer that it does not:

    • `recomputeAll_eq_self` — exactly the layers at rest are left alone;
    • `recomputeAll_of_whole` — layers with whole headers come to rest in one
      pass;
    • `Reachable.recompute_again` — the two, for every reachable packet.
-/
import PacketLayers.Proofs.Lawful.Standard

namespace PacketLayers

/-! ## §1. Layers at rest. -/

namespace PlainLayer

/-- The lengths and checksums of the outermost header are up to date. -/
def Current (mode : ChecksumMode) (body : Option Bytes) (pseudo : Option PseudoHeader) :
    List PlainLayer → Prop
  | [] => True
  | l :: inner =>
    l.dissector.refresh l.header ⟨wire inner body, pseudo, mode⟩ = .ok l.header

/-- No header has anything to announce that it does not say, or needs another
length, or lends what the layer inside was not computed with. -/
def AtRest (mode : ChecksumMode) (body : Option Bytes) : List PlainLayer → Prop
  | [] => True
  | l :: inner =>
    l.dissector.announce l.header inner.head? = .ok l.header
      ∧ l.dissector.fit l.header = .ok l.header
      ∧ (∀ lent, l.dissector.pseudoHeader l.header = .ok lent → Current mode body lent inner)
      ∧ AtRest mode body inner

end PlainLayer

namespace Dissector

variable {d : Dissector} {h h' : Bytes}

/-- What announcing does to a header: there is nothing to announce, the header
leads there already, or the discriminant is written. -/
theorem announce_cases {inside : Option PlainLayer} (law : d.Lawful)
    (ok : d.announce h inside = .ok h') :
    ((∀ child, inside = some child → child.origin = none) ∧ h' = h)
      ∨ ∃ child o, inside = some child ∧ child.origin = some o
        ∧ (d.next h child.header = .ok (some o) ∧ h' = h
          ∨ d.next h child.header ≠ .ok (some o) ∧ d.setNext h o = .ok h') := by
  -- nothing inside, no name to announce, a name that is there, or one that is written
  unfold announce at ok
  split at ok
  · injection ok with ok
    exact .inl ⟨fun _ hnone => absurd hnone (by simp), ok.symm⟩
  · next child =>
    split at ok
    · next horigin =>
      injection ok with ok
      refine .inl ⟨fun c hc => ?_, ok.symm⟩
      injection hc with hc
      rw [← hc]
      exact horigin
    · next o horigin =>
      refine .inr ⟨child, o, rfl, horigin, ?_⟩
      obtain ⟨stated, hstated, ok⟩ := bind_eq_ok.1 ok
      by_cases hleads : stated = some o
      · rw [if_pos hleads] at ok
        injection ok with ok
        exact .inl ⟨hleads ▸ hstated, ok.symm⟩
      · rw [if_neg hleads] at ok
        obtain ⟨new, hnew, ok⟩ := bind_eq_ok.1 ok
        obtain ⟨_, hset, hlength⟩ := law.total.setNext h o
        rw [hset] at hnew
        injection hnew with hnew
        subst hnew
        rw [Bytes.exchange_eq_ok hlength] at ok
        injection ok with ok
        subst ok
        refine .inr ⟨fun hnext => hleads ?_, hset⟩
        rw [hstated] at hnext
        injection hnext

/-- A header that leads to what is inside has nothing to announce. -/
theorem announce_eq_self {child : PlainLayer}
    (leads : ∀ o, child.origin = some o → d.Leads h child.header o) (law : d.Lawful) :
    d.announce h (some child) = .ok h := by
  unfold announce
  cases horigin : child.origin with
  | none => simp only [horigin]
  | some o =>
    obtain ⟨stated, hstated⟩ := law.total.next h child.header
    simp only [horigin, hstated, ok_bind]
    by_cases hleads : stated = some o
    · rw [if_pos hleads]
      rfl
    · rw [if_neg hleads]
      rcases leads o horigin with hnext | hset
      · rw [hstated] at hnext
        injection hnext with hnext
        exact absurd hnext hleads
      · rw [hset, ok_bind, Bytes.exchange_eq_ok rfl]

/-- A whole header stays whole when it is announced and fitted, and then leads
to the layer inside. -/
theorem whole_announced {h₁ h₂ : Bytes} {inside : Option PlainLayer} (law : d.Lawful)
    (whole : d.Whole h) (announced : d.announce h inside = .ok h₁) (fitted : d.fit h₁ = .ok h₂) :
    d.Whole h₂ ∧ ∀ child o, inside = some child → child.origin = some o →
      d.Leads h₂ child.header o := by
  -- a header that was left as it is has its length
  have hkept : h₁ = h → h₂ = h := by
    intro hsame
    rw [hsame] at fitted
    exact Except.ok.inj (fitted.symm.trans (law.whole_fits whole))
  rcases announce_cases law announced with ⟨hnone, hsame⟩ | ⟨child, o, rfl, horigin, hcase⟩
  · rw [hkept hsame]
    refine ⟨whole, fun child o hchild horigin => ?_⟩
    rw [hnone child hchild] at horigin
    cases horigin
  · have hleads : d.Whole h₂ ∧ d.Leads h₂ child.header o := by
      rcases hcase with ⟨hnext, hsame⟩ | ⟨_, hset⟩
      · rw [hkept hsame]
        exact ⟨whole, .inl hnext⟩
      · obtain ⟨h'', hfit'', hwhole'', hset''⟩ := law.whole_setNext whole hset
        obtain rfl : h₂ = h'' := Except.ok.inj (fitted.symm.trans hfit'')
        exact ⟨hwhole'', .inr hset''⟩
    refine ⟨hleads.1, fun child' o' hchild' horigin' => ?_⟩
    obtain rfl : child = child' := Option.some.inj hchild'
    obtain rfl : o = o' := Option.some.inj (horigin.symm.trans horigin')
    exact hleads.2

theorem refresh_eq_ok {cx : Context} (law : d.Lawful) :
    d.refresh h cx = .ok h' ↔ d.recompute h cx = .ok h' := by
  obtain ⟨new, hnew, hlength⟩ := law.total.recompute h cx
  rw [refresh, hnew, ok_bind, Bytes.exchange_eq_ok hlength]

/-- A header that was brought up to date is up to date. -/
theorem refresh_again {cx : Context} (law : d.Lawful) (ok : d.refresh h cx = .ok h') :
    d.refresh h' cx = .ok h' :=
  (refresh_eq_ok law).2 (law.recompute_again ((refresh_eq_ok law).1 ok))

/-- Of two lengths that are the same only one was asked for. -/
theorem fit_eq_self_of_length (ok : d.fit h = .ok h') (length : h'.length = h.length) : h' = h := by
  unfold fit at ok
  obtain ⟨size, _, ok⟩ := bind_eq_ok.1 ok
  cases size with
  | none =>
    injection ok with ok
    exact ok.symm
  | some size =>
    injection ok with ok
    rw [← ok, Bytes.length_resize] at length
    rw [← ok, length, Bytes.resize, List.take_length, Nat.sub_self, List.replicate_zero,
      List.append_nil]

end Dissector

/-! ## §2. What a pass leaves alone. -/

namespace PlainLayer

variable {known : Dissector → Prop} {mode : ChecksumMode} {body : Option Bytes}

/-- The steps of a pass over one layer and those inside. -/
theorem recomputeAll_cons_eq_ok {pseudo : Option PseudoHeader} {l : PlainLayer}
    {inner out : List PlainLayer} (ok : recomputeAll mode body pseudo (l :: inner) = .ok out) :
    ∃ h₁ h₂ lent inner' h₃, l.dissector.announce l.header inner.head? = .ok h₁
      ∧ l.dissector.fit h₁ = .ok h₂ ∧ l.dissector.pseudoHeader h₂ = .ok lent
      ∧ recomputeAll mode body lent inner = .ok inner'
      ∧ l.dissector.refresh h₂ ⟨wire inner' body, pseudo, mode⟩ = .ok h₃
      ∧ out = { l with header := h₃ } :: inner' := by
  rw [recomputeAll] at ok
  obtain ⟨h₁, hannounce, ok⟩ := bind_eq_ok.1 ok
  obtain ⟨h₂, hfit, ok⟩ := bind_eq_ok.1 ok
  obtain ⟨lent, hlent, ok⟩ := bind_eq_ok.1 ok
  obtain ⟨inner', hinner, ok⟩ := bind_eq_ok.1 ok
  obtain ⟨h₃, hrefresh, ok⟩ := bind_eq_ok.1 ok
  injection ok with ok
  exact ⟨h₁, h₂, lent, inner', h₃, hannounce, hfit, hlent, hinner, hrefresh, ok.symm⟩

/-- The outermost layer is of the protocol that it was of before, and is announced
in the same way. -/
theorem head?_of_recomputeAll {pseudo : Option PseudoHeader} {layers out : List PlainLayer}
    (ok : recomputeAll mode body pseudo layers = .ok out) {l' : PlainLayer}
    (head : out.head? = some l') : ∃ l, layers.head? = some l ∧ l.shape = l'.shape := by
  have hshapes := congrArg List.head? (recomputeAll_shapes ok)
  rw [List.head?_map, List.head?_map, head, Option.map_some, eq_comm, Option.map_eq_some_iff]
    at hshapes
  exact hshapes

/-- A pass leaves the outermost header up to date. -/
theorem current_of_recomputeAll (law : ∀ d, known d → d.Lawful) {layers out : List PlainLayer}
    (linked : Linked known (layers.map shape)) {pseudo : Option PseudoHeader}
    (ok : recomputeAll mode body pseudo layers = .ok out) : Current mode body pseudo out := by
  cases layers with
  | nil =>
    injection ok with ok
    rw [← ok]
    trivial
  | cons l inner =>
    obtain ⟨_, _, _, inner', _, _, _, _, _, hrefresh, rfl⟩ := recomputeAll_cons_eq_ok ok
    have hlaw : l.dissector.Lawful := law _ linked.of_cons.1
    exact Dissector.refresh_again hlaw hrefresh

/-- Layers at rest are left alone. -/
theorem AtRest.recomputeAll_eq (law : ∀ d, known d → d.Lawful) {layers : List PlainLayer} :
    ∀ {pseudo : Option PseudoHeader}, Linked known (layers.map shape) →
      Current mode body pseudo layers → AtRest mode body layers →
      recomputeAll mode body pseudo layers = .ok layers := by
  induction layers with
  | nil => intro _ _ _ _; rfl
  | cons l inner ih =>
    intro pseudo linked current ⟨hannounce, hfit, hlends, hinside⟩
    obtain ⟨hknown, hleads, hlinked⟩ := linked.of_cons
    have hlaw : l.dissector.Lawful := law _ hknown
    obtain ⟨lent, hlent⟩ := hlaw.total.pseudoHeader l.header
    have hinner := ih hlinked (hlends lent hlent) hinside
    have hcurrent : l.dissector.refresh l.header ⟨wire inner body, pseudo, mode⟩
      = .ok l.header := current
    rw [recomputeAll, hannounce, ok_bind, hfit, ok_bind, hlent, ok_bind, hinner, ok_bind,
      hcurrent, ok_bind]
    rfl

/-- Layers that are left alone are at rest. -/
theorem atRest_of_recomputeAll_eq (law : ∀ d, known d → d.Lawful) {layers : List PlainLayer} :
    ∀ {pseudo : Option PseudoHeader}, Linked known (layers.map shape) →
      recomputeAll mode body pseudo layers = .ok layers → AtRest mode body layers := by
  induction layers with
  | nil => intro _ _ _; trivial
  | cons l inner ih =>
    intro pseudo linked ok
    obtain ⟨hknown, hleads, hlinked⟩ := linked.of_cons
    have hlaw : l.dissector.Lawful := law _ hknown
    obtain ⟨h₁, h₂, lent, inner', h₃, hannounce, hfit, hlent, hinner, hrefresh, hout⟩ :=
      recomputeAll_cons_eq_ok ok
    injection hout with hhead htail
    subst htail
    have hheader : h₃ = l.header := by rw [hhead]
    rw [hheader, Dissector.refresh_eq_ok hlaw] at hrefresh
    -- lengths are kept by the first step and the last, so the second asked for none
    have hlength₁ := hlaw.total.length_announce hannounce
    have hlength₂ := hlaw.total.length_recompute hrefresh
    have hsame : h₂ = h₁ := Dissector.fit_eq_self_of_length hfit (by omega)
    rw [hsame] at hfit hlent hrefresh
    have hannounced : l.dissector.announce l.header inner.head? = .ok l.header := by
      rcases Dissector.announce_cases hlaw hannounce with
        ⟨_, hnone⟩ | ⟨child, o, hchild, horigin, ⟨_, hthere⟩ | ⟨_, hset⟩⟩
      · rw [hannounce, hnone]
      · rw [hannounce, hthere]
      · rw [hchild]
        refine Dissector.announce_eq_self (fun o' ho' => ?_) hlaw
        have ho : o' = o := by
          rw [horigin] at ho'
          injection ho' with ho'
          exact ho'.symm
        have hannounces := linked.announces hchild ho'
        subst ho
        exact hlaw.recompute_leads hannounces hrefresh (.inr (hlaw.setNext_again hset))
    have hheader₁ : h₁ = l.header := by
      rw [hannounced] at hannounce
      injection hannounce with hannounce
      exact hannounce.symm
    rw [hheader₁] at hfit hlent
    refine ⟨hannounced, hfit, fun lent' hlent' => ?_, ih hlinked hinner⟩
    rw [hlent] at hlent'
    injection hlent' with hlent'
    rw [← hlent']
    exact current_of_recomputeAll law hlinked hinner

/-- **Exactly the layers at rest are left alone.** -/
theorem recomputeAll_eq_self (law : ∀ d, known d → d.Lawful) {layers : List PlainLayer}
    (linked : Linked known (layers.map shape)) {pseudo : Option PseudoHeader}
    (current : Current mode body pseudo layers) :
    recomputeAll mode body pseudo layers = .ok layers ↔ AtRest mode body layers :=
  ⟨atRest_of_recomputeAll_eq law linked, AtRest.recomputeAll_eq law linked current⟩

/-! ## §3. Whole headers. -/

/-- The header of the layer is one that decoding could have cut off. -/
def Whole (l : PlainLayer) : Prop := l.dissector.Whole l.header

/-- **Layers with whole headers come to rest in one pass,** and their headers
stay whole. -/
theorem recomputeAll_of_whole (law : ∀ d, known d → d.Lawful) {layers : List PlainLayer} :
    ∀ {pseudo : Option PseudoHeader} {out : List PlainLayer}, Linked known (layers.map shape) →
      (∀ l ∈ layers, l.Whole) → recomputeAll mode body pseudo layers = .ok out →
      AtRest mode body out ∧ ∀ l ∈ out, l.Whole := by
  induction layers with
  | nil =>
    intro pseudo out _ _ ok
    injection ok with ok
    rw [← ok]
    exact ⟨trivial, fun _ h => absurd h List.not_mem_nil⟩
  | cons l inner ih =>
    intro pseudo out linked whole ok
    obtain ⟨hknown, hleads, hlinked⟩ := linked.of_cons
    have hlaw : l.dissector.Lawful := law _ hknown
    have hwhole : l.dissector.Whole l.header := whole l List.mem_cons_self
    obtain ⟨h₁, h₂, lent, inner', h₃, hannounce, hfit, hlent, hinner, hrefresh, rfl⟩ :=
      recomputeAll_cons_eq_ok ok
    obtain ⟨hrest, hwholes⟩ := ih hlinked (fun m hm => whole m (List.mem_cons_of_mem l hm)) hinner
    rw [Dissector.refresh_eq_ok hlaw] at hrefresh
    obtain ⟨hwhole₂, hleads₂⟩ := Dissector.whole_announced hlaw hwhole hannounce hfit
    obtain ⟨hwhole₃, hlent₃⟩ := hlaw.whole_recompute hwhole₂ hrefresh
    refine ⟨⟨?_, hlaw.whole_fits hwhole₃, fun lent' hlent' => ?_, hrest⟩, ?_⟩
    · -- the layer inside is announced as before
      show l.dissector.announce h₃ inner'.head? = .ok h₃
      cases hchild' : inner'.head? with
      | none => rfl
      | some child' =>
        obtain ⟨child, hchild, hshape⟩ := head?_of_recomputeAll hinner hchild'
        refine Dissector.announce_eq_self (fun o horigin' => ?_) hlaw
        have horigin : child.origin = some o := by
          have hsame : child.origin = child'.origin := congrArg Prod.snd hshape
          rw [hsame, horigin']
        exact hlaw.recompute_leads (linked.announces hchild horigin) hrefresh
          (hlaw.leads_payload (hleads₂ child o hchild horigin))
    · rw [hlent₃, hlent] at hlent'
      injection hlent' with hlent'
      rw [← hlent']
      exact current_of_recomputeAll law hlinked hinner
    · intro m hm
      rcases List.mem_cons.1 hm with rfl | hm
      · exact hwhole₃
      · exact hwholes m hm

end PlainLayer

/-! ## §4. Packets. -/

namespace PlainLayer

/-- Of layers of the same protocols the pieces tell the headers apart. -/
theorem eq_of_pieces_eq {body : Option Bytes} {a b : List PlainLayer}
    (shapes : a.map shape = b.map shape) (same : pieces a body = pieces b body) : a = b := by
  -- on the layers: the first piece is the header, the last one the padding
  induction a generalizing b with
  | nil =>
    cases b with
    | nil => rfl
    | cons _ _ => cases shapes
  | cons l rest ih =>
    cases b with
    | nil => cases shapes
    | cons m rest' =>
      rw [List.map_cons, List.map_cons] at shapes
      injection shapes with hshape hshapes
      rw [pieces, pieces] at same
      injection same with hheader hsame
      obtain ⟨hinner, hpadding⟩ := List.append_inj' hsame rfl
      injection hpadding with hpadding
      have hdissector : l.dissector = m.dissector := congrArg Prod.fst hshape
      have horigin : l.origin = m.origin := congrArg Prod.snd hshape
      rw [ih hshapes hinner]
      cases l
      cases m
      simp_all

end PlainLayer

namespace PlainPacket

/-- The packet with its frame check sequence up to date, if the mode says
so. -/
def sealed (mode : ChecksumMode) (p : PlainPacket) : PlainPacket :=
  match mode with
  | .fill => p.updateFcs
  | .keep => p

variable {p q q' : PlainPacket} {mode : ChecksumMode}

@[simp] theorem layers_sealed : (p.sealed mode).layers = p.layers := by cases mode <;> rfl

@[simp] theorem body_sealed : (p.sealed mode).body = p.body := by cases mode <;> rfl

/-- Another frame check sequence of the same bytes is the same. -/
theorem sealed_sealed : (p.sealed mode).sealed mode = p.sealed mode := by
  cases mode with
  | fill => simp [sealed, updateFcs, Option.map_map, Function.comp_def]
  | keep => rfl

theorem length_fcs_sealed : (p.sealed mode).fcs.toList.length = p.fcs.toList.length := by
  cases mode with
  | fill => cases hfcs : p.fcs <;> simp [sealed, updateFcs, hfcs]
  | keep => rfl

theorem recompute_eq_ok :
    p.recompute mode = .ok q
      ↔ ∃ layers, PlainLayer.recomputeAll mode p.body none p.layers = .ok layers
        ∧ q = { p with layers := layers }.sealed mode := by
  unfold recompute
  rw [bind_eq_ok]
  refine exists_congr fun layers => and_congr_right fun _ => ?_
  cases mode <;> exact ⟨fun h => (Except.ok.inj h).symm, fun h => congrArg Except.ok h.symm⟩

/-- The packet is at rest if its layers are. -/
def AtRest (mode : ChecksumMode) (p : PlainPacket) : Prop :=
  PlainLayer.AtRest mode p.body p.layers

/-- **The second of two passes** changes nothing exactly if the first brought
the packet to rest. -/
theorem recompute_recompute {known : Dissector → Prop} (law : ∀ d, known d → d.Lawful)
    (linked : Linked known (p.layers.map PlainLayer.shape)) (first : p.recompute mode = .ok q)
    (second : q.recompute mode = .ok q') : q'.pieces = q.pieces ↔ q.AtRest mode := by
  obtain ⟨layers, hlayers, rfl⟩ := recompute_eq_ok.1 first
  obtain ⟨layers', hlayers', rfl⟩ := recompute_eq_ok.1 second
  rw [layers_sealed, body_sealed] at hlayers'
  have hshapes := PlainLayer.recomputeAll_shapes hlayers'
  have hlinked : Linked known (layers.map PlainLayer.shape) := by
    rw [PlainLayer.recomputeAll_shapes hlayers]
    exact linked
  have hcurrent := PlainLayer.current_of_recomputeAll law linked hlayers
  rw [AtRest, layers_sealed, body_sealed, ← PlainLayer.recomputeAll_eq_self law hlinked hcurrent]
  constructor
  · intro same
    rw [pieces, pieces, layers_sealed, body_sealed, layers_sealed, body_sealed] at same
    obtain ⟨hpieces, _⟩ := List.append_inj' same length_fcs_sealed
    rw [hlayers', PlainLayer.eq_of_pieces_eq hshapes hpieces]
  · intro same
    rw [hlayers'] at same
    injection same with same
    subst same
    -- with the same layers only the frame check sequence is written again
    have hsame : (⟨layers', p.body, ({ p with layers := layers' }.sealed mode).fcs⟩ : PlainPacket)
        = { p with layers := layers' }.sealed mode := by cases mode <;> rfl
    exact congrArg pieces ((congrArg (sealed mode) hsame).trans sealed_sealed)

/-- Whole headers bring the packet to rest. -/
theorem atRest_of_whole {known : Dissector → Prop} (law : ∀ d, known d → d.Lawful)
    (linked : Linked known (p.layers.map PlainLayer.shape)) (whole : ∀ l ∈ p.layers, l.Whole)
    (first : p.recompute mode = .ok q) : q.AtRest mode := by
  obtain ⟨layers, hlayers, rfl⟩ := recompute_eq_ok.1 first
  rw [AtRest, layers_sealed, body_sealed]
  exact (PlainLayer.recomputeAll_of_whole law linked whole hlayers).1

end PlainPacket

namespace Packet

/-- Bringing a packet that is laid out up to date, as bytes. -/
theorem recompute_plain {p q : Packet} {mode : ChecksumMode} (h : p.LaidOut)
    (ok : p.recompute mode = .ok q) : p.plain.recompute mode = .ok q.plain := by
  have hagrees := p.recompute_agrees h mode
  rw [ok] at hagrees
  obtain ⟨new, hnew, fresh⟩ := hagrees.of_ok_left
  rw [hnew, fresh.plain]

/-- The layers of a packet that was brought up to date are those that the pass
makes. -/
theorem recomputeAll_of_recompute {p q : Packet} {mode : ChecksumMode} (laid : p.LaidOut)
    (ok : p.recompute mode = .ok q) :
    PlainLayer.recomputeAll mode p.plain.body none p.plain.layers = .ok q.plain.layers
      ∧ q.plain.body = p.plain.body := by
  obtain ⟨layers, hlayers, hq⟩ := PlainPacket.recompute_eq_ok.1 (recompute_plain laid ok)
  rw [hq, PlainPacket.layers_sealed, PlainPacket.body_sealed]
  exact ⟨hlayers, rfl⟩

end Packet

/-- **Bringing a packet up to date a second time.**  Of every packet that can
come about from the protocols of the library, bringing it up to date succeeds
twice.  The second time changes no byte and no length of any header, padding,
body or frame check sequence exactly if every layer came to rest the first
time: its header states the layer inside, as far as it can; it has the length
that its own fields ask for; and the layer inside was computed with what the
header lends now.  That is so wherever every header was one that decoding
could have cut off. -/
theorem Reachable.recompute_twice {p : Packet} (h : Reachable (· ∈ Dissector.all) p)
    (mode : ChecksumMode) :
    ∃ q q', p.recompute mode = .ok q ∧ q.recompute mode = .ok q'
      ∧ (q'.contents = q.contents ↔ q.plain.AtRest mode)
      ∧ ((∀ l ∈ p.plain.layers, l.Whole) → q'.contents = q.contents) := by
  have law : ∀ d, d ∈ Dissector.all → d.Lawful := fun d hd => Dissector.lawful_of_mem_all hd
  have succeeds : ∀ {p : Packet}, p.Coherent (· ∈ Dissector.all) →
      ∃ q, p.recompute mode = .ok q := fun hp =>
    Packet.recompute_succeeds hp.laidOut
      (fun l hl => (law _ (hp.linked.known l.shape (List.mem_map_of_mem hl))).total) mode
  have hcoherent := h.coherent
  obtain ⟨q, hq⟩ := succeeds hcoherent
  have hcoherent' := hcoherent.of_recompute hq
  obtain ⟨q', hq'⟩ := succeeds hcoherent'
  have hlinked := hcoherent.linked
  rw [Packet.shapes_plain] at hlinked
  have hfirst := Packet.recompute_plain hcoherent.laidOut hq
  have hsecond := Packet.recompute_plain hcoherent'.laidOut hq'
  have hexact : q'.contents = q.contents ↔ q.plain.AtRest mode := by
    rw [Packet.contents_plain, Packet.contents_plain]
    exact PlainPacket.recompute_recompute law hlinked hfirst hsecond
  exact ⟨q, q', hq, hq', hexact, fun whole =>
    hexact.2 (PlainPacket.atRest_of_whole law hlinked whole hfirst)⟩

/-- A whole header is left alone the second time. -/
theorem Reachable.recompute_twice_snap :
    Reachable (· ∈ Dissector.all) (Packet.ofHeader Llc.dissector [0xaa, 0xaa, 3, 0, 0, 0, 8, 0])
      ∧ ∃ q q', (Packet.ofHeader Llc.dissector [0xaa, 0xaa, 3, 0, 0, 0, 8, 0]).recompute .fill
          = .ok q ∧ q.recompute .fill = .ok q' ∧ q'.contents = q.contents := by
  have hreach : Reachable (· ∈ Dissector.all)
      (Packet.ofHeader Llc.dissector [0xaa, 0xaa, 3, 0, 0, 0, 8, 0]) :=
    @Reachable.ofHeader (· ∈ Dissector.all) _ (by simp [Dissector.all]) _
  obtain ⟨q, q', hq, hq', _, hwhole⟩ := Reachable.recompute_twice hreach .fill
  refine ⟨hreach, q, q', hq, hq', hwhole fun l hl => ?_⟩
  rw [show l = _ from List.mem_singleton.1 hl]
  exact ⟨[], rfl⟩

/-- A header of no bytes gets the length of a SNAP header, and then, since it
does not start one, the length of a header that is none. -/
theorem Reachable.recompute_twice_shortens :
    Reachable (· ∈ Dissector.all) (Packet.ofHeader Llc.dissector [])
      ∧ ∃ q q', (Packet.ofHeader Llc.dissector []).recompute .fill = .ok q
        ∧ q.recompute .fill = .ok q'
        ∧ q.contents = [[0, 0, 0, 0, 0, 0, 0, 0], []] ∧ q'.contents = [[0, 0, 0, 0], []] :=
  ⟨@Reachable.ofHeader (· ∈ Dissector.all) _ (by simp [Dissector.all]) _,
    _, _, rfl, rfl, rfl, rfl⟩

end PacketLayers
