/-
  PacketLayers.Proofs.Redecode
  ────────────────────────────────
  **A DECODED PACKET STAYS WHERE IT IS WHEN IT IS BROUGHT UP TO DATE.**

  Decoding leaves whole headers that name what is inside them, so bringing
  them up to date announces nothing and changes no length: every region stays
  where it is in the buffer.  Only derived bytes are written over, and the
  buffer is then cut at the same places again, although its length fields may
  have been zero, too short or too long before.

    • `Layer.recomputeAll_keeps` — shared headers that keep their length stay
      where they are;
    • `touched_of_recomputeAll` — the pass brings headers up to date and does
      nothing else;
    • `Dispatched.again` — the rules lead to the same layers again;
    • `recompute_decoded` — all of this, for every captured buffer.
-/
import PacketLayers.Proofs.Dispatch
import PacketLayers.Proofs.Idempotence
import PacketLayers.Proofs.Steady

namespace PacketLayers

/-! ## §1. Regions that stay. -/

namespace Region

/-- A write keeps the length of the arena and of the region, and a shared
region where it is. -/
theorem store_keeps {arena new : Bytes} {r : Region} {out : Bytes × Region}
    (ok : r.store arena new = .ok out) :
    out.1.length = arena.length ∧ out.2.length = r.length ∧ ∀ s, r = shared s → out.2 = r := by
  unfold store at ok
  split at ok
  · cases ok
  · next hnew =>
    have hnew : new.length = (r.bytes arena).length := Decidable.not_not.1 hnew
    -- a place of its own, a part of the buffer, or one that is not in it
    cases r with
    | owned b =>
      injection ok with ok
      subst ok
      exact ⟨rfl, hnew, fun _ hs => (nomatch hs)⟩
    | shared s =>
      by_cases hinside : s.stop ≤ arena.length
      · rw [bytes_shared hinside, Span.length_bytesOf hinside] at hnew
        simp only [if_pos hinside] at ok
        injection ok with ok
        subst ok
        refine ⟨?_, rfl, fun _ _ => rfl⟩
        unfold Span.stop at hinside
        simp only [List.length_append, List.length_take, List.length_drop]
        omega
      · simp only [if_neg hinside] at ok
        injection ok with ok
        subst ok
        exact ⟨rfl, rfl, fun _ _ => rfl⟩

/-- Regions that tile a part of the arena read what is there. -/
theorem Tiles.concat_eq {arena : Bytes} {rs : List Region} {first last : Nat}
    (h : Tiles first rs last) (inside : last ≤ arena.length) :
    concat arena rs = Span.bytesOf ⟨first, last - first⟩ arena := by
  have hfirst : first ≤ arena.length := by
    have hlast := h.last_eq
    omega
  have hrun : contiguousFrom ⟨first, 0⟩ rs = some ⟨first, last - first⟩ :=
    Tiles.contiguousFrom_eq h
  obtain ⟨_, hbytes⟩ := contiguousFrom_eq_some (h.laidOut inside).held
    (show Span.stop ⟨first, 0⟩ ≤ arena.length from hfirst) hrun
  rw [hbytes]
  rfl

end Region

namespace Layer

variable {arena : Bytes} {l : Layer}

/-- Announcing what is inside a layer leaves its shared header where it is. -/
theorem announce_keeps {inside : Option Layer} {out : Bytes × Layer} {s : Span}
    (place : l.header = .shared s) (ok : l.announce arena inside = .ok out) :
    out.1.length = arena.length ∧ out.2 = l := by
  unfold announce at ok
  split at ok
  · injection ok with ok
    subst ok
    exact ⟨rfl, rfl⟩
  · split at ok
    · injection ok with ok
      subst ok
      exact ⟨rfl, rfl⟩
    · obtain ⟨stated, _, ok⟩ := bind_eq_ok.1 ok
      split at ok
      · injection ok with ok
        subst ok
        exact ⟨rfl, rfl⟩
      · obtain ⟨new, _, ok⟩ := bind_eq_ok.1 ok
        obtain ⟨⟨arena', header⟩, hstore, ok⟩ := bind_eq_ok.1 ok
        injection ok with ok
        subst ok
        -- a header inside the buffer is written in place
        obtain ⟨harena, _, hplace⟩ := Region.store_keeps hstore
        have hheader : header = l.header := hplace s place
        exact ⟨harena, by rw [hheader]⟩

/-- Of two headers of the same length the second has the place of the
first. -/
theorem fit_keeps {l' : Layer} (ok : l.fit arena = .ok l')
    (length : l'.header.length = l.header.length) : l' = l := by
  unfold fit at ok
  obtain ⟨size, _, ok⟩ := bind_eq_ok.1 ok
  cases size with
  | none =>
    injection ok with ok
    exact ok.symm
  | some size =>
    injection ok with ok
    subst ok
    have hsize : size = l.header.length :=
      (Region.length_resize arena l.header size).symm.trans length
    have hheader : l.header.resize arena size = l.header := if_pos hsize
    rw [hheader]

theorem recompute_keeps {cx : Context} {out : Bytes × Layer} (ok : l.recompute arena cx = .ok out) :
    out.1.length = arena.length ∧ out.2.header.length = l.header.length
      ∧ ∀ s, l.header = .shared s → out.2 = l := by
  unfold recompute at ok
  obtain ⟨new, _, ok⟩ := bind_eq_ok.1 ok
  obtain ⟨⟨arena', header⟩, hstore, ok⟩ := bind_eq_ok.1 ok
  injection ok with ok
  subst ok
  obtain ⟨harena, hlength, hplace⟩ := Region.store_keeps hstore
  refine ⟨harena, hlength, fun s hs => ?_⟩
  have hheader : header = l.header := hplace s hs
  rw [hheader]

/-- The regions of layers are headers, paddings and the body. -/
theorem mem_wireRegions {layers : List Layer} {body : Option Region} {r : Region} :
    r ∈ wireRegions layers body
      ↔ (∃ l ∈ layers, r = l.header ∨ r = l.padding) ∨ r ∈ body.toList := by
  induction layers with
  | nil => simp [wireRegions]
  | cons l inner ih =>
    rw [wireRegions, List.mem_cons, List.mem_append, ih, List.mem_singleton]
    simp only [List.exists_mem_cons_iff]
    generalize (∃ l ∈ inner, r = l.header ∨ r = l.padding) = deeper
    tauto

/-- **Shared headers that keep their length stay where they are,** and the
arena keeps its length. -/
theorem recomputeAll_keeps {mode : ChecksumMode} {body : Option Region} {layers : List Layer} :
    ∀ {arena : Bytes} {pseudo : Option PseudoHeader} {out : Bytes × List Layer},
      recomputeAll mode body arena pseudo layers = .ok out →
      (∀ l ∈ layers, ∃ s, l.header = .shared s) →
      out.2.map (·.header.length) = layers.map (·.header.length) →
      out.1.length = arena.length ∧ out.2 = layers := by
  induction layers with
  | nil =>
    intro arena pseudo out ok _ _
    injection ok with ok
    subst ok
    exact ⟨rfl, rfl⟩
  | cons l inner ih =>
    intro arena pseudo out ok place length
    rw [recomputeAll] at ok
    obtain ⟨⟨arena₁, l₁⟩, hannounce, ok⟩ := bind_eq_ok.1 ok
    obtain ⟨l₂, hfit, ok⟩ := bind_eq_ok.1 ok
    obtain ⟨lent, _, ok⟩ := bind_eq_ok.1 ok
    obtain ⟨⟨arena₂, inner'⟩, hinner, ok⟩ := bind_eq_ok.1 ok
    obtain ⟨⟨arena₃, l₃⟩, hrecompute, ok⟩ := bind_eq_ok.1 ok
    injection ok with ok
    subst ok
    obtain ⟨s, hs⟩ := place l List.mem_cons_self
    rw [List.map_cons, List.map_cons] at length
    injection length with hlength hlengths
    obtain ⟨harena₁, hl₁⟩ := announce_keeps hs hannounce
    obtain ⟨harena₃, hlength₃, hl₃⟩ := recompute_keeps hrecompute
    simp only at harena₁ hl₁ harena₃ hlength₃ hl₃
    subst hl₁
    -- the length at the end is that at the beginning, so no other was asked for
    obtain rfl : l₂ = l₁ := fit_keeps hfit (by omega)
    obtain ⟨harena₂, hinner₂⟩ :=
      ih hinner (fun m hm => place m (List.mem_cons_of_mem _ hm)) hlengths
    simp only at harena₂ hinner₂
    refine ⟨by simp only; omega, ?_⟩
    rw [hl₃ s hs, hinner₂]

end Layer

namespace Packet

variable {p q : Packet} {mode : ChecksumMode}

/-- A frame check sequence in its place is stored there. -/
theorem updateFcs_keeps (place : ∀ r, p.fcs = some r → ∃ s, r = .shared s ∧ s.length = fcsLength)
    (ok : p.updateFcs = .ok q) :
    q.arena.length = p.arena.length ∧ q = { p with arena := q.arena } := by
  obtain ⟨arena, layers, body, fcs, stale⟩ := p
  unfold updateFcs at ok
  cases fcs with
  | none =>
    injection ok with ok
    subst ok
    exact ⟨rfl, rfl⟩
  | some r =>
    obtain ⟨s, rfl, hlength⟩ := place r rfl
    have hresize : (Region.shared s).resize arena fcsLength = .shared s := if_pos hlength.symm
    simp only [hresize] at ok
    obtain ⟨⟨arena', r'⟩, hstore, ok⟩ := bind_eq_ok.1 ok
    injection ok with ok
    subst ok
    obtain ⟨harena, _, hplace⟩ := Region.store_keeps hstore
    have hr : r' = .shared s := hplace s rfl
    exact ⟨harena, by rw [hr]⟩

/-- **A packet whose shared regions keep their lengths** stays where it is in
its arena. -/
theorem recompute_keeps (laid : p.LaidOut) (ok : p.recompute mode = .ok q)
    (place : ∀ l ∈ p.layers, ∃ s, l.header = .shared s)
    (placeFcs : ∀ r, p.fcs = some r → ∃ s, r = .shared s ∧ s.length = fcsLength)
    (length : q.plain.layers.map (·.header.length) = p.plain.layers.map (·.header.length)) :
    q.arena.length = p.arena.length ∧ q = { p with arena := q.arena, stale := false } := by
  have hagrees := recompute_agrees laid mode
  rw [ok] at hagrees
  obtain ⟨_, _, fresh⟩ := hagrees.of_ok_left
  -- headers are as long as their bytes
  have hlength : ∀ {p : Packet}, p.LaidOut →
      p.plain.layers.map (·.header.length) = p.layers.map (·.header.length) := by
    intro p laid
    rw [plain, List.map_map]
    refine List.map_congr_left fun l hl => ?_
    have hinside : l.header.Inside p.arena := laid.inside_of_mem
      (List.mem_append_left _ (Layer.mem_wireRegions.2 (.inl ⟨l, hl, .inl rfl⟩)))
    exact Region.length_bytes hinside
  rw [hlength laid, hlength fresh.laidOut] at length
  obtain ⟨arena, layers, p', hall, hfcs, rfl⟩ := recompute_eq_ok.1 ok
  cases mode with
  | fill =>
    obtain ⟨harena', hp'⟩ := @updateFcs_keeps { p with arena := arena, layers := layers } p'
      placeFcs hfcs
    rw [hp'] at length
    obtain ⟨harena, hlayers⟩ := Layer.recomputeAll_keeps hall place length
    simp only at harena hlayers harena'
    refine ⟨harena'.trans harena, ?_⟩
    rw [hp', hlayers]
  | keep =>
    injection hfcs with hfcs
    subst hfcs
    obtain ⟨harena, hlayers⟩ := Layer.recomputeAll_keeps hall place length
    simp only at harena hlayers
    refine ⟨harena, ?_⟩
    rw [hlayers]

end Packet

/-! ## §2. Headers that are brought up to date and nothing else. -/

namespace PlainLayer

variable {known : Dissector → Prop} {mode : ChecksumMode} {body : Option Bytes}

/-- Layers as decoding leaves them: every header is whole and leads to the
layer inside. -/
def InPlace : List PlainLayer → Prop
  | [] => True
  | l :: inner =>
    l.Whole ∧ (∀ child, inner.head? = some child → ∀ o, child.origin = some o →
      l.dissector.Leads l.header child.header o) ∧ InPlace inner

/-- A header in place has nothing to announce. -/
theorem announce_of_inPlace {l : PlainLayer} {inner : List PlainLayer}
    (law : l.dissector.Lawful) (place : InPlace (l :: inner)) :
    l.dissector.announce l.header inner.head? = .ok l.header := by
  obtain ⟨_, leads, _⟩ := place
  cases hchild : inner.head? with
  | none => rfl
  | some child => exact Dissector.announce_eq_self (leads child hchild) law

/-- Layers whose headers were brought up to date, from the innermost out. -/
inductive Touched (body : Option Bytes) : List PlainLayer → List PlainLayer → Prop where
  | nil : Touched body [] []
  | cons {l : PlainLayer} {header : Bytes} {inner inner' : List PlainLayer} {cx : Context}
      (steady : l.dissector.Steady) (whole : l.Whole) (payload : cx.payload = wire inner' body)
      (ok : l.dissector.recompute l.header cx = .ok header) (inside : Touched body inner inner') :
      Touched body (l :: inner) ({ l with header := header } :: inner')

/-- **The pass brings headers up to date,** and does nothing else to layers in
place. -/
theorem touched_of_recomputeAll (steady : ∀ d, known d → d.Steady) {layers : List PlainLayer} :
    ∀ {pseudo : Option PseudoHeader} {out : List PlainLayer},
      (∀ l ∈ layers, known l.dissector) → InPlace layers →
        recomputeAll mode body pseudo layers = .ok out → Touched body layers out := by
  induction layers with
  | nil =>
    intro pseudo out _ _ ok
    injection ok with ok
    subst ok
    exact .nil
  | cons l inner ih =>
    intro pseudo out hknown place ok
    have hsteady := steady _ (hknown l List.mem_cons_self)
    have hlaw := hsteady.lawful
    obtain ⟨h₁, h₂, lent, inner', h₃, hannounce, hfit, _, hinner, hrefresh, rfl⟩ :=
      recomputeAll_cons_eq_ok ok
    -- there is nothing to announce, and the length is right
    obtain rfl : l.header = h₁ :=
      Except.ok.inj ((announce_of_inPlace hlaw place).symm.trans hannounce)
    obtain rfl : l.header = h₂ := Except.ok.inj ((hlaw.whole_fits place.1).symm.trans hfit)
    exact .cons hsteady place.1 rfl ((Dissector.refresh_eq_ok hlaw).1 hrefresh)
      (ih (fun m hm => hknown m (List.mem_cons_of_mem l hm)) place.2.2 hinner)

namespace Touched

variable {layers out : List PlainLayer}

/-- The first byte of a header stays, and so does its length. -/
theorem header_keeps {d : Dissector} {h h' : Bytes} {cx : Context} (steady : d.Steady)
    (whole : d.Whole h) (ok : d.recompute h cx = .ok h') :
    h'.length = h.length ∧ h'.head? = h.head? := by
  refine ⟨steady.lawful.total.length_recompute ok, ?_⟩
  have hfirst := steady.keeps whole ok 0 (d.kind.not_derives_zero h)
  rw [List.head?_eq_getElem?, List.head?_eq_getElem?, hfirst]

/-- What was done to the outermost layer, and inside it. -/
theorem of_cons {l l' : PlainLayer} {inner inner' : List PlainLayer}
    (h : Touched body (l :: inner) (l' :: inner')) :
    ∃ cx, l.dissector.Steady ∧ cx.payload = wire inner' body
      ∧ l.dissector.recompute l.header cx = .ok l'.header ∧ Touched body inner inner' := by
  cases h with
  | cons steady _ payload ok inside => exact ⟨_, steady, payload, ok, inside⟩

/-- No header changes its length. -/
theorem length_headers (h : Touched body layers out) :
    out.map (·.header.length) = layers.map (·.header.length) := by
  induction h with
  | nil => rfl
  | cons steady whole _ ok _ ih =>
    rw [List.map_cons, List.map_cons, ih, (header_keeps steady whole ok).1]

/-- What is in front of everything else stays. -/
theorem head?_wire (h : Touched body layers out) :
    (wire out body).head? = (wire layers body).head? := by
  induction h with
  | nil => rfl
  | cons steady whole _ ok _ ih =>
    obtain ⟨_, hhead⟩ := header_keeps steady whole ok
    simp only [wire_cons, List.head?_append, hhead, ih]

/-- Of every layer nothing but derived bytes of its header is written over. -/
theorem keeps (h : Touched body layers out) :
    ∀ {depth : Nat} {l l' : PlainLayer}, layers[depth]? = some l → out[depth]? = some l' →
      l'.padding = l.padding ∧ ∀ i, ¬ l.kind.Derives l.header i → l'.header[i]? = l.header[i]? := by
  induction h with
  | nil =>
    intro depth l l' before _
    cases before
  | cons steady whole _ ok _ ih =>
    intro depth l l' before after
    cases depth with
    | zero =>
      injection before with before
      injection after with after
      subst before after
      exact ⟨rfl, steady.keeps whole ok⟩
    | succ depth => exact ih before after

end Touched

end PlainLayer

/-! ## §3. The rules once more. -/

namespace Registry

variable {r : Registry} {arena arena' : Bytes} {d : Dissector} {origin : Option Discriminant}
  {span header payload padding : Span} {branch : Branch} {room : Nat} {cx : Context}

/-- What a cut leaves behind the header does not depend on the arena, but for
its bytes. -/
theorem bytesOf_cut (cut : Cut arena d span header payload padding)
    (same : arena'.length = arena.length) :
    ∃ rest, span.bytesOf arena' = header.bytesOf arena' ++ rest
      ∧ rest.length = payload.length + padding.length := by
  have hheader := cut.header_offset
  have hpayload := cut.body_offset
  have hpadding := cut.padding_offset
  have hstop := cut.padding_stop
  have hinside := cut.inside
  unfold Span.stop at hpayload hpadding hstop hinside
  have hspan : span = ⟨header.offset, header.length + (payload.length + padding.length)⟩ := by
    cases span
    simp only at hheader hstop
    congr 1 <;> omega
  refine ⟨Span.bytesOf ⟨header.stop, payload.length + padding.length⟩ arena', ?_, ?_⟩
  · rw [hspan]
    exact Region.bytesOf_adjacent arena' header (payload.length + padding.length)
  · apply Span.length_bytesOf
    simp only [Span.stop]
    omega

/-- A header that was cut off is whole. -/
theorem whole_of_cut (cut : Cut arena d span header payload padding) :
    d.Whole (header.bytesOf arena) := by
  obtain ⟨rest, hrest, _⟩ := bytesOf_cut cut rfl
  refine ⟨rest, ?_⟩
  rw [← hrest, cut.header_length, Span.length_bytesOf (header_inside cut)]

section Again

variable (steady : d.Steady) (cut : Cut arena d span header payload padding)
  (same : arena'.length = arena.length)
  (ok : d.recompute (header.bytesOf arena) cx = .ok (header.bytesOf arena'))

include steady cut ok

/-- A header that was brought up to date cuts the same span alike. -/
theorem recut (same : arena'.length = arena.length)
    (measured : cx.payload.length = payload.length) :
    Cut arena' d span header payload padding := by
  have whole := whole_of_cut cut
  obtain ⟨rest, hrest, hlength⟩ := bytesOf_cut cut rfl
  obtain ⟨rest', hrest', hlength'⟩ := bytesOf_cut cut same
  have hheader : (header.bytesOf arena).length = header.length :=
    Span.length_bytesOf (header_inside cut)
  have hheader' : (header.bytesOf arena').length = header.length :=
    Span.length_bytesOf (same ▸ header_inside cut)
  obtain ⟨stated, hstated, hcut⟩ := cut.body_length
  refine ⟨same ▸ cut.inside, cut.header_offset, cut.body_offset, cut.padding_offset,
    cut.padding_stop, ?_, ?_⟩
  · have hreads : d.headerLength (header.bytesOf arena ++ rest)
        = .ok (header.bytesOf arena).length := by
      rw [← hrest, cut.header_length, hheader]
    have hreads' := steady.reads hreads ok (hlength'.trans hlength.symm)
    rw [hrest', hreads', hheader']
  · obtain ⟨stated', hstated', hcut'⟩ := steady.measures whole ok hstated (measured.trans hcut)
    exact ⟨stated', hstated', measured ▸ hcut'⟩

/-- A payload that begins as before is offered as before. -/
theorem Offers.again {o : Discriminant}
    (head : (payload.bytesOf arena').head? = (payload.bytesOf arena).head?)
    (offers : Offers arena d header payload o) : Offers arena' d header payload o where
  nonempty := offers.nonempty
  unsealed := (steady.isSealed (whole_of_cut cut) ok).trans offers.unsealed
  named := (steady.next (whole_of_cut cut) ok head).trans offers.named

/-- A payload with the bytes it had stays bytes. -/
theorem Stays.again {failure : Option Error}
    (bytes : payload.bytesOf arena' = payload.bytesOf arena)
    (stays : Stays r arena room d header payload failure) :
    Stays r arena' room d header payload failure := by
  have whole := whole_of_cut cut
  have hoffers : ∀ {o : Discriminant}, Offers arena d header payload o →
      Offers arena' d header payload o := Offers.again steady cut ok (by rw [bytes])
  cases stays with
  | empty none => exact .empty none
  | closed nonempty closed => exact .closed nonempty ((steady.isSealed whole ok).trans closed)
  | unnamed nonempty unsealed unnamed =>
    exact .unnamed nonempty ((steady.isSealed whole ok).trans unsealed)
      ((steady.next whole ok (by rw [bytes])).trans unnamed)
  | full offers full => exact .full (hoffers offers) full
  | unknown offers deep kept => exact .unknown (hoffers offers) deep kept
  | refused offers deep refused => exact .refused (hoffers offers) deep refused
  | unreadable offers deep stands fails =>
    refine .unreadable (hoffers offers) deep stands ?_
    unfold HeaderFails
    rw [bytes]
    exact fails

end Again

/-- The bytes of a span that was decoded are those of the layers in it, also in
an arena that was written to. -/
theorem Dispatched.bytesOf (h : Dispatched r arena room d origin span branch)
    (inside : span.stop ≤ arena'.length) :
    span.bytesOf arena' = PlainLayer.wire (branch.layers.map (Layer.plain arena'))
      (branch.body.map (Region.bytes arena')) := by
  have htiles := h.decoded.tiles
  have hspan : (⟨span.offset, span.stop - span.offset⟩ : Span) = span := by
    rw [Span.stop, Nat.add_sub_cancel_left]
  rw [← Layer.concat_wireRegions, Region.Tiles.concat_eq htiles inside, hspan]

/-- A payload that stays bytes, as plain bytes. -/
theorem wire_rawBody (inside : payload.stop ≤ arena.length) :
    PlainLayer.wire [] ((rawBody payload).map (Region.bytes arena)) = payload.bytesOf arena := by
  unfold rawBody
  split
  · next hnone =>
    have hlength := Span.length_bytesOf inside
    rw [hnone] at hlength
    exact (List.length_eq_zero_iff.1 hlength).symm
  · rw [PlainLayer.wire_nil]
    exact Region.bytes_shared inside

/-- The header of a layer that was cut is its span. -/
theorem recompute_of_cut (cut : Cut arena d span header payload padding)
    (same : arena'.length = arena.length)
    (ok : d.recompute ((Region.shared header).bytes arena) cx
      = .ok ((Region.shared header).bytes arena')) :
    d.recompute (header.bytesOf arena) cx = .ok (header.bytesOf arena') := by
  have hinside := header_inside cut
  rw [Region.bytes_shared hinside, Region.bytes_shared (same ▸ hinside)] at ok
  exact ok

/-- **The rules lead to the same layers again** when their headers were brought
up to date, and nothing else was written. -/
theorem Dispatched.again (same : arena'.length = arena.length)
    (h : Dispatched r arena room d origin span branch)
    (kept : branch.body.map (Region.bytes arena') = branch.body.map (Region.bytes arena))
    (touched : PlainLayer.Touched (branch.body.map (Region.bytes arena))
      (branch.layers.map (Layer.plain arena)) (branch.layers.map (Layer.plain arena'))) :
    Dispatched r arena' room d origin span branch := by
  -- on the rules: what is inside a layer tells what the layer was measured by
  induction h with
  | @innermost room d origin span header payload padding failure cut stays =>
    obtain ⟨cx, steady, hpayload, ok, _⟩ := touched.of_cons
    have hinside := payload_inside cut
    have hbytes : payload.bytesOf arena' = payload.bytesOf arena := by
      rw [← wire_rawBody hinside, ← wire_rawBody (same ▸ hinside), kept]
    rw [List.map_nil, wire_rawBody hinside] at hpayload
    have ok := recompute_of_cut cut same ok
    refine .innermost (recut steady cut ok same ?_) (stays.again steady cut ok hbytes)
    rw [hpayload, Span.length_bytesOf hinside]
  | @around room d child origin o span header payload padding inner cut offers stands inside ih =>
    obtain ⟨cx, steady, hpayload, ok, htouched⟩ := touched.of_cons
    have hinside := payload_inside cut
    have hbytes := inside.bytesOf hinside
    have hbytes' := inside.bytesOf (same ▸ hinside)
    have hhead : (payload.bytesOf arena').head? = (payload.bytesOf arena).head? := by
      rw [hbytes, hbytes', kept, htouched.head?_wire]
    rw [← kept, ← hbytes'] at hpayload
    have ok := recompute_of_cut cut same ok
    refine .around (recut steady cut ok same ?_) (offers.again steady cut ok hhead) stands
      (ih kept htouched)
    rw [hpayload, Span.length_bytesOf (same ▸ hinside)]

/-- Decoding leaves layers in place. -/
theorem Dispatched.inPlace {known : Dissector → Prop} (uses : r.Uses known)
    (steady : ∀ d, known d → d.Steady) (h : Dispatched r arena room d origin span branch) :
    known d → (∀ l ∈ branch.layers.map (Layer.plain arena), known l.dissector)
      ∧ PlainLayer.InPlace (branch.layers.map (Layer.plain arena)) := by
  induction h with
  | @innermost room d origin span header payload padding failure cut stays =>
    intro root
    refine ⟨fun l hl => ?_, ?_, fun child hchild => (nomatch hchild), trivial⟩
    · rw [List.mem_singleton.1 hl]
      exact root
    · show d.Whole ((Region.shared header).bytes arena)
      rw [Region.bytes_shared (header_inside cut)]
      exact whole_of_cut cut
  | @around room d child origin o span header payload padding inner cut offers stands inside ih =>
    intro root
    obtain ⟨hknown, hplace⟩ := ih (uses _ (dissect_mem stands) _ rfl)
    have hheader : (Region.shared header).bytes arena = header.bytesOf arena :=
      Region.bytes_shared (header_inside cut)
    refine ⟨fun l hl => ?_, ?_, fun m hm o' ho' => ?_, hplace⟩
    · rcases List.mem_cons.1 hl with rfl | hl
      · exact root
      · exact hknown l hl
    · show d.Whole ((Region.shared header).bytes arena)
      rw [hheader]
      exact whole_of_cut cut
    · -- the layer inside was found under the name that was read
      obtain ⟨l, hl, _, horigin, _⟩ := inside.head?
      rw [List.head?_map, List.head?_eq_getElem?, hl] at hm
      injection hm with hm
      subst hm
      obtain rfl : o = o' := Option.some.inj (horigin.symm.trans ho')
      show d.Leads ((Region.shared header).bytes arena) _ o
      rw [hheader]
      exact (steady d root).lawful.leads_payload (.inl offers.named)

end Registry

/-! ## §4. Bytes that are written over. -/

/-- A byte of a span, in the span and in the arena. -/
theorem Span.getElem?_bytesOf {s : Span} {arena : Bytes} {i : Nat} (behind : s.offset ≤ i)
    (before : i < s.stop) : (s.bytesOf arena)[i - s.offset]? = arena[i]? := by
  unfold Span.stop at before
  rw [Span.bytesOf, List.getElem?_take_of_lt (by omega), List.getElem?_drop]
  congr 1
  omega

/-- Every byte of an arena belongs to one of the regions that tile it. -/
theorem Region.Tiles.covers {rs : List Region} :
    ∀ {first last i : Nat}, Tiles first rs last → first ≤ i → i < last →
      ∃ s, shared s ∈ rs ∧ s.offset ≤ i ∧ i < s.stop := by
  induction rs with
  | nil =>
    intro first last i h behind before
    have hempty : first = last := h
    omega
  | cons r rest ih =>
    intro first last i h behind before
    obtain ⟨size, rfl, hrest⟩ := h
    by_cases hfirst : i < first + size
    · exact ⟨_, List.mem_cons_self, behind, hfirst⟩
    · obtain ⟨s, hs, hbounds⟩ := ih hrest (Nat.le_of_not_lt hfirst) before
      exact ⟨s, List.mem_cons_of_mem _ hs, hbounds⟩

namespace Packet

/-- The bytes of the arena that bringing the packet up to date may change:
derived bytes of headers, and the frame check sequence. -/
def Derives (p : Packet) (i : Nat) : Prop :=
  (∃ l ∈ p.layers, ∃ s, l.header = .shared s ∧ s.offset ≤ i ∧ i < s.stop
      ∧ l.kind.Derives (l.header.bytes p.arena) (i - s.offset))
    ∨ ∃ s, p.fcs = some (.shared s) ∧ s.offset ≤ i ∧ i < s.stop

/-- **No other bytes change.** -/
theorem keeps_of_touched {p : Packet} {arena' : Bytes} (length : arena'.length = p.arena.length)
    (tiles : Region.Tiles 0 p.allRegions p.arena.length)
    (kept : p.body.map (Region.bytes arena') = p.body.map (Region.bytes p.arena))
    (touched : PlainLayer.Touched (p.body.map (Region.bytes p.arena))
      (p.layers.map (Layer.plain p.arena)) (p.layers.map (Layer.plain arena'))) (i : Nat)
    (underived : ¬ p.Derives i) : arena'[i]? = p.arena[i]? := by
  by_cases hi : i < p.arena.length
  · obtain ⟨s, hs, behind, before⟩ := tiles.covers (Nat.zero_le i) hi
    have hinside : s.stop ≤ p.arena.length :=
      (tiles.laidOut (Nat.le_refl _)).inside_of_mem hs s rfl
    -- the byte is read where its region reads it
    have hread : ((Region.shared s).bytes arena')[i - s.offset]?
        = ((Region.shared s).bytes p.arena)[i - s.offset]? → arena'[i]? = p.arena[i]? := by
      rw [Region.bytes_shared hinside, Region.bytes_shared (length ▸ hinside),
        Span.getElem?_bytesOf behind before, Span.getElem?_bytesOf behind before]
      exact id
    refine hread ?_
    rcases List.mem_append.1 hs with hs | hs
    · rcases Layer.mem_wireRegions.1 hs with ⟨l, hl, hregion⟩ | hbody
      · obtain ⟨depth, hdepth⟩ := List.mem_iff_getElem?.1 hl
        have hplain : ∀ arena,
            (p.layers.map (Layer.plain arena))[depth]? = some (l.plain arena) := by
          intro arena
          rw [List.getElem?_map, hdepth, Option.map_some]
        obtain ⟨hpadding, hheader⟩ := touched.keeps (hplain p.arena) (hplain arena')
        rcases hregion with hregion | hregion
        · rw [hregion]
          exact hheader _ fun derived =>
            underived (.inl ⟨l, hl, s, hregion.symm, behind, before, derived⟩)
        · rw [hregion]
          exact congrArg (·[i - s.offset]?) hpadding
      · have hsome : p.body = some (.shared s) := Option.mem_toList.1 hbody
        rw [hsome] at kept
        exact congrArg (·[i - s.offset]?) (Option.some.inj kept)
    · have hfcs : p.fcs = some (.shared s) := Option.mem_toList.1 hs
      exact (underived (.inr ⟨s, hfcs, behind, before⟩)).elim
  · rw [List.getElem?_eq_none (Nat.le_of_not_lt hi), List.getElem?_eq_none (by omega)]

end Packet

/-! ## §5. Whole buffers. -/

/-- The outcome with another packet in the place of its own. -/
def Decoding.over (q : Packet) : Decoding → Decoding
  | complete _ => complete q
  | stopped e _ => stopped e q
  | refused e => refused e

namespace Decoding

variable {out : Decoding} {p q q' : Packet}

theorem packet?_over (hp : out.packet? = some p) (q : Packet) : (out.over q).packet? = some q := by
  cases out with
  | complete => rfl
  | stopped => rfl
  | refused => cases hp

@[simp] theorem over_over (out : Decoding) (p q : Packet) : (out.over p).over q = out.over q := by
  cases out <;> rfl

theorem over_self (hp : out.packet? = some p) : out.over p = out := by
  cases out with
  | complete => exact congrArg complete (Option.some.inj hp).symm
  | stopped e => exact congrArg (stopped e) (Option.some.inj hp).symm
  | refused => cases hp

theorem over_inj (hp : out.packet? = some p) (same : out.over q = out.over q') : q = q' := by
  have hq := packet?_over hp q
  rw [same, packet?_over hp q'] at hq
  exact (Option.some.inj hq).symm

end Decoding

namespace Registry

variable {r : Registry} {d : Dissector} {origin : Option Discriminant} {data data' : Bytes}
  {hasFcs : Bool} {out : Decoding} {p : Packet}

/-- Where the frame check sequence is cut off depends on the length alone. -/
theorem cutFcs_of_length (same : data'.length = data.length) :
    cutFcs data' hasFcs = cutFcs data hasFcs := by
  unfold cutFcs
  rw [same]

theorem fcs_of_cutFcs {frame : Span} {fcs : Option Region}
    (cut : cutFcs data hasFcs = .ok (frame, fcs)) {t : Region} (present : fcs = some t) :
    ∃ s, t = .shared s ∧ s.length = fcsLength := by
  subst present
  unfold cutFcs at cut
  split at cut
  · split at cut
    · cases cut
    · injection cut with cut
      injection cut with _ hfcs
      injection hfcs with hfcs
      exact ⟨_, hfcs.symm, rfl⟩
  · injection cut with cut
    injection cut with _ hfcs
    cases hfcs

/-- **A decoded packet that is brought up to date** stays where it is in its
buffer, of which only derived bytes change; the buffer is then decoded to
it. -/
theorem decodeFrom_recomputed {known : Dissector → Prop} (steady : ∀ d, known d → d.Steady)
    (uses : r.Uses known) (root : known d) (h : r.decodeFrom d origin data hasFcs = .ok out)
    (hp : out.packet? = some p) (mode : ChecksumMode) :
    ∃ q, p.recompute mode = .ok q ∧ q = { p with arena := q.arena, stale := false }
      ∧ q.arena.length = data.length ∧ (∀ i, ¬ p.Derives i → q.arena[i]? = data[i]?)
      ∧ r.decodeFrom d origin q.arena hasFcs = .ok (out.over q) := by
  obtain ⟨_, _, htiles⟩ := tiles_of_decodeFrom h hp
  have laid : p.LaidOut := htiles.laidOut (Nat.le_refl _)
  rcases decodeFrom_eq_ok.1 h with ⟨e, _, rfl⟩ | ⟨frame, fcs, branch, hcut, found, rfl⟩
  · cases hp
  rw [Branch.packet?_decoding] at hp
  injection hp with hp
  subst hp
  obtain ⟨hknown, hplace⟩ := found.inPlace uses steady root
  obtain ⟨q, hq⟩ := Packet.recompute_succeeds laid (fun l hl =>
    (steady _ (hknown _ (List.mem_map_of_mem hl))).lawful.total) mode
  obtain ⟨hall, hbody⟩ := Packet.recomputeAll_of_recompute laid hq
  have htouched := PlainLayer.touched_of_recomputeAll steady hknown hplace hall
  -- no header has another length, so every region is where it was
  obtain ⟨harena, hsame⟩ := Packet.recompute_keeps laid hq
    (fun l hl => by
      obtain ⟨depth, hdepth⟩ := List.mem_iff_getElem?.1 hl
      exact ⟨_, (found.follows depth l hdepth).shared.1⟩)
    (fun t ht => fcs_of_cutFcs hcut ht) htouched.length_headers
  have hlayers : q.plain.layers = branch.layers.map (Layer.plain q.arena) := by rw [hsame]; rfl
  have hkept : branch.body.map (Region.bytes q.arena) = branch.body.map (Region.bytes data) := by
    rw [hsame] at hbody
    exact hbody
  rw [hlayers] at htouched
  refine ⟨q, hq, hsame, harena, Packet.keeps_of_touched harena htiles hkept htouched, ?_⟩
  refine decodeFrom_eq_ok.2 (.inr ⟨frame, fcs, branch, (cutFcs_of_length harena).trans hcut,
    found.again harena hkept htouched, ?_⟩)
  rw [hsame]
  unfold Branch.decoding
  cases branch.failure <;> rfl

/-- What was brought up to date in its place serializes to its buffer. -/
theorem serialize_recomputed {q : Packet} (tiles : Region.Tiles 0 p.allRegions p.arena.length)
    (same : q = { p with arena := q.arena, stale := false })
    (length : q.arena.length = p.arena.length) :
    Region.Tiles 0 q.allRegions q.arena.length
      ∧ ∀ mode, q.serialize mode = .ok (q.arena, q) := by
  have htiles : Region.Tiles 0 q.allRegions q.arena.length := by
    have hregions : q.allRegions = p.allRegions := by rw [same]; rfl
    rw [hregions, length]
    exact tiles
  exact ⟨htiles, fun mode => (serialize_of_tiles (by rw [same]) htiles mode).1⟩

/-- **Bringing a captured packet up to date** changes no length, and no bytes
but derived ones: the packet serializes to a buffer that is as long as the one
that was captured, and that is decoded in the same way, with every header,
payload and padding in its place. -/
theorem recompute_decoded (link : LinkType) (data : Bytes) (hasFcs : Bool) (mode : ChecksumMode)
    {out : Decoding} {p : Packet} (h : standard.decode link data hasFcs = .ok out)
    (hp : out.packet? = some p) :
    ∃ q, p.recompute mode = .ok q ∧ q.layers = p.layers ∧ q.body = p.body ∧ q.fcs = p.fcs
      ∧ (∀ mode', q.serialize mode' = .ok (q.arena, q)) ∧ q.arena.length = data.length
      ∧ (∀ i, ¬ p.Derives i → q.arena[i]? = data[i]?)
      ∧ standard.decode link q.arena hasFcs = .ok (out.over q) := by
  obtain ⟨d, hd, hfrom⟩ := decode_eq_decodeFrom h hp
  obtain ⟨harena, _, htiles⟩ := tiles_of_decodeFrom hfrom hp
  obtain ⟨q, hq, hsame, hlength, hkeeps, hagain⟩ := decodeFrom_recomputed
    (fun _ => Dissector.steady_of_mem_all) standard_uses
    (standard_uses _ (dissect_mem hd) d rfl) hfrom hp mode
  refine ⟨q, hq, by rw [hsame], by rw [hsame], by rw [hsame], fun mode' => ?_, hlength, hkeeps, ?_⟩
  · have htiles' : Region.Tiles 0 q.allRegions q.arena.length := by
      have hregions : q.allRegions = p.allRegions := by rw [hsame]; rfl
      rw [hregions, hlength, ← harena]
      exact htiles
    exact (serialize_of_tiles (by rw [hsame]) htiles' mode').1
  · unfold decode
    rw [hd]
    exact hagain

/-- A frame whose IPv4 header states no length, with too few bytes behind it
for a TCP header: the length is filled in, and decoding stops again where it
stopped. -/
theorem recompute_decoded_short :
    ∃ p q, standard.decode .ethernet (List.replicate 12 0 ++ [0x08, 0, 0x45, 0, 0, 0, 0, 0, 0, 0,
          64, 6, 0, 0, 10, 0, 0, 1, 10, 0, 0, 2, 1, 2, 3]) false = .ok (.stopped .truncated p)
      ∧ p.recompute .fill = .ok q
      ∧ standard.decode .ethernet q.arena false = .ok (.stopped .truncated q) := by
  obtain ⟨p, hp⟩ : ∃ p, standard.decode .ethernet (List.replicate 12 0 ++ [0x08, 0, 0x45, 0, 0, 0,
      0, 0, 0, 0, 64, 6, 0, 0, 10, 0, 0, 1, 10, 0, 0, 2, 1, 2, 3]) false
        = .ok (.stopped .truncated p) := ⟨_, rfl⟩
  obtain ⟨q, hq, _, _, _, _, _, _, hagain⟩ := recompute_decoded .ethernet _ false .fill hp rfl
  exact ⟨p, q, hp, hq, hagain⟩

end Registry

end PacketLayers
