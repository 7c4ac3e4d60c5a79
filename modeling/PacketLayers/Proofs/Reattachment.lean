/-
  PacketLayers.Proofs.Reattachment
  ────────────────────────────────
  **WHAT IS TAKEN OUT OF A LAYER CAN BE PUT BACK.**

  The payload of a layer of a captured packet is taken out and put back into
  the same layer.  On the way its bytes are copied out of the buffer and the
  layer is told again what is inside it; the buffer is then rebuilt.  Nothing
  is lost, but the layer announces the payload by the name that the library
  has for it, whichever it was captured with:

    • `recomputeAll_unnamed` — the names themselves have no say in the pass;
    • `Cursor.reattach` — what taking out and putting back does to the bytes;
    • `decodeFrom_retold` — the captured buffer with that name written into it;
    • `decodeFrom_reattached` — the packet serializes like that buffer, and
      like the capture itself exactly if the name there was no alias.
-/
import PacketLayers.Proofs.Alias
import PacketLayers.Proofs.Locality

namespace PacketLayers

/-! ## §1. Names in the pass. -/

namespace PlainLayer

/-- The layers, announced by nothing. -/
def unnamed (layers : List PlainLayer) : List PlainLayer :=
  layers.map fun l => { l with origin := none }

variable {mode : ChecksumMode} {body : Option Bytes} {outer inner layers out : List PlainLayer}
  {l child : PlainLayer} {header : Bytes} {o a : Discriminant}

@[simp] theorem pieces_unnamed (layers : List PlainLayer) (body : Option Bytes) :
    pieces (unnamed layers) body = pieces layers body := by
  induction layers with
  | nil => rfl
  | cons l inner ih =>
    show l.header :: (pieces (unnamed inner) body ++ [l.padding]) = _
    rw [ih]
    rfl

@[simp] theorem wire_unnamed (layers : List PlainLayer) (body : Option Bytes) :
    wire (unnamed layers) body = wire layers body := by
  rw [wire, pieces_unnamed, wire]

theorem unnamed_told (outer : List PlainLayer) (l : PlainLayer) (header : Bytes)
    (child : PlainLayer) (o : Discriminant) (inner : List PlainLayer) :
    unnamed (told outer l header child o inner)
      = unnamed (outer ++ { l with header := header } :: child :: inner) := by
  simp [told, unnamed]

/-- Layers that differ in nothing but names are of the same protocols. -/
theorem known_of_unnamed {layers' : List PlainLayer} {known : Dissector → Prop}
    (same : unnamed layers = unnamed layers') (h : ∀ l ∈ layers, known l.dissector) :
    ∀ l ∈ layers', known l.dissector := by
  intro l hl
  have hunnamed : { l with origin := none } ∈ unnamed layers' := List.mem_map_of_mem hl
  rw [← same] at hunnamed
  obtain ⟨m, hm, hsame⟩ := List.mem_map.1 hunnamed
  injection hsame with hdissector
  rw [← hdissector]
  exact h m hm

/-- **The names themselves have no say** in what the pass makes of layers in
place: there is nothing to announce. -/
theorem recomputeAll_unnamed :
    ∀ {layers : List PlainLayer} {pseudo : Option PseudoHeader} {out : List PlainLayer},
      (∀ l ∈ layers, l.dissector ∈ Dissector.all) → InPlace layers →
        recomputeAll mode body pseudo layers = .ok out →
          recomputeAll mode body pseudo (unnamed layers) = .ok (unnamed out) := by
  intro layers
  -- on the layers: headers that are in place have nothing to announce
  induction layers with
  | nil =>
    intro pseudo out _ _ ok
    obtain rfl := Except.ok.inj ok
    rfl
  | cons l inner ih =>
    intro pseudo out known place ok
    have hlaw := Dissector.lawful_of_mem_all (known l List.mem_cons_self)
    obtain ⟨h₁, h₂, lent, inner', h₃, hannounce, hfit, hlent, hinner, hrefresh, rfl⟩ :=
      recomputeAll_cons_eq_ok ok
    obtain rfl : l.header = h₁ :=
      Except.ok.inj ((announce_of_inPlace hlaw place).symm.trans hannounce)
    have hsilent : l.dissector.announce l.header (unnamed inner).head? = .ok l.header := by
      cases inner <;> rfl
    have hunnamed := ih (fun m hm => known m (List.mem_cons_of_mem l hm)) place.2.2 hinner
    show recomputeAll mode body pseudo ({ l with origin := none } :: unnamed inner) = _
    rw [recomputeAll, hsilent, ok_bind, hfit, ok_bind, hlent, ok_bind, hunnamed, ok_bind,
      wire_unnamed, hrefresh, ok_bind]
    rfl

/-- Layers in place stay so under another name that the header leads to. -/
theorem InPlace.rename (leads : l.dissector.Leads header child.header o) :
    InPlace (told outer l header child a inner) → InPlace (told outer l header child o inner) := by
  -- induction on the layers around, each of which looks at the name of the next one only
  induction outer with
  | nil =>
    rintro ⟨whole, _, hchild, hinside, hinner⟩
    refine ⟨whole, ?_, hchild, hinside, hinner⟩
    intro m hm o' ho'
    obtain rfl := Option.some.inj hm
    obtain rfl : o = o' := Option.some.inj ho'
    exact leads
  | cons first outer ih =>
    rintro ⟨whole, hfirst, hrest⟩
    refine ⟨whole, ?_, ih hrest⟩
    cases outer <;> exact hfirst

/-- The name that a layer was given, where the layers are. -/
theorem origin_of_told {arena : Bytes} {regions before inside : List Layer} {focus inward : Layer}
    (split : regions = before ++ focus :: inward :: inside) {names : List PlainLayer}
    (length : names.length = before.length)
    (same : regions.map (Layer.plain arena) = told names l header child a inner) :
    inward.origin = some a := by
  rw [split, List.map_append] at same
  obtain ⟨_, hinner⟩ := List.append_inj same (by rw [List.length_map, length])
  injection hinner with _ hrest
  injection hrest with hchild
  injection hchild

end PlainLayer

namespace PlainPacket

variable {p p' q q' : PlainPacket} {mode : ChecksumMode}

theorem recompute_unnamed (known : ∀ l ∈ p.layers, l.dissector ∈ Dissector.all)
    (place : PlainLayer.InPlace p.layers) (ok : p.recompute mode = .ok q) :
    ({ p with layers := PlainLayer.unnamed p.layers } : PlainPacket).recompute mode
      = .ok { q with layers := PlainLayer.unnamed q.layers } := by
  obtain ⟨layers, hlayers, rfl⟩ := recompute_eq_ok.1 ok
  refine recompute_eq_ok.2 ⟨_, PlainLayer.recomputeAll_unnamed known place hlayers, ?_⟩
  cases mode with
  | keep => rfl
  | fill => simp [sealed, updateFcs]

/-- Packets in place that differ in nothing but names are brought up to date
alike. -/
theorem pieces_of_unnamed (known : ∀ l ∈ p.layers, l.dissector ∈ Dissector.all)
    (place : PlainLayer.InPlace p.layers) (place' : PlainLayer.InPlace p'.layers)
    (layers : PlainLayer.unnamed p.layers = PlainLayer.unnamed p'.layers) (body : p.body = p'.body)
    (fcs : p.fcs = p'.fcs) (ok : p.recompute mode = .ok q) (ok' : p'.recompute mode = .ok q') :
    q.pieces = q'.pieces := by
  have hunnamed := recompute_unnamed known place ok
  have hunnamed' := recompute_unnamed (PlainLayer.known_of_unnamed layers known) place' ok'
  rw [layers, body, fcs] at hunnamed
  have hsame := Except.ok.inj (hunnamed.symm.trans hunnamed')
  have hpieces := congrArg pieces hsame
  rw [pieces, pieces, PlainLayer.pieces_unnamed, PlainLayer.pieces_unnamed] at hpieces
  exact hpieces

end PlainPacket

/-! ## §2. Taking out and putting back. -/

namespace Cursor

variable {c c' : Cursor} {child : Layer} {rest : List Layer} {o : Discriminant} {header : Bytes}

/-- **A payload of layers that is taken out can be put back,** into a layer that
can name it.  The layer is told what it is, and nothing else is another. -/
theorem reattach (h : c.close.LaidOut) (nested : c.inner = child :: rest)
    (named : c.focus.dissector.discriminantOf child.kind = some o)
    (told : c.focus.dissector.setNext c.header o = .ok header)
    (length : header.length = c.header.length) :
    ∃ c', c.takePayload.1.setPayload c.takePayload.2 = .ok (.ok c') ∧ c'.close.LaidOut
      ∧ c'.close.plain = ⟨PlainLayer.told (c.outer.map (Layer.plain c.packet.arena))
          (c.focus.plain c.packet.arena) header (child.plain c.packet.arena) o
          (rest.map (Layer.plain c.packet.arena)),
        c.packet.body.map (Region.bytes c.packet.arena),
        c.packet.fcs.map (Region.bytes c.packet.arena)⟩ := by
  have hlaid := takePayload_laidOut h
  have spells := Payload.spells_detach c.packet.arena ⟨c.inner, c.packet.body⟩
  have hlayers : (Payload.detach c.packet.arena ⟨c.inner, c.packet.body⟩).layers
      = child.detach c.packet.arena :: rest.map (Layer.detach c.packet.arena) := by
    show c.inner.map (Layer.detach c.packet.arena) = _
    rw [nested, List.map_cons]
  obtain ⟨c', hset⟩ := @setPayload_succeeds c.takePayload.1 hlaid _ _ _ _ _ hlayers named told length
  have hspelled : (⟨c.inner, c.packet.body⟩ : Payload).layers.map (Layer.plain c.packet.arena)
      = child.plain c.packet.arena :: rest.map (Layer.plain c.packet.arena) := by
    show c.inner.map (Layer.plain c.packet.arena) = _
    rw [nested, List.map_cons]
  rw [hspelled] at spells
  -- what was detached spells the same, so the header is told the same name
  obtain ⟨o', header', hnamed', htold', hplain⟩ := plain_setPayload hlaid spells hset
  obtain rfl : o = o' := Option.some.inj (named.symm.trans hnamed')
  obtain rfl : header = header' := Except.ok.inj (told.symm.trans htold')
  exact ⟨c', hset, setPayload_laidOut hlaid spells.apart hset, hplain⟩

end Cursor

namespace Region

/-- Regions that tile a part of the arena share it. -/
theorem Tiles.shared_of_mem {rs : List Region} {r : Region} :
    ∀ {first last : Nat}, Tiles first rs last → r ∈ rs → ∃ s, r = shared s := by
  induction rs with
  | nil => exact fun _ hr => absurd hr List.not_mem_nil
  | cons r' rest ih =>
    rintro first last ⟨size, rfl, hrest⟩ hr
    rcases List.mem_cons.1 hr with rfl | hr
    · exact ⟨_, rfl⟩
    · exact ih hrest hr

end Region

namespace Packet

variable {p : Packet} {depth : Nat} {c c₁ : Cursor} {header : Bytes}

/-- **A header that is written over in its place:** the arena has the new bytes
where the old ones were. -/
theorem arena_of_storeHeader (tiles : Region.Tiles 0 p.allRegions p.arena.length)
    (opened : p.open? depth = some c) (ok : c.storeHeader header = .ok c₁) :
    c₁.packet.arena = PlainLayer.wire (c.outer.map (Layer.plain p.arena)
        ++ { Layer.plain p.arena c.focus with header := header } :: c.inner.map (Layer.plain p.arena))
      p.plain.body ++ p.plain.fcs.getD [] := by
  have hlaid := Cursor.close_laidOut_of_open (tiles.laidOut (Nat.le_refl _)) opened
  obtain ⟨hregions, _⟩ := Cursor.close_regions_of_open opened
  have stored := Cursor.storeHeader_stored hlaid ok
  obtain ⟨rfl, _, _⟩ := Cursor.close_of_open opened
  obtain ⟨arena, region, hstore, rfl⟩ := Cursor.storeHeader_eq_ok ok
  -- every header of such an arena is a part of it, and stays there
  have hmem : c.focus.header ∈ c.packet.allRegions := by
    rw [← hregions, Cursor.close_allRegions]
    exact List.mem_append_right _ List.mem_cons_self
  obtain ⟨s, hs⟩ := tiles.shared_of_mem hmem
  obtain ⟨hlength, _, hplace⟩ := Region.store_keeps hstore
  obtain rfl : region = c.focus.header := hplace s hs
  have htiles : Region.Tiles 0
      (Cursor.close { c with packet := { c.packet with arena := arena } }).allRegions
      arena.length := by
    rw [show arena.length = c.packet.arena.length from hlength]
    rw [← hregions, Cursor.close_allRegions] at tiles
    rw [Cursor.close_allRegions]
    exact tiles
  have hplain : (Cursor.close { c with packet := { c.packet with arena := arena } }).plain
      = ⟨c.outer.map (Layer.plain c.packet.arena)
          ++ { Layer.plain c.packet.arena c.focus with header := header }
            :: c.inner.map (Layer.plain c.packet.arena),
        c.packet.plain.body, c.packet.plain.fcs⟩ := by
    show (⟨(c.outer ++ c.focus :: c.inner).map (Layer.plain arena),
      c.packet.body.map (Region.bytes arena), c.packet.fcs.map (Region.bytes arena)⟩ : PlainPacket)
        = _
    rw [List.map_append, List.map_cons, stored.outer, stored.focus, stored.inner, stored.body,
      stored.fcs]
    rfl
  have harena := arena_of_tiles htiles
  rw [flatten_contents, hplain] at harena
  exact harena

/-- A header that is written over with itself leaves the arena as it is. -/
theorem arena_of_storeHeader_self (tiles : Region.Tiles 0 p.allRegions p.arena.length)
    (opened : p.open? depth = some c) (ok : c.storeHeader c.header = .ok c₁) :
    c₁.packet.arena = p.arena := by
  have hlayers := plain_of_open opened
  have hwritten := arena_of_storeHeader tiles opened ok
  have harena := arena_of_tiles tiles
  obtain ⟨rfl, _, _⟩ := Cursor.close_of_open opened
  rw [flatten_contents, hlayers] at harena
  exact hwritten.trans harena.symm

/-- What a packet is serialized to when it is brought up to date first. -/
def Renders (p : Packet) (mode : ChecksumMode) (bytes : Bytes) : Prop :=
  ∃ q s, p.recompute mode = .ok q ∧ q.serialize mode = .ok (bytes, s)

/-- A packet that counts as changed serializes like one that differs in nothing
but names, if the layers of both are in place. -/
theorem serialize_unnamed {p' q : Packet} {mode : ChecksumMode} (laid : p.LaidOut)
    (laid' : p'.LaidOut) (known : ∀ l ∈ p.plain.layers, l.dissector ∈ Dissector.all)
    (place : PlainLayer.InPlace p.plain.layers) (place' : PlainLayer.InPlace p'.plain.layers)
    (layers : PlainLayer.unnamed p.plain.layers = PlainLayer.unnamed p'.plain.layers)
    (body : p.plain.body = p'.plain.body) (fcs : p.plain.fcs = p'.plain.fcs)
    (stale : p'.stale = true) (ok : p.recompute mode = .ok q) :
    ∃ s, p'.serialize mode = .ok (q.contents.flatten, s) := by
  have hknown := PlainLayer.known_of_unnamed layers known
  have htotal : ∀ l ∈ p'.layers, l.dissector.Total := fun l hl =>
    (Dissector.lawful_of_mem_all (hknown _ (List.mem_map_of_mem hl))).total
  obtain ⟨q', s, hq', hserialize⟩ := serialize_of_stale laid' stale htotal mode
  have hpieces := PlainPacket.pieces_of_unnamed known place place' layers body fcs
    (recompute_plain laid ok) (recompute_plain laid' hq')
  refine ⟨s, ?_⟩
  rw [hserialize, ← flatten_contents, contents_plain, contents_plain, hpieces]

end Packet

/-! ## §3. Captured packets. -/

namespace Registry

variable {d : Dissector} {origin : Option Discriminant} {room : Nat} {bytes data : Bytes}
  {found : PlainBranch} {hasFcs : Bool} {out : Decoding} {p : Packet}

/-- **A captured packet that is brought up to date** serializes to a buffer in
which the same layers are found. -/
theorem recompute_settles (root : d ∈ Dissector.all)
    (h : standard.decodeFrom d origin data hasFcs = .ok out) (hp : out.packet? = some p)
    (mode : ChecksumMode) :
    ∃ q, p.recompute mode = .ok q ∧ q.serialize mode = .ok (q.contents.flatten, q)
      ∧ q.layers = p.layers
      ∧ standard.decodeFrom d origin q.contents.flatten hasFcs = .ok (out.over q) := by
  obtain ⟨harena, _, htiles⟩ := tiles_of_decodeFrom h hp
  obtain ⟨q, hq, hsame, hlength, _, hagain⟩ := decodeFrom_recomputed
    (fun _ => Dissector.steady_of_mem_all) standard_uses root h hp mode
  obtain ⟨htiles', hserialize⟩ := serialize_recomputed htiles hsame (hlength.trans (by rw [harena]))
  have hcontents := Packet.arena_of_tiles htiles'
  refine ⟨q, hq, ?_, by rw [hsame], ?_⟩
  · rw [← hcontents]
    exact hserialize mode
  · rw [← hcontents]
    exact hagain

section Retold

variable {depth : Nat} {c c₁ : Cursor} {child : Layer} {rest : List Layer} {o : Discriminant}
  {header : Bytes} (root : d ∈ Dissector.all)
  (h : standard.decodeFrom d origin data hasFcs = .ok out) (hp : out.packet? = some p)
  (opened : p.open? depth = some c) (nested : c.inner = child :: rest)

include root h hp opened nested

/-- What an opened layer says of the one inside it. -/
theorem states_of_open :
    c.focus.dissector ∈ Dissector.all
      ∧ ∃ a payload, child.origin = some a
        ∧ c.focus.dissector.next c.header payload = .ok (some a)
        ∧ standard.resolve a = .dissect child.dissector := by
  obtain ⟨frame, tail, rfl, trails⟩ := frame_of_decodeFrom h hp
  obtain ⟨found, hparses, _, hplain, _⟩ := decodeFrom_parses trails h hp
  obtain ⟨rfl, _, _⟩ := Cursor.close_of_open opened
  have hsplit := Packet.plain_of_open opened
  rw [hplain, nested] at hsplit
  exact hparses.states standard_uses root hsplit

variable (named : c.focus.dissector.discriminantOf child.kind = some o)
  (told : c.focus.dissector.setNext c.header o = .ok header) (stored : c.storeHeader header = .ok c₁)

include named told stored

/-- **The buffer with the library's own name in it.**  A layer of a captured packet
is told in the buffer what is inside it.  The buffer is decoded as before, but
for the name of that layer, which is no alias. -/
theorem decodeFrom_retold :
    ∃ a p₁, ¬ a.IsAlias
      ∧ standard.decodeFrom d origin c₁.packet.arena hasFcs = .ok (out.over p₁)
      ∧ p₁.plain = ⟨PlainLayer.told (c.outer.map (Layer.plain p.arena)) (c.focus.plain p.arena) header
          (child.plain p.arena) a (rest.map (Layer.plain p.arena)), p.plain.body, p.plain.fcs⟩
      ∧ (∀ l ∈ p₁.plain.layers, l.dissector ∈ Dissector.all)
      ∧ PlainLayer.InPlace p₁.plain.layers := by
  obtain ⟨_, _, htiles⟩ := tiles_of_decodeFrom h hp
  obtain ⟨frame, tail, rfl, trails⟩ := frame_of_decodeFrom h hp
  obtain ⟨found, hparses, rfl, hplain, _⟩ := decodeFrom_parses trails h hp
  obtain ⟨rfl, _, _⟩ := Cursor.close_of_open opened
  have hsplit := Packet.plain_of_open opened
  rw [hplain, nested] at hsplit
  obtain ⟨a, halias, hretold, _, _⟩ := hparses.retold root hsplit named told
  obtain ⟨p₁, hdecode, hplain₁, _⟩ := decodeFrom_of_parses hretold trails
  refine ⟨a, p₁, halias, ?_, ?_, ?_, ?_⟩
  · -- the buffer is the frame of the layers that were found, and what trailed the old one
    have harena := Packet.arena_of_storeHeader htiles opened stored
    rw [nested, hplain, trailer_getD trails] at harena
    rw [← PlainLayer.wire_unnamed, PlainLayer.unnamed_told, PlainLayer.wire_unnamed] at hdecode
    rw [harena, over_decoding]
    exact hdecode
  · rw [hplain₁, hplain]
  · rw [hplain₁]
    exact hretold.known standard_uses root
  · rw [hplain₁]
    exact hretold.inPlace standard_uses root

/-- **The name that was captured decides** whether both buffers are the same
once they are up to date: they are exactly if it was no alias. -/
theorem contents_of_retold_iff {p₁ q q₁ : Packet} {a : Discriminant} {mode : ChecksumMode}
    (decoded : standard.decodeFrom d origin c₁.packet.arena hasFcs = .ok (out.over p₁))
    (layers : p₁.plain.layers = PlainLayer.told (c.outer.map (Layer.plain p.arena))
      (c.focus.plain p.arena) header (child.plain p.arena) a (rest.map (Layer.plain p.arena)))
    (own : ¬ a.IsAlias) (ok : p.recompute mode = .ok q) (ok₁ : p₁.recompute mode = .ok q₁) :
    q₁.contents.flatten = q.contents.flatten ↔ ∀ b, child.origin = some b → ¬ b.IsAlias := by
  constructor
  · -- the same buffer is decoded to the same names
    intro hsame b hb
    obtain ⟨_, hq, _, hlayers, hagain⟩ := recompute_settles root h hp mode
    obtain ⟨_, hq₁, _, hlayers₁, hagain₁⟩ :=
      recompute_settles root decoded (Decoding.packet?_over hp p₁) mode
    obtain rfl := Except.ok.inj (ok.symm.trans hq)
    obtain rfl := Except.ok.inj (ok₁.symm.trans hq₁)
    rw [hsame, hagain, Decoding.over_over] at hagain₁
    obtain rfl : q = q₁ := Decoding.over_inj hp (Except.ok.inj hagain₁)
    obtain ⟨_, hlist, _⟩ := Cursor.close_of_open opened
    rw [nested] at hlist
    have hchild := PlainLayer.origin_of_told ((hlayers₁.symm.trans hlayers).trans hlist.symm)
      (List.length_map _) layers
    obtain rfl : b = a := Option.some.inj (hb.symm.trans hchild)
    exact own
  · -- nothing was written, and the buffer is the one that was captured
    intro hown
    obtain ⟨hfocus, b, payload, horigin, hnext, hstands⟩ := states_of_open root h hp opened nested
    have hkept := Dissector.setNext_of_next hfocus hnext hstands named (hown b horigin)
    obtain rfl : header = c.header := Except.ok.inj (told.symm.trans hkept)
    obtain ⟨harena, _, htiles⟩ := tiles_of_decodeFrom h hp
    rw [Packet.arena_of_storeHeader_self htiles opened stored, harena, h] at decoded
    have hself := (Decoding.over_self hp).trans (Except.ok.inj decoded)
    obtain rfl : p = p₁ := Decoding.over_inj hp hself
    rw [Except.ok.inj (ok.symm.trans ok₁)]

end Retold

/-- **What is taken out of a layer can be put back.**  Take any packet that was
decoded, completely or up to an error, by whatever protocol of the library it
begins with.  The layers inside one of its layers are taken out, and put into
it again.  The layer takes them.  The header that it has then is written into
the captured buffer as well; that is decoded as before, and the packet found in
it renders as what the changed packet is serialized to.  These are the bytes as
which the captured packet renders exactly if the layer announced what was
inside it by no alias. -/
theorem decodeFrom_reattached {depth : Nat} {c : Cursor} {child : Layer}
    (root : d ∈ Dissector.all) (h : standard.decodeFrom d origin data hasFcs = .ok out)
    (hp : out.packet? = some p) (opened : p.open? depth = some c)
    (nested : c.inner.head? = some child) :
    ∃ o header c' c₁ p₁, c.focus.dissector.discriminantOf child.kind = some o
      ∧ c.focus.dissector.setNext c.header o = .ok header
      ∧ c.takePayload.1.setPayload c.takePayload.2 = .ok (.ok c')
      ∧ c.storeHeader header = .ok c₁
      ∧ standard.decodeFrom d origin c₁.packet.arena hasFcs = .ok (out.over p₁)
      ∧ ∀ mode, ∃ bytes bytes' s, p.Renders mode bytes ∧ p₁.Renders mode bytes'
        ∧ c'.close.serialize mode = .ok (bytes', s)
        ∧ (bytes' = bytes ↔ ∀ a, child.origin = some a → ¬ a.IsAlias) := by
  obtain ⟨rest, hinner⟩ := List.head?_eq_some_iff.1 nested
  obtain ⟨_, _, htiles⟩ := tiles_of_decodeFrom h hp
  have hopen := Cursor.close_laidOut_of_open (htiles.laidOut (Nat.le_refl _)) opened
  -- the layer can name what is inside, since it did
  obtain ⟨hfocus, a, payload, _, hnext, hstands⟩ := states_of_open root h hp opened hinner
  obtain ⟨o, hnamed⟩ : ∃ o, c.focus.dissector.discriminantOf child.kind = some o := by
    cases hnone : c.focus.dissector.discriminantOf child.kind with
    | none => exact absurd ⟨a, hnext, hstands⟩ (Dissector.not_leadsTo hfocus hnone)
    | some o => exact ⟨o, rfl⟩
  have hlaw := Dissector.lawful_of_mem_all hfocus
  obtain ⟨header, htold, hlength⟩ := hlaw.total.setNext c.header o
  obtain ⟨c', hset, hlaid', hplain'⟩ := Cursor.reattach hopen hinner hnamed htold hlength
  obtain ⟨c₁, hstore⟩ := Cursor.storeHeader_succeeds hopen hlength
  obtain ⟨b, p₁, hown, hdecode, hplain₁, hknown₁, hplace₁⟩ :=
    decodeFrom_retold root h hp opened hinner hnamed htold hstore
  refine ⟨o, header, c', c₁, p₁, hnamed, htold, hset, hstore, hdecode, fun mode => ?_⟩
  -- both captured packets are brought up to date in their buffers
  have hp₁ := Decoding.packet?_over hp p₁
  obtain ⟨q, hq, hserialize, _, _⟩ := recompute_settles root h hp mode
  obtain ⟨q₁, hq₁, hserialize₁, _, _⟩ := recompute_settles root hdecode hp₁ mode
  -- and the changed one differs from the second in a name only
  obtain ⟨_, _, htiles₁⟩ := tiles_of_decodeFrom hdecode hp₁
  rw [(Cursor.close_of_open opened).1] at hplain'
  have hplace' : PlainLayer.InPlace c'.close.plain.layers := by
    rw [hplain']
    rw [hplain₁] at hplace₁
    exact hplace₁.rename (.inr (hlaw.setNext_again htold))
  obtain ⟨s, hs⟩ := Packet.serialize_unnamed (htiles₁.laidOut (Nat.le_refl _)) hlaid' hknown₁ hplace₁
    hplace' (by rw [hplain₁, hplain', PlainLayer.unnamed_told, PlainLayer.unnamed_told])
    (by rw [hplain₁, hplain']; rfl) (by rw [hplain₁, hplain']; rfl) rfl hq₁
  exact ⟨_, _, s, ⟨q, q, hq, hserialize⟩, ⟨q₁, q₁, hq₁, hserialize₁⟩, hs,
    contents_of_retold_iff root h hp opened hinner hnamed htold hstore hdecode
      (congrArg PlainPacket.layers hplain₁) hown hq hq₁⟩

/-- An IPv4 header with a wrong checksum in an Ethernet frame. -/
def miscountedFrame : Bytes :=
  List.replicate 12 0
    ++ [0x08, 0, 0x45, 0, 0, 20, 0, 0, 0x40, 0, 64, 255, 1, 2, 0, 0, 0, 0, 0, 0, 0, 0]

/-- IPv4 has one name in Ethernet, so it comes back as it was. -/
theorem decodeFrom_reattached_ipv4 :
    ∃ p c child c' bytes s, standard.decode .ethernet miscountedFrame false = .ok (.complete p)
      ∧ p.open? 0 = some c ∧ c.inner.head? = some child
      ∧ c.takePayload.1.setPayload c.takePayload.2 = .ok (.ok c')
      ∧ p.Renders .fill bytes ∧ c'.close.serialize .fill = .ok (bytes, s) := by
  obtain ⟨p, c, child, hp, hopen, hchild, hname⟩ :
      ∃ p c child, standard.decode .ethernet miscountedFrame false = .ok (.complete p)
        ∧ p.open? 0 = some c ∧ c.inner.head? = some child
        ∧ child.origin = some (.etherType .ipv4) := ⟨_, _, _, rfl, rfl, rfl, rfl⟩
  have hfrom : standard.decodeFrom Ethernet.dissector (some (.link .ethernet)) miscountedFrame false
      = .ok (.complete p) := hp
  obtain ⟨_, _, c', _, _, _, _, hset, _, _, hrenders⟩ :=
    decodeFrom_reattached (by simp [Dissector.all]) hfrom rfl hopen hchild
  obtain ⟨bytes, bytes', s, hbytes, _, hserialize, hsame⟩ := hrenders .fill
  obtain rfl : bytes' = bytes := hsame.2 fun a ha => by
    obtain rfl := Option.some.inj (hname.symm.trans ha)
    decide
  exact ⟨p, c, child, c', bytes', s, hp, hopen, hchild, hset, hbytes, hserialize⟩

/-- A tag of a service provider around bytes of no protocol. -/
def providerFrame : Bytes := List.replicate 12 0 ++ [0x88, 0xa8, 0, 7, 0xff, 0xff, 1, 2]

/-- The tag comes back as that of a customer. -/
theorem decodeFrom_reattached_provider :
    ∃ p c c' bytes bytes' s, standard.decode .ethernet providerFrame false = .ok (.complete p)
      ∧ p.open? 0 = some c ∧ c.takePayload.1.setPayload c.takePayload.2 = .ok (.ok c')
      ∧ p.Renders .fill bytes ∧ c'.close.serialize .fill = .ok (bytes', s)
      ∧ bytes = providerFrame
      ∧ bytes' = List.replicate 12 0 ++ [0x81, 0, 0, 7, 0xff, 0xff, 1, 2] ∧ bytes' ≠ bytes :=
  ⟨_, _, _, _, _, _, rfl, rfl, rfl, ⟨_, _, rfl, rfl⟩, rfl, rfl, rfl, by decide⟩

end Registry

end PacketLayers
