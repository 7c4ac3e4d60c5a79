/-
  PacketLayers.Proofs.Reachable
  ────────────────────────────────
  **EVERY PACKET THAT THE LIBRARY CAN HAND OUT.**

  A packet is decoded, built around a header or made of a payload, and then
  changed: layer by layer, by new payloads, by bringing it up to date and by
  serializing it.  `Reachable` is every packet that comes about in this way,
  in whatever order, from dissectors with some property.  Of all of them it is
  shown that

    • the regions that share the arena lie inside it, in order and without
      overlap, so that a write through one layer changes no byte elsewhere;
    • serializing gives the bytes of the regions as they are after bringing
      the packet up to date, whether or not the arena is built anew;
    • what a layer is announced as is something that the layer around it can
      state.
-/
import Mathlib.Data.List.Chain
import PacketLayers.Proofs.Decode
import PacketLayers.Proofs.Edit
import PacketLayers.Proofs.Recompute
import PacketLayers.Link.Llc

namespace PacketLayers

/-! ## §1. Reachable packets. -/

/-- Every dissector of a registry has some property. -/
def Registry.Uses (known : Dissector → Prop) (r : Registry) : Prop :=
  ∀ entry ∈ r.instructions, ∀ d, entry.2 = .dissect d → known d

/-- The payloads that can be put into a packet, or made a packet, given another
one: plain bytes, all of its layers, what was taken out of one of them. -/
inductive Packet.Provides (p : Packet) : Payload → Prop where
  | bytes (b : Bytes) : Provides p (.ofBytes b)
  | whole : Provides p p.toPayload
  | taken {depth : Nat} {c : Cursor} (opened : p.open? depth = some c) :
      Provides p c.takePayload.2

/-- The packets that can come about, from dissectors with some property. -/
inductive Reachable (known : Dissector → Prop) : Packet → Prop where
  | decoded {r : Registry} {d : Dissector} {origin : Option Discriminant} {data : Bytes}
      {hasFcs : Bool} {out : Decoding} {p : Packet} (uses : r.Uses known) (root : known d)
      (h : r.decodeFrom d origin data hasFcs = .ok out) (hp : out.packet? = some p) :
      Reachable known p
  | ofHeader {d : Dissector} (root : known d) (header : Bytes) :
      Reachable known (.ofHeader d header)
  | ofPayload {p q : Packet} {payload : Payload} (h : Reachable known p)
      (given : p.Provides payload) (made : payload.toPacket? = some q) : Reachable known q
  | edited {p : Packet} {depth : Nat} {c c' : Cursor} (h : Reachable known p)
      (opened : p.open? depth = some c) (edit : c.Edit c') : Reachable known c'.close
  | attached {p source : Packet} {depth : Nat} {c c' : Cursor} {payload : Payload}
      (h : Reachable known p) (hsource : Reachable known source)
      (given : source.Provides payload) (opened : p.open? depth = some c)
      (ok : c.setPayload payload = .ok (.ok c')) : Reachable known c'.close
  | recomputed {p q : Packet} {mode : ChecksumMode} (h : Reachable known p)
      (ok : p.recompute mode = .ok q) : Reachable known q
  | fcsUpdated {p q : Packet} (h : Reachable known p) (ok : p.updateFcs = .ok q) :
      Reachable known q
  | fcsSet {p : Packet} (h : Reachable known p) (present : Bool) : Reachable known (p.setFcs present)
  | serialized {p q : Packet} {mode : ChecksumMode} {bytes : Bytes} (h : Reachable known p)
      (ok : p.serialize mode = .ok (bytes, q)) : Reachable known q

/-! ## §2. Which layer stands in which. -/

/-- The protocol of a layer, and what it is announced as. -/
abbrev Shape := Dissector × Option Discriminant

/-- The shape of a layer. -/
def Layer.shape (l : Layer) : Shape := (l.dissector, l.origin)

/-- The shape of a plain layer. -/
def PlainLayer.shape (l : PlainLayer) : Shape := (l.dissector, l.origin)

/-- Some header of the protocol states the discriminant, or the protocol
announces payloads with it. -/
def Dissector.Announces (d : Dissector) (o : Discriminant) : Prop :=
  (∃ header payload, d.next header payload = .ok (some o)) ∨ ∃ kind, d.discriminantOf kind = some o

/-- What the inner layer is announced as is something that the outer one can
state. -/
def Shape.Leads (outer inner : Shape) : Prop := ∀ o, inner.2 = some o → outer.1.Announces o

/-- The layers come from known dissectors and each leads to the next. -/
structure Linked (known : Dissector → Prop) (shapes : List Shape) : Prop where
  known : ∀ s ∈ shapes, known s.1
  leads : shapes.IsChain Shape.Leads

/-- The shapes of the layers of a packet. -/
def Packet.shapes (p : Packet) : List Shape := p.layers.map Layer.shape

theorem Packet.shapes_plain (p : Packet) : p.shapes = p.plain.layers.map PlainLayer.shape := by
  simp [shapes, plain, List.map_map, Function.comp_def, Layer.shape, Layer.plain,
    PlainLayer.shape]

namespace Linked

variable {known : Dissector → Prop}

theorem nil : Linked known [] := ⟨fun _ h => absurd h List.not_mem_nil, .nil⟩

theorem left {a b : List Shape} (h : Linked known (a ++ b)) : Linked known a :=
  ⟨fun s hs => h.known s (List.mem_append_left _ hs), h.leads.left_of_append⟩

theorem right {a b : List Shape} (h : Linked known (a ++ b)) : Linked known b :=
  ⟨fun s hs => h.known s (List.mem_append_right _ hs), h.leads.right_of_append⟩

/-- A layer that leads to the first of others stands around them. -/
theorem cons {s : Shape} {rest : List Shape} (root : known s.1)
    (leads : ∀ t ∈ rest.head?, s.Leads t) (h : Linked known rest) : Linked known (s :: rest) := by
  refine ⟨fun t ht => ?_, List.isChain_cons.2 ⟨leads, h.leads⟩⟩
  rcases List.mem_cons.1 ht with rfl | ht
  · exact root
  · exact h.known t ht

theorem of_cons {s : Shape} {rest : List Shape} (h : Linked known (s :: rest)) :
    known s.1 ∧ (∀ t ∈ rest.head?, s.Leads t) ∧ Linked known rest := by
  have hchain := List.isChain_cons.1 h.leads
  exact ⟨h.known s List.mem_cons_self, hchain.1,
    ⟨fun t ht => h.known t (List.mem_cons_of_mem s ht), hchain.2⟩⟩

/-- What the layer inside is announced as is something that the one around it can
state. -/
theorem announces {l child : PlainLayer} {inner : List PlainLayer} {o : Discriminant}
    (h : Linked known ((l :: inner).map PlainLayer.shape)) (head : inner.head? = some child)
    (origin : child.origin = some o) : l.dissector.Announces o := by
  refine h.of_cons.2.1 child.shape ?_ o origin
  rw [List.head?_map, head]
  rfl

/-- The layers inside can be left out. -/
theorem outer {front : List Shape} {s : Shape} {rest : List Shape}
    (h : Linked known (front ++ s :: rest)) : Linked known (front ++ [s]) := by
  have hsplit : front ++ s :: rest = (front ++ [s]) ++ rest := by simp
  rw [hsplit] at h
  exact h.left

/-- What a layer leads to can be replaced. -/
theorem graft {front : List Shape} {s child : Shape} {rest inner : List Shape}
    (h : Linked known (front ++ s :: rest)) (new : Linked known (child :: inner))
    (leads : s.Leads child) : Linked known (front ++ s :: child :: inner) := by
  -- known on either side, and one new link where both meet
  refine ⟨fun t ht => ?_, ?_⟩
  · rcases List.mem_append.1 ht with ht | ht
    · exact h.known t (List.mem_append_left _ ht)
    · rcases List.mem_cons.1 ht with rfl | ht
      · exact h.known _ (List.mem_append_right _ List.mem_cons_self)
      · exact new.known t ht
  · have hfront := h.outer.leads
    have hjoin : front ++ s :: child :: inner = (front ++ [s]) ++ child :: inner := by simp
    rw [hjoin, List.isChain_append]
    refine ⟨hfront, new.leads, fun x hx y hy => ?_⟩
    rw [List.getLast?_append, List.getLast?_singleton] at hx
    simp only [Option.some_or, Option.mem_def, Option.some.injEq, List.head?_cons] at hx hy
    subst hx hy
    exact leads

/-- The outermost layer may be announced as anything. -/
theorem reroot {d : Dissector} {o o' : Option Discriminant} {rest : List Shape}
    (h : Linked known ((d, o) :: rest)) : Linked known ((d, o') :: rest) := by
  obtain ⟨hknown, hleads, hrest⟩ := h.of_cons
  exact hrest.cons hknown fun t ht => hleads t ht

end Linked

/-! ## §3. What holds of every reachable packet. -/

/-- What every operation keeps: regions that share the arena are laid out over
it, and each layer leads to the next. -/
structure Packet.Coherent (known : Dissector → Prop) (p : Packet) : Prop where
  laidOut : p.LaidOut
  linked : Linked known p.shapes

namespace Registry

theorem dissect_mem {r : Registry} {o : Discriminant} {d : Dissector}
    (h : r.resolve o = .dissect d) : (o, Instruction.dissect d) ∈ r.instructions := by
  -- only an entry of the registry is an instruction to dissect
  unfold resolve at h
  split at h
  · next l hl =>
    injection h with h
    subst h
    obtain ⟨before, after, hsplit, _⟩ := List.lookup_eq_some_iff.1 hl
    rw [hsplit]
    exact List.mem_append_right _ List.mem_cons_self
  · cases h
  · split at h <;> cases h

/-- The layers of a record lead from one to the next. -/
theorem Decoded.linked {known : Dissector → Prop} {r : Registry} (uses : r.Uses known)
    {arena : Bytes} {d : Dissector} {origin : Option Discriminant} {span : Span} {branch : Branch}
    (h : Decoded r arena d origin span branch) :
    known d → Linked known (branch.layers.map Layer.shape)
      ∧ (branch.layers.map Layer.shape).head? = some (d, origin) := by
  -- on the record: what a layer states is what the one inside was found under
  induction h with
  | bare cut none =>
    intro root
    exact ⟨Linked.nil.cons root (by simp), rfl⟩
  | raw cut failure =>
    intro root
    exact ⟨Linked.nil.cons root (by simp), rfl⟩
  | nested cut states stands inside ih =>
    intro root
    have hnext := uses _ (dissect_mem stands) _ rfl
    obtain ⟨hlinked, hhead⟩ := ih hnext
    refine ⟨hlinked.cons root fun t ht => ?_, rfl⟩
    rw [hhead] at ht
    injection ht with ht
    subst ht
    intro o ho
    injection ho with ho
    subst ho
    exact .inl ⟨_, _, states⟩

end Registry

namespace Packet

variable {known : Dissector → Prop} {p q : Packet}

theorem Coherent.of_decoded {r : Registry} {d : Dissector} {origin : Option Discriminant}
    {data : Bytes} {hasFcs : Bool} {out : Decoding} (uses : r.Uses known) (root : known d)
    (h : r.decodeFrom d origin data hasFcs = .ok out) (hp : out.packet? = some p) :
    p.Coherent known := by
  refine ⟨(Registry.tiles_of_decodeFrom h hp).2.2.laidOut (Nat.le_refl _), ?_⟩
  obtain ⟨_, _, branch, _, hrecord, rfl⟩ := Registry.decodeFrom_decoded h hp
  exact (hrecord.linked uses root).1

theorem Coherent.of_header {d : Dissector} (root : known d) (header : Bytes) :
    (ofHeader d header).Coherent known := by
  refine ⟨⟨fun s hs => ?_, ?_⟩, Linked.nil.cons root (by simp)⟩
  · have hs : s = ⟨0, header.length⟩ := by simpa [ofHeader, allRegions, wireRegions,
      Layer.wireRegions, Region.spans, Region.span?, Region.empty] using hs
    subst hs
    simp [Span.stop, ofHeader]
  · exact List.pairwise_singleton _ _

/-- A packet provides payloads that share nothing and whose layers lead from
one to the next. -/
theorem Coherent.provides (h : p.Coherent known) {payload : Payload}
    (given : p.Provides payload) :
    payload.Detached ∧ Linked known (payload.layers.map Layer.shape) := by
  have hdetach : ∀ layers : List Layer,
      (layers.map (Layer.detach p.arena)).map Layer.shape = layers.map Layer.shape := by
    intro layers
    rw [List.map_map]
    rfl
  -- whatever is handed out has bytes of its own
  cases given with
  | bytes b => exact ⟨Payload.detached_ofBytes b, Linked.nil⟩
  | whole =>
    refine ⟨Payload.detached_detach _ _, ?_⟩
    rw [toPayload, Payload.detach, hdetach]
    exact h.linked
  | taken opened =>
    obtain ⟨rfl, hlayers, _⟩ := Cursor.close_of_open opened
    refine ⟨Payload.detached_detach _ _, ?_⟩
    rw [Cursor.takePayload, Payload.detach, hdetach]
    have hlinked := h.linked
    rw [shapes, ← hlayers, List.map_append, List.map_cons] at hlinked
    have hinner := hlinked.right
    rw [← List.singleton_append] at hinner
    exact hinner.right

theorem Coherent.of_payload (h : p.Coherent known) {payload : Payload}
    (given : p.Provides payload) (made : payload.toPacket? = some q) : q.Coherent known := by
  obtain ⟨hdetached, hlinked⟩ := h.provides given
  refine ⟨Payload.laidOut_toPacket hdetached made, ?_⟩
  unfold Payload.toPacket? at made
  split at made
  · cases made
  · next root inner hlayers =>
    injection made with made
    subst made
    rw [hlayers] at hlinked
    exact hlinked.reroot

theorem shapes_close (c : Cursor) :
    c.close.shapes = c.outer.map Layer.shape ++ c.focus.shape :: c.inner.map Layer.shape := by
  simp [shapes, Cursor.close]

theorem Coherent.of_open (h : p.Coherent known) {depth : Nat} {c : Cursor}
    (opened : p.open? depth = some c) : c.close.Coherent known := by
  refine ⟨Cursor.close_laidOut_of_open h.laidOut opened, ?_⟩
  obtain ⟨_, hlayers, _⟩ := Cursor.close_of_open opened
  have hlinked := h.linked
  rw [shapes, ← hlayers] at hlinked
  exact hlinked

theorem Coherent.of_edit {c c' : Cursor} (h : c.close.Coherent known) (edit : c.Edit c') :
    c'.close.Coherent known := by
  refine ⟨edit.laidOut h.laidOut, ?_⟩
  obtain ⟨houter, hdissector, horigin, hinner⟩ := edit.structure
  have hlinked := h.linked
  rw [shapes_close] at hlinked ⊢
  have hfocus : c'.focus.shape = c.focus.shape := by
    rw [Layer.shape, Layer.shape, hdissector, horigin]
  rw [houter, hfocus]
  -- the layers inside are still there, or gone
  rcases hinner with hinner | hinner
  · rw [hinner]
    exact hlinked
  · rw [hinner]
    exact hlinked.outer

theorem Coherent.of_setPayload {c c' : Cursor} (h : c.close.Coherent known) {payload : Payload}
    (apart : payload.Detached) (inside : Linked known (payload.layers.map Layer.shape))
    (ok : c.setPayload payload = .ok (.ok c')) : c'.close.Coherent known := by
  refine ⟨Cursor.setPayload_laidOut h.laidOut apart ok, ?_⟩
  have hlinked := h.linked
  rw [shapes_close] at hlinked ⊢
  obtain ⟨_, rfl⟩ | ⟨child, rest, announced, new, c'', hlayers, hannounced, _, hstore, rfl⟩ :=
    Cursor.setPayload_eq_ok ok
  · exact hlinked.outer
  · obtain ⟨arena, header, _, rfl⟩ := Cursor.storeHeader_eq_ok hstore
    rw [hlayers, List.map_cons] at inside
    -- the layer inside is announced by what it was put in under
    refine hlinked.graft inside.reroot fun o ho => ?_
    injection ho with ho
    subst ho
    exact .inr ⟨child.kind, hannounced⟩

end Packet

/-- Bringing layers up to date changes none of their protocols. -/
theorem PlainLayer.recomputeAll_shapes {mode : ChecksumMode} {body : Option Bytes}
    {layers : List PlainLayer} :
    ∀ {pseudo : Option PseudoHeader} {out : List PlainLayer},
      recomputeAll mode body pseudo layers = .ok out → out.map shape = layers.map shape := by
  -- on the layers, for every pseudo header that may be lent to them
  induction layers with
  | nil =>
    intro pseudo out h
    injection h with h
    rw [← h]
  | cons l inner ih =>
    intro pseudo out h
    rw [recomputeAll] at h
    obtain ⟨h₁, _, h⟩ := bind_eq_ok.1 h
    obtain ⟨h₂, _, h⟩ := bind_eq_ok.1 h
    obtain ⟨lent, _, h⟩ := bind_eq_ok.1 h
    obtain ⟨inner', hinner, h⟩ := bind_eq_ok.1 h
    obtain ⟨h₃, _, h⟩ := bind_eq_ok.1 h
    injection h with h
    subst h
    rw [List.map_cons, List.map_cons, ih hinner]
    rfl

theorem PlainPacket.recompute_shapes {p q : PlainPacket} {mode : ChecksumMode}
    (ok : p.recompute mode = .ok q) :
    q.layers.map PlainLayer.shape = p.layers.map PlainLayer.shape := by
  obtain ⟨layers, hlayers, h⟩ := bind_eq_ok.1 ok
  have hshapes := PlainLayer.recomputeAll_shapes hlayers
  cases mode <;> injection h with h <;> subst h <;> exact hshapes

namespace Packet

variable {known : Dissector → Prop} {p q : Packet}

/-- Bringing a packet up to date changes no protocol. -/
theorem shapes_of_recompute (laid : p.LaidOut) {mode : ChecksumMode}
    (ok : p.recompute mode = .ok q) : q.shapes = p.shapes ∧ q.LaidOut := by
  have hagrees := recompute_agrees laid mode
  rw [ok] at hagrees
  obtain ⟨new, hnew, hfresh⟩ := hagrees.of_ok_left
  refine ⟨?_, hfresh.laidOut⟩
  rw [shapes_plain, hfresh.plain, PlainPacket.recompute_shapes hnew, ← shapes_plain]

theorem Coherent.of_recompute (h : p.Coherent known) {mode : ChecksumMode}
    (ok : p.recompute mode = .ok q) : q.Coherent known := by
  obtain ⟨hshapes, hlaid⟩ := shapes_of_recompute h.laidOut ok
  exact ⟨hlaid, hshapes ▸ h.linked⟩

/-- Settling changes no protocol. -/
theorem shapes_settle (laid : p.LaidOut) : p.settle.shapes = p.shapes := by
  rw [shapes_plain, (settle_spec laid).plain, ← shapes_plain]

theorem Coherent.of_updateFcs (h : p.Coherent known) (ok : p.updateFcs = .ok q) :
    q.Coherent known := by
  obtain ⟨q', hq', hlaid, hplain, _⟩ := updateFcs_spec h.laidOut
  rw [hq'] at ok
  injection ok with ok
  subst ok
  refine ⟨hlaid, ?_⟩
  rw [shapes_plain, hplain]
  have hlinked := h.linked
  rw [shapes_plain] at hlinked
  exact hlinked

theorem Coherent.of_setFcs (h : p.Coherent known) (present : Bool) :
    (p.setFcs present).Coherent known := by
  -- present already, new with bytes of its own, or taken away
  unfold setFcs
  split
  · next hfcs =>
    refine ⟨h.laidOut.of_sublist (Nat.le_refl _) ?_, h.linked⟩
    rw [allRegions, allRegions, Region.spans_append, Region.spans_append, hfcs]
    exact List.Sublist.refl _
  · refine ⟨h.laidOut.of_sublist (Nat.le_refl _) ?_, h.linked⟩
    rw [allRegions, allRegions, Region.spans_append, Region.spans_append]
    exact List.Sublist.append_left (List.nil_sublist _) _
  · exact h

theorem Coherent.of_refreshed (h : p.Coherent known) {mode : ChecksumMode}
    (fresh : p.refreshed mode = .ok q) : q.Coherent known := by
  unfold refreshed at fresh
  split at fresh
  · exact h.of_recompute fresh
  · injection fresh with fresh
    rw [← fresh]
    exact h

theorem Coherent.of_settle (h : p.Coherent known) : p.settle.Coherent known :=
  ⟨(settle_spec h.laidOut).laidOut, shapes_settle h.laidOut ▸ h.linked⟩

theorem Coherent.of_serialize (h : p.Coherent known) {mode : ChecksumMode} {bytes : Bytes}
    (ok : p.serialize mode = .ok (bytes, q)) : q.Coherent known := by
  cases hfresh : p.refreshed mode with
  | ok r =>
    rw [serialize_of_refreshed hfresh] at ok
    injection ok with ok
    injection ok with _ ok
    subst ok
    exact (h.of_refreshed hfresh).of_settle
  | error e =>
    rw [serialize_of_fault hfresh] at ok
    cases ok

end Packet

/-- **Every reachable packet is coherent.** -/
theorem Reachable.coherent {known : Dissector → Prop} {p : Packet} (h : Reachable known p) :
    p.Coherent known := by
  -- on how the packet came about, one lemma for each way
  induction h with
  | decoded uses root h hp => exact .of_decoded uses root h hp
  | ofHeader root header => exact .of_header root header
  | ofPayload _ given made ih => exact ih.of_payload given made
  | edited _ opened edit ih => exact (ih.of_open opened).of_edit edit
  | attached _ _ given opened ok ih ihsource =>
    obtain ⟨apart, inside⟩ := ihsource.provides given
    exact (ih.of_open opened).of_setPayload apart inside ok
  | recomputed _ ok ih => exact ih.of_recompute ok
  | fcsUpdated _ ok ih => exact ih.of_updateFcs ok
  | fcsSet _ present ih => exact ih.of_setFcs present
  | serialized _ ok ih => exact ih.of_serialize ok

/-- A packet that was opened has a layer, whatever was done to it. -/
theorem Cursor.close_filled (c : Cursor) : c.close.layers ≠ [] :=
  List.append_ne_nil_of_right_ne_nil _ (List.cons_ne_nil _ _)

/-- **Every reachable packet has a layer.** -/
theorem Reachable.filled {known : Dissector → Prop} {p : Packet} (h : Reachable known p) :
    p.layers ≠ [] := by
  -- most operations keep the protocols of the layers, and so their number
  have kept : ∀ {p q : Packet}, q.shapes = p.shapes → p.layers ≠ [] → q.layers ≠ [] := by
    intro p q same filled none
    rw [Packet.shapes, none, List.map_nil] at same
    exact filled (List.map_eq_nil_iff.1 same.symm)
  induction h with
  | decoded uses root h hp => exact Registry.layers_of_decodeFrom h hp
  | ofHeader root header => exact List.cons_ne_nil _ _
  | ofPayload _ given made ih =>
    unfold Payload.toPacket? at made
    split at made
    · cases made
    · injection made with made
      subst made
      exact List.cons_ne_nil _ _
  | edited _ opened edit ih => exact Cursor.close_filled _
  | attached _ _ given opened ok ih ihsource => exact Cursor.close_filled _
  | recomputed h ok ih => exact kept (Packet.shapes_of_recompute h.coherent.laidOut ok).1 ih
  | fcsUpdated h ok ih =>
    obtain ⟨q', hq', _, hplain, _⟩ := Packet.updateFcs_spec h.coherent.laidOut
    obtain rfl := Except.ok.inj (hq'.symm.trans ok)
    refine kept ?_ ih
    rw [Packet.shapes_plain, hplain, Packet.shapes_plain]
    rfl
  | fcsSet h present ih =>
    unfold Packet.setFcs
    split <;> exact ih
  | @serialized p q mode bytes h ok ih =>
    cases hfresh : p.refreshed mode with
    | error e =>
      rw [Packet.serialize_of_fault hfresh] at ok
      cases ok
    | ok r =>
      rw [Packet.serialize_of_refreshed hfresh] at ok
      obtain ⟨_, rfl⟩ := Prod.mk.inj (Except.ok.inj ok)
      have hcoherent := h.coherent
      have hsettled := Packet.shapes_settle (hcoherent.of_refreshed hfresh).laidOut
      refine kept (hsettled.trans ?_) ih
      unfold Packet.refreshed at hfresh
      split at hfresh
      · exact (Packet.shapes_of_recompute hcoherent.laidOut hfresh).1
      · exact congrArg Packet.shapes (Except.ok.inj hfresh).symm

/-! ## §4. Writes and serialization. -/

/-- **Writes stay where they are made, and a packet serializes to what its
regions say.**  Of every reachable packet: the regions that share the arena
are laid out over it; a write into the header of a layer, or into the body,
changes that region and no other; serializing gives the bytes of all regions
as they are when the packet is up to date, as many as the packet is long, and
leaves them as they are, so that a second time gives the same.  Bringing the
packet up to date fails only if a dissector breaks its promises. -/
theorem Reachable.regions_sound {known : Dissector → Prop} {p : Packet} (h : Reachable known p) :
    p.LaidOut
      ∧ (∀ (depth : Nat) (c : Cursor) (new : Bytes), p.open? depth = some c →
          new.length = c.header.length →
          ∃ c', c.storeHeader new = .ok c' ∧ c'.close.contents = p.contents.set depth new)
      ∧ (∀ (depth : Nat) (c : Cursor) (body : Region) (new : Bytes), p.open? depth = some c →
          c.inner = [] → p.body = some body → new.length = (body.bytes p.arena).length →
          ∃ c', c.storeRawPayload new = .ok c'
            ∧ c'.close.contents = p.contents.set p.layers.length new)
      ∧ (∀ (mode : ChecksumMode) (q : Packet), p.refreshed mode = .ok q →
          ∃ s, p.serialize mode = .ok (q.contents.flatten, s)
            ∧ q.contents.flatten.length = q.totalLength ∧ s.totalLength = q.totalLength
            ∧ s.contents = q.contents
            ∧ ∀ mode', s.serialize mode' = .ok (q.contents.flatten, s))
      ∧ ((∀ d, known d → d.Total) → ∀ mode, ∃ q, p.refreshed mode = .ok q) := by
  have hcoherent := h.coherent
  have hlaid := hcoherent.laidOut
  -- header writes, body writes, serialization, and that it succeeds
  refine ⟨hlaid, ?_, ?_, ?_, ?_⟩
  · intro depth c new opened fits
    have hclose := Cursor.close_laidOut_of_open hlaid opened
    obtain ⟨c', hc'⟩ := Cursor.storeHeader_succeeds hclose fits
    refine ⟨c', hc', ?_⟩
    rw [Cursor.storeHeader_contents hclose hc', Cursor.close_contents_of_open opened,
      (Cursor.close_of_open opened).2.2]
  · intro depth c body new opened hinner hbody fits
    have hclose := Cursor.close_laidOut_of_open hlaid opened
    obtain ⟨rfl, hlayers, _⟩ := Cursor.close_of_open opened
    obtain ⟨c', hc'⟩ := Cursor.storeRawPayload_succeeds hclose hinner hbody fits
    refine ⟨c', hc', ?_⟩
    have hlength : c.packet.layers.length = c.outer.length + 1 := by
      rw [← hlayers, hinner, List.length_append, List.length_singleton]
    rw [Cursor.storeRawPayload_contents hclose hinner hbody hc',
      Cursor.close_contents_of_open opened, hlength]
  · intro mode q fresh
    have hq := (hcoherent.of_refreshed fresh).laidOut
    have hsettled := Packet.settle_spec hq
    have hcontents : q.settle.contents = q.contents := by
      rw [Packet.contents_plain, hsettled.plain, ← Packet.contents_plain]
    refine ⟨q.settle, ?_, hq.length_flatten, ?_, hcontents, fun mode' => ?_⟩
    · rw [Packet.serialize_of_refreshed fresh, hsettled.arena]
    · rw [← hsettled.laidOut.length_flatten, hcontents, hq.length_flatten]
    · have hstale := hsettled.stale.trans (Packet.refreshed_not_stale fresh)
      rw [Packet.serialize_of_isFlush hstale hsettled.flush, hsettled.arena]
  · intro total mode
    unfold Packet.refreshed
    split
    · refine Packet.recompute_succeeds hlaid (fun l hl => ?_) mode
      exact total _ (hcoherent.linked.known l.shape (List.mem_map_of_mem hl))
    · exact ⟨p, rfl⟩

/-- A layer with a frame check sequence in a buffer of its own serializes to
both, one behind the other. -/
theorem Reachable.regions_sound_with_fcs :
    Reachable (· = Llc.dissector)
        ((Packet.ofHeader Llc.dissector [0xaa, 0xaa, 3, 0, 0, 0, 8, 0]).setFcs true)
      ∧ ∃ s, ((Packet.ofHeader Llc.dissector [0xaa, 0xaa, 3, 0, 0, 0, 8, 0]).setFcs true).serialize
          .keep = .ok ([0xaa, 0xaa, 3, 0, 0, 0, 8, 0, 0, 0, 0, 0], s) := by
  have hreach : Reachable (· = Llc.dissector)
      ((Packet.ofHeader Llc.dissector [0xaa, 0xaa, 3, 0, 0, 0, 8, 0]).setFcs true) :=
    .fcsSet (@Reachable.ofHeader (· = Llc.dissector) _ rfl _) true
  obtain ⟨s, hs, _⟩ := (Reachable.regions_sound hreach).2.2.2.1 .keep _ rfl
  exact ⟨hreach, s, hs⟩

end PacketLayers
