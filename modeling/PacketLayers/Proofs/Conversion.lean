/-
  PacketLayers.Proofs.Conversion
  ────────────────────────────────
  **A PACKET MADE OF A PAYLOAD COUNTS AS IT IS.**

  A packet can be turned into a payload, and a payload that has layers into a
  packet.  On the way every byte is kept; the mark that says whether derived
  fields may be out of date is not, since a payload has none.  The packet at
  the end counts as up to date:

    • `plain_toPacket` — what the way there and back does to the bytes;
    • `recomputeAll_reroot` — how the outermost layer was announced makes no
      difference to the pass;
    • `Reachable.toPacket_serializes` — what is lost with the mark.
-/
import PacketLayers.Proofs.Assembly
import PacketLayers.Proofs.Idempotence
import PacketLayers.Proofs.Replacement

namespace PacketLayers

/-! ## §1. There and back. -/

/-- The layers with the outermost one announced in some way. -/
def PlainLayer.reroot (o : Option Discriminant) : List PlainLayer → List PlainLayer
  | [] => []
  | l :: inner => { l with origin := o } :: inner

namespace PlainLayer

@[simp] theorem pieces_reroot (o : Option Discriminant) (layers : List PlainLayer)
    (body : Option Bytes) : pieces (reroot o layers) body = pieces layers body := by
  cases layers with
  | nil => rfl
  | cons l inner => rfl

/-- Nothing in the pass asks how the outermost layer is announced. -/
theorem recomputeAll_reroot {mode : ChecksumMode} {body : Option Bytes}
    {pseudo : Option PseudoHeader} {layers out : List PlainLayer} (o : Option Discriminant)
    (ok : recomputeAll mode body pseudo layers = .ok out) :
    recomputeAll mode body pseudo (reroot o layers) = .ok (reroot o out) := by
  cases layers with
  | nil =>
    obtain rfl := Except.ok.inj ok
    rfl
  | cons l inner =>
    obtain ⟨h₁, h₂, lent, inner', h₃, hannounce, hfit, hlent, hinner, hrefresh, rfl⟩ :=
      recomputeAll_cons_eq_ok ok
    show recomputeAll mode body pseudo ({ l with origin := o } :: inner) = _
    rw [recomputeAll, hannounce, ok_bind, hfit, ok_bind, hlent, ok_bind, hinner, ok_bind,
      hrefresh, ok_bind]
    rfl

end PlainLayer

/-- **The packet that a payload makes** has its bytes, counts as up to date, and
has no check sequence. -/
theorem Payload.Spells.toPacket {payload : Payload} {root : PlainLayer} {inner : List PlainLayer}
    {body : Option Bytes} (spells : payload.Spells (root :: inner) body) :
    ∃ q, payload.toPacket? = some q ∧ q.LaidOut ∧ q.stale = false
      ∧ q.plain = ⟨PlainLayer.reroot none (root :: inner), body, none⟩ := by
  obtain ⟨l, rest, hlayers, rfl, rfl⟩ := List.map_eq_cons_iff.1 (spells.layers [])
  have hmade : payload.toPacket?
      = some ⟨[], { l with origin := none } :: rest, payload.body, none, false⟩ := by
    unfold toPacket?
    rw [hlayers]
  refine ⟨_, hmade, laidOut_toPacket spells.apart hmade, rfl, ?_⟩
  -- the root is announced by nothing, and all else is spelled as before
  rw [← spells.body []]
  rfl

namespace Packet

variable {p q : Packet}

/-- **The packet that a payload of all layers makes** has the same bytes, counts
as up to date, and has no check sequence. -/
theorem plain_toPacket (filled : p.layers ≠ []) :
    ∃ q, p.toPayload.toPacket? = some q ∧ q.LaidOut ∧ q.stale = false
      ∧ q.plain = ⟨PlainLayer.reroot none p.plain.layers, p.plain.body, none⟩ := by
  have spells := p.spells_toPayload
  obtain ⟨root, inner, hlayers⟩ := List.exists_cons_of_ne_nil filled
  have hplain : p.plain.layers = root.plain p.arena :: inner.map (Layer.plain p.arena) := by
    rw [plain, hlayers, List.map_cons]
  rw [hplain] at spells ⊢
  exact spells.toPacket

/-- Packets of the same bytes, but for how the outermost layer is announced,
are brought up to date alike. -/
theorem recompute_reroot {f : Packet} {mode : ChecksumMode} (laid : p.LaidOut) (bare : p.fcs = none)
    (ok : p.recompute mode = .ok f) (laidOut : q.LaidOut)
    (same : q.plain = ⟨PlainLayer.reroot none p.plain.layers, p.plain.body, none⟩) :
    ∃ g, q.recompute mode = .ok g ∧ g.LaidOut ∧ g.contents = f.contents := by
  have hnone : p.plain.fcs = none := by
    show p.fcs.map _ = none
    rw [bare]
    rfl
  obtain ⟨layers, hlayers, hf⟩ := PlainPacket.recompute_eq_ok.1 (recompute_plain laid ok)
  -- the pass over the plain form of the second packet
  have hplain : q.plain.recompute mode = .ok ⟨PlainLayer.reroot none layers, p.plain.body, none⟩ := by
    refine PlainPacket.recompute_eq_ok.2 ⟨PlainLayer.reroot none layers, ?_, ?_⟩
    · rw [same]
      exact PlainLayer.recomputeAll_reroot none hlayers
    · rw [same]
      cases mode <;> rfl
  have hagrees := q.recompute_agrees laidOut mode
  rw [hplain] at hagrees
  obtain ⟨g, hg, fresh⟩ := hagrees.of_ok_right
  refine ⟨g, hg, fresh.laidOut, ?_⟩
  have hfcs : f.plain.fcs = none := by
    rw [hf]
    cases mode
    · show p.plain.fcs.map _ = none
      rw [hnone]
      rfl
    · exact hnone
  rw [contents_plain, contents_plain, fresh.plain, PlainPacket.pieces, PlainPacket.pieces, hfcs, hf,
    PlainPacket.layers_sealed, PlainPacket.body_sealed, PlainLayer.pieces_reroot]

end Packet

/-! ## §2. What is lost with the mark. -/

/-- **A packet made of a payload counts as it is.**  Every packet without a check
sequence that can come about from the protocols of the library, turned into a
payload, makes a packet again.  That has the same bytes in every header, body
and padding, and serializes to them as they are.  So did the packet that was
converted, as long as it was not marked as changed; if it was, it would have
been brought up to date first, and the new packet serializes to the same once
that is done to it. -/
theorem Reachable.toPacket_serializes {p : Packet} (h : Reachable (· ∈ Dissector.all) p)
    (bare : p.fcs = none) :
    ∃ q, p.toPayload.toPacket? = some q ∧ q.contents = p.contents ∧ q.stale = false
      ∧ ∀ mode, ∃ f, q.recompute mode = .ok f
        ∧ (∃ s, q.serialize mode = .ok (p.contents.flatten, s))
        ∧ (∃ s, f.serialize mode = .ok (f.contents.flatten, s))
        ∧ (p.stale = false → ∃ s, p.serialize mode = .ok (p.contents.flatten, s))
        ∧ (p.stale = true → ∃ s, p.serialize mode = .ok (f.contents.flatten, s)) := by
  have hcoherent := h.coherent
  have hlaid := hcoherent.laidOut
  have hfcs : p.plain.fcs = none := by
    show p.fcs.map _ = none
    rw [bare]
    rfl
  obtain ⟨q, hmade, hlaid', hfresh, hplain⟩ := Packet.plain_toPacket h.filled
  have hcontents : q.contents = p.contents := by
    rw [Packet.contents_plain, Packet.contents_plain, hplain, PlainPacket.pieces,
      PlainPacket.pieces, PlainLayer.pieces_reroot, hfcs]
  refine ⟨q, hmade, hcontents, hfresh, ?_⟩
  intro mode
  obtain ⟨g, hg⟩ := Packet.recompute_succeeds hlaid (fun l hl => (Dissector.lawful_of_mem_all
    (hcoherent.linked.known l.shape (List.mem_map_of_mem hl))).total) mode
  obtain ⟨f, hf, hlaidF, hsame⟩ := Packet.recompute_reroot hlaid bare hg hlaid' hplain
  refine ⟨f, hf, ⟨q.settle, ?_⟩, ⟨f.settle, Packet.serialize_of_fresh hlaidF ?_ mode⟩, ?_, ?_⟩
  · rw [Packet.serialize_of_fresh hlaid' hfresh, hcontents]
  · obtain ⟨_, _, _, _, _, rfl⟩ := Packet.recompute_eq_ok.1 hf
    rfl
  · intro unmarked
    exact ⟨_, Packet.serialize_of_fresh hlaid unmarked mode⟩
  · intro marked
    have hrefreshed : p.refreshed mode = .ok g := (if_pos marked).trans hg
    refine ⟨g.settle, ?_⟩
    rw [Packet.serialize_of_refreshed hrefreshed,
      (Packet.settle_spec (hcoherent.of_refreshed hrefreshed).laidOut).arena, hsame]

/-- A UDP header that was built gets its length when it is serialized.  The packet
that it makes as a payload serializes to the same after it was brought up to
date. -/
theorem Reachable.toPacket_serializes_udp :
    Reachable (· ∈ Dissector.all) (Packet.ofHeader Udp.dissector (List.replicate 8 0))
      ∧ ∃ q f s t, (Packet.ofHeader Udp.dissector (List.replicate 8 0)).toPayload.toPacket? = some q
        ∧ q.recompute .fill = .ok f ∧ f.serialize .fill = .ok (f.contents.flatten, s)
        ∧ (Packet.ofHeader Udp.dissector (List.replicate 8 0)).serialize .fill
          = .ok (f.contents.flatten, t) := by
  have hreach : Reachable (· ∈ Dissector.all)
      (Packet.ofHeader Udp.dissector (List.replicate 8 0)) :=
    @Reachable.ofHeader (· ∈ Dissector.all) _ (by simp [Dissector.all]) _
  obtain ⟨q, hq, _, _, hmodes⟩ := Reachable.toPacket_serializes hreach rfl
  obtain ⟨f, hf, _, ⟨s, hs⟩, _, hmarked⟩ := hmodes .fill
  obtain ⟨t, ht⟩ := hmarked rfl
  exact ⟨hreach, q, f, s, t, hq, hf, hs, ht⟩

/-- The same header serializes to two different buffers, with its length and
without. -/
theorem Reachable.toPacket_serializes_stale :
    Reachable (· ∈ Dissector.all) (Packet.ofHeader Udp.dissector (List.replicate 8 0))
      ∧ (Packet.ofHeader Udp.dissector (List.replicate 8 0)).fcs = none
      ∧ ∃ q bytes bytes' s t,
        (Packet.ofHeader Udp.dissector (List.replicate 8 0)).toPayload.toPacket? = some q
          ∧ (Packet.ofHeader Udp.dissector (List.replicate 8 0)).serialize .fill = .ok (bytes, s)
          ∧ q.serialize .fill = .ok (bytes', t)
          ∧ bytes = [0, 0, 0, 0, 0, 8, 0, 0] ∧ bytes' = [0, 0, 0, 0, 0, 0, 0, 0] ∧ bytes ≠ bytes' :=
  ⟨@Reachable.ofHeader (· ∈ Dissector.all) _ (by simp [Dissector.all]) _, rfl,
    _, _, _, _, _, rfl, rfl, rfl, rfl, rfl, by decide⟩

end PacketLayers
