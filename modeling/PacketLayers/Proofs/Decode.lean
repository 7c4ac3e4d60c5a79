/-
  PacketLayers.Proofs.Decode
  ────────────────────────────────
  **DECODING CUTS A BUFFER AND LOSES NOTHING OF IT.**

  Whatever the length fields of a packet say, a layer is cut into a header, a
  payload and padding that lie side by side and fill the span that was cut.
  `Decoded` records the cuts that led to some layers, so that what holds of
  decoded packets is shown by induction on them:

    • `decodeFrom_decoded` — every packet that was decoded has such a record;
    • `Decoded.tiles` — the regions of a record fill the span;
    • `serialize_decoded` — a decoded packet serializes to the buffer that it
      was decoded from, without a copy.
-/
import PacketLayers.Packet.Standard
import PacketLayers.Proofs.Rules

namespace PacketLayers

namespace Registry

/-! ## §1. The record of a decoding. -/

/-- How the layers of a branch were cut out of a span. -/
inductive Decoded (r : Registry) (arena : Bytes) :
    Dissector → Option Discriminant → Span → Branch → Prop where
  /-- A layer without payload. -/
  | bare {d : Dissector} {origin : Option Discriminant} {span header body padding : Span}
      (cut : Cut arena d span header body padding) (none : body.length = 0) :
      Decoded r arena d origin span ⟨[Cut.layer d origin header padding], .none, .none⟩
  /-- A layer whose payload stays bytes. -/
  | raw {d : Dissector} {origin : Option Discriminant} {span header body padding : Span}
      (cut : Cut arena d span header body padding) (failure : Option Error) :
      Decoded r arena d origin span
        ⟨[Cut.layer d origin header padding], some (.shared body), failure⟩
  /-- A layer that announces the one decoded inside it. -/
  | nested {d next : Dissector} {origin : Option Discriminant} {announced : Discriminant}
      {span header body padding : Span} {inner : Branch}
      (cut : Cut arena d span header body padding)
      (states : d.next (header.bytesOf arena) (body.bytesOf arena) = .ok (some announced))
      (stands : r.resolve announced = .dissect next)
      (inside : Decoded r arena next (some announced) body inner) :
      Decoded r arena d origin span
        { inner with layers := Cut.layer d origin header padding :: inner.layers }

/-- A payload that stays bytes without having failed may be none at all. -/
theorem Stays.empty_or {r : Registry} {arena : Bytes} {room : Nat} {d : Dissector}
    {header payload : Span} {failure : Option Error}
    (stays : Stays r arena room d header payload failure) :
    payload.length = 0 ∧ failure = none ∨ payload.length ≠ 0 := by
  cases stays with
  | empty none => exact .inl ⟨none, rfl⟩
  | closed nonempty _ => exact .inr nonempty
  | unnamed nonempty _ _ => exact .inr nonempty
  | full offers _ => exact .inr offers.nonempty
  | unknown offers _ _ => exact .inr offers.nonempty
  | refused offers _ _ => exact .inr offers.nonempty
  | unreadable offers _ _ _ => exact .inr offers.nonempty

/-- **Whatever the rules lead to has a record**, also where they stop early. -/
theorem Dispatched.decoded {r : Registry} {arena : Bytes} {room : Nat} {d : Dissector}
    {origin : Option Discriminant} {span : Span} {branch : Branch}
    (h : Dispatched r arena room d origin span branch) : Decoded r arena d origin span branch := by
  induction h with
  | innermost cut stays =>
    rcases stays.empty_or with ⟨none, rfl⟩ | nonempty
    · rw [rawBody, if_pos none]
      exact .bare cut none
    · rw [rawBody, if_neg nonempty]
      exact .raw cut _
  | around cut offers stands _ ih => exact .nested cut offers.named stands ih

/-- A decoded packet is made of the layers of a record and the frame check
sequence that was cut off. -/
theorem decodeFrom_decoded {r : Registry} {d : Dissector} {origin : Option Discriminant}
    {data : Bytes} {hasFcs : Bool} {out : Decoding} {p : Packet}
    (h : r.decodeFrom d origin data hasFcs = .ok out) (hp : out.packet? = some p) :
    ∃ (frame : Span) (fcs : Option Region) (branch : Branch),
      cutFcs data hasFcs = .ok (frame, fcs) ∧ Decoded r data d origin frame branch
        ∧ p = ⟨data, branch.layers, branch.body, fcs, false⟩ := by
  -- refused buffers leave no packet
  rcases decodeFrom_eq_ok.1 h with ⟨e, _, rfl⟩ | ⟨frame, fcs, branch, hcut, found, rfl⟩
  · cases hp
  · rw [Branch.packet?_decoding] at hp
    injection hp with hp
    exact ⟨frame, fcs, branch, hcut, found.decoded, hp.symm⟩

/-! ## §2. The regions of a record. -/

namespace Decoded

variable {r : Registry} {arena : Bytes} {d : Dissector} {origin : Option Discriminant}
  {span : Span} {branch : Branch}

/-- A cut fills the span around whatever fills the body. -/
theorem tiles_around {header body padding : Span} (cut : Cut arena d span header body padding)
    {layers : List Layer} {inside : Option Region}
    (h : Region.Tiles body.offset (Layer.wireRegions layers inside) body.stop) :
    Region.Tiles span.offset
      (Layer.wireRegions (Cut.layer d origin header padding :: layers) inside) span.stop := by
  have hheader := cut.header_offset
  have hbody := cut.body_offset
  have hpadding := cut.padding_offset
  have hstop := cut.padding_stop
  -- the header in front, the padding behind
  refine ⟨header.length, ?_, ?_⟩
  · rw [Cut.layer, ← hheader]
  · have hfront : span.offset + header.length = body.offset := by
      rw [hbody, Span.stop, hheader]
    have hback : Region.Tiles body.stop [.shared padding] span.stop := by
      rw [← hpadding, ← hstop]
      exact Region.Tiles.single _ _
    rw [hfront]
    exact h.append hback

/-- **The regions of a record fill the span** that was cut, one behind the
other. -/
theorem tiles (h : Decoded r arena d origin span branch) :
    Region.Tiles span.offset (Layer.wireRegions branch.layers branch.body) span.stop := by
  -- on the record: each layer fills the span that was cut for it
  induction h with
  | bare cut hnone =>
    apply tiles_around cut
    -- an empty body takes no room
    show _ = _
    rw [Span.stop, hnone, Nat.add_zero]
  | raw cut failure => exact tiles_around cut (Region.Tiles.single _ _)
  | nested cut _ _ _ ih => exact tiles_around cut ih

end Decoded

/-- The regions of a decoded packet fill the buffer. -/
theorem tiles_of_decodeFrom {r : Registry} {d : Dissector} {origin : Option Discriminant}
    {data : Bytes} {hasFcs : Bool} {out : Decoding} {p : Packet}
    (h : r.decodeFrom d origin data hasFcs = .ok out) (hp : out.packet? = some p) :
    p.arena = data ∧ p.stale = false ∧ Region.Tiles 0 p.allRegions p.arena.length := by
  obtain ⟨frame, fcs, branch, hcut, hrecord, rfl⟩ := decodeFrom_decoded h hp
  obtain ⟨hstart, hend⟩ := cutFcs_tiles hcut
  refine ⟨rfl, rfl, ?_⟩
  have hframe := hrecord.tiles
  rw [hstart] at hframe
  exact hframe.append hend

/-- A buffer that was decoded has at least one layer. -/
theorem layers_of_decodeFrom {r : Registry} {d : Dissector} {origin : Option Discriminant}
    {data : Bytes} {hasFcs : Bool} {out : Decoding} {p : Packet}
    (h : r.decodeFrom d origin data hasFcs = .ok out) (hp : out.packet? = some p) :
    p.layers ≠ [] := by
  obtain ⟨_, _, branch, _, hrecord, rfl⟩ := decodeFrom_decoded h hp
  -- whichever way decoding ends, the layer that was asked for stands in front
  cases hrecord <;> exact List.cons_ne_nil _ _

end Registry

namespace Registry

/-! ## §3. Serializing what was decoded. -/

/-- A captured buffer is decoded by the dissector that its link type stands
for. -/
theorem decode_eq_decodeFrom {r : Registry} {link : LinkType} {data : Bytes} {hasFcs : Bool}
    {out : Decoding} {p : Packet} (h : r.decode link data hasFcs = .ok out)
    (hp : out.packet? = some p) :
    ∃ d, r.resolve (.link link) = .dissect d
      ∧ r.decodeFrom d (some (.link link)) data hasFcs = .ok out := by
  unfold decode at h
  split at h
  · next d hd => exact ⟨d, hd, h⟩
  · injection h with h
    subst h
    cases hp

/-- A packet whose regions fill its arena serializes to it, without a copy and
in both modes. -/
theorem serialize_of_tiles {p : Packet} (fresh : p.stale = false)
    (h : Region.Tiles 0 p.allRegions p.arena.length) (mode : ChecksumMode) :
    p.serialize mode = .ok (p.arena, p) ∧ p.totalLength = p.arena.length := by
  refine ⟨Packet.serialize_of_isFlush fresh (Packet.isFlush_of_tiles h) mode, ?_⟩
  have hlast := h.last_eq
  rw [Nat.zero_add] at hlast
  exact hlast.symm

/-- **Decoding loses nothing.**  A packet that was decoded from a buffer, in
whole or up to an error, serializes to the buffer and is as long; it is not
changed by that. -/
theorem serialize_decoded (r : Registry) (link : LinkType) (data : Bytes) (hasFcs : Bool)
    (mode : ChecksumMode) {out : Decoding} {p : Packet}
    (h : r.decode link data hasFcs = .ok out) (hp : out.packet? = some p) :
    p.serialize mode = .ok (data, p) ∧ p.toBytes = .ok data ∧ p.totalLength = data.length := by
  obtain ⟨d, _, hfrom⟩ := decode_eq_decodeFrom h hp
  obtain ⟨harena, hfresh, htiles⟩ := tiles_of_decodeFrom hfrom hp
  obtain ⟨hserialize, hlength⟩ := serialize_of_tiles hfresh htiles mode
  have hfill := (serialize_of_tiles hfresh htiles .fill).1
  rw [harena] at hserialize hlength hfill
  refine ⟨hserialize, ?_, hlength⟩
  unfold Packet.toBytes
  rw [hfill]
  rfl

/-- A frame with a trailing check sequence, whose IPv4 header is cut short:
decoding stops after the first layer, and the packet is still the buffer. -/
theorem serialize_decoded_truncated :
    ∃ p, Registry.standard.decode .ethernet
          (List.replicate 12 0 ++ [0x08, 0, 0x45, 0, 1, 2, 3, 4]) true
        = .ok (.stopped .truncated p)
      ∧ p.serialize .fill
        = .ok (List.replicate 12 0 ++ [0x08, 0, 0x45, 0, 1, 2, 3, 4], p) := by
  refine ⟨_, rfl, ?_⟩
  exact (serialize_decoded Registry.standard .ethernet _ true .fill rfl rfl).1

end Registry

end PacketLayers
