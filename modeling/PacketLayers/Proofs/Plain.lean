/-
  PacketLayers.Proofs.Plain
  ────────────────────────────────
  **PACKETS AS PLAIN BYTES.**

  Where the bytes of a packet are kept is no concern of what the packet says.
  The plain form of a packet has the bytes of each region in place of the
  region.  A packet whose regions are laid out over its arena is, for every
  question about bytes, its plain form:

    • `contents_plain` — the bytes of all regions, in the order of the wire;
    • `plain_of_bytes_eq` — the plain form depends on nothing but those bytes.
-/
import PacketLayers.Packet.Basic
import PacketLayers.Proofs.Layout

namespace PacketLayers

/-! ## §1. Plain layers and packets. -/

/-- A layer with its bytes in place of regions. -/
structure PlainLayer where
  dissector : Dissector
  origin : Option Discriminant
  header : Bytes
  padding : Bytes

/-- A packet with bytes in place of regions. -/
structure PlainPacket where
  layers : List PlainLayer
  body : Option Bytes
  fcs : Option Bytes

namespace PlainLayer

/-- The protocol of the layer. -/
def kind (l : PlainLayer) : LayerKind := l.dissector.kind

/-- The bytes of layers and the body inside them, piece by piece in the order
of the wire. -/
def pieces : List PlainLayer → Option Bytes → List Bytes
  | [], body => body.toList
  | l :: inner, body => l.header :: (pieces inner body ++ [l.padding])

/-- The bytes of layers and the body inside them. -/
def wire (layers : List PlainLayer) (body : Option Bytes) : Bytes := (pieces layers body).flatten

@[simp] theorem wire_nil (body : Option Bytes) : wire [] body = body.getD [] := by
  cases body with
  | none => rfl
  | some b => simp [wire, pieces]

@[simp] theorem wire_cons (l : PlainLayer) (inner : List PlainLayer) (body : Option Bytes) :
    wire (l :: inner) body = l.header ++ (wire inner body ++ l.padding) := by
  simp [wire, pieces]

end PlainLayer

namespace PlainPacket

/-- The bytes of the packet, piece by piece in the order of the wire. -/
def pieces (p : PlainPacket) : List Bytes := PlainLayer.pieces p.layers p.body ++ p.fcs.toList

end PlainPacket

/-! ## §2. The plain form. -/

/-- A layer with the bytes of its regions. -/
def Layer.plain (arena : Bytes) (l : Layer) : PlainLayer :=
  ⟨l.dissector, l.origin, l.header.bytes arena, l.padding.bytes arena⟩

/-- A packet with the bytes of its regions. -/
def Packet.plain (p : Packet) : PlainPacket :=
  ⟨p.layers.map (Layer.plain p.arena), p.body.map (Region.bytes p.arena),
    p.fcs.map (Region.bytes p.arena)⟩

namespace Layer

theorem contents_wireRegions (arena : Bytes) (layers : List Layer) (body : Option Region) :
    Region.contents arena (wireRegions layers body)
      = PlainLayer.pieces (layers.map (plain arena)) (body.map (Region.bytes arena)) := by
  induction layers with
  | nil => cases body <;> rfl
  | cons l inner ih =>
    rw [wireRegions, Region.contents_cons, Region.contents_append, ih]
    rfl

/-- The bytes of layers are those of their plain form. -/
theorem concat_wireRegions (arena : Bytes) (layers : List Layer) (body : Option Region) :
    Region.concat arena (wireRegions layers body)
      = PlainLayer.wire (layers.map (plain arena)) (body.map (Region.bytes arena)) := by
  rw [Region.concat_eq_flatten, contents_wireRegions, PlainLayer.wire]

/-- Headers come from the outside in, paddings from the inside out. -/
theorem wireRegions_append (outer layers : List Layer) (body : Option Region) :
    wireRegions (outer ++ layers) body
      = outer.map (·.header) ++ wireRegions layers body ++ (outer.map (·.padding)).reverse := by
  induction outer with
  | nil => simp
  | cons l rest ih => simp [wireRegions, ih]

/-- The plain form depends on nothing but the bytes of the regions. -/
theorem plain_of_bytes_eq {arena arena' : Bytes} {layers : List Layer} {body : Option Region}
    (same : ∀ r ∈ wireRegions layers body, r.bytes arena' = r.bytes arena) :
    layers.map (plain arena') = layers.map (plain arena)
      ∧ body.map (Region.bytes arena') = body.map (Region.bytes arena) := by
  induction layers with
  | nil =>
    cases body with
    | none => exact ⟨rfl, rfl⟩
    | some b => exact ⟨rfl, congrArg some (same b List.mem_cons_self)⟩
  | cons l inner ih =>
    obtain ⟨hinner, hbody⟩ := ih fun r hr =>
      same r (List.mem_cons_of_mem _ (List.mem_append_left _ hr))
    have hheader := same l.header List.mem_cons_self
    have hpadding := same l.padding (by simp [wireRegions])
    refine ⟨?_, hbody⟩
    rw [List.map_cons, List.map_cons, hinner, plain, plain, hheader, hpadding]

end Layer

namespace Packet

/-- The bytes of each region, in the order of the wire. -/
def contents (p : Packet) : List Bytes := Region.contents p.arena p.allRegions

/-- The regions that share the arena lie inside it, in the order of the wire
and without overlap. -/
def LaidOut (p : Packet) : Prop := Region.LaidOut p.arena p.allRegions

/-- A layer stands for one of the plain form at the same depth. -/
theorem getElem?_plain {s : Packet} {depth : Nat} {l : Layer} (found : s.layers[depth]? = some l) :
    s.plain.layers[depth]? = some (l.plain s.arena) := by
  rw [plain, List.getElem?_map, found, Option.map_some]

/-- A layer of the plain form stands for a layer at the same depth. -/
theorem getElem?_of_plain {s : Packet} {depth : Nat} {l : PlainLayer}
    (found : s.plain.layers[depth]? = some l) :
    ∃ m, s.layers[depth]? = some m ∧ m.plain s.arena = l := by
  rw [plain, List.getElem?_map, Option.map_eq_some_iff] at found
  exact found

theorem contents_plain (p : Packet) : p.contents = p.plain.pieces := by
  rw [contents, allRegions, Region.contents_append, wireRegions, Layer.contents_wireRegions,
    PlainPacket.pieces, plain]
  cases p.fcs <;> rfl

/-- The bytes of the layers, read in one piece or region by region. -/
theorem LaidOut.frameBytes {p : Packet} (h : p.LaidOut) :
    p.frameBytes = PlainLayer.wire p.plain.layers p.plain.body := by
  rw [Packet.frameBytes, (Region.LaidOut.left h rfl).joined_eq]
  exact Layer.concat_wireRegions _ _ _

theorem LaidOut.length_flatten {p : Packet} (h : p.LaidOut) :
    p.contents.flatten.length = p.totalLength := by
  rw [contents, ← Region.concat_eq_flatten]
  exact Region.LaidOut.length_concat h

end Packet

end PacketLayers
