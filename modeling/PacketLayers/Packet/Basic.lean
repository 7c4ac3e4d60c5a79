/-
  PacketLayers.Packet.Basic
  ────────────────────────────────
  **PACKETS: LAYERS AROUND A BODY.**

      header₁ header₂ … headerₙ body paddingₙ … padding₂ padding₁ [fcs]

  A packet is a list of layers, outermost first, and the body inside the
  innermost one.  Each layer has a header in front of what is inside it and
  padding behind.  The bytes are regions over one arena, so decoding copies
  nothing; a frame check sequence may follow the outermost layer.
-/
import PacketLayers.Checksum.Crc32
import PacketLayers.Layer.Dissector
import PacketLayers.Packet.Region

namespace PacketLayers

/-! ## §1. Layers and payloads. -/

/-- One layer of a packet. -/
structure Layer where
  /-- The protocol. -/
  dissector : Dissector
  /-- The discriminant under which the enclosing layer announces this one. -/
  origin : Option Discriminant
  header : Region
  /-- What follows the payload of the layer. -/
  padding : Region

namespace Layer

/-- The protocol of the layer. -/
def kind (l : Layer) : LayerKind := l.dissector.kind

/-- The layer with bytes of its own. -/
def detach (arena : Bytes) (l : Layer) : Layer :=
  { l with header := l.header.detach arena, padding := l.padding.detach arena }

/-- The regions of layers and the body inside them, in the order of the
wire. -/
def wireRegions : List Layer → Option Region → List Region
  | [], body => body.toList
  | l :: inner, body => l.header :: (wireRegions inner body ++ [l.padding])

/-- The number of bytes of layers and the body inside them. -/
def totalLength (layers : List Layer) (body : Option Region) : Nat :=
  Region.totalLength (wireRegions layers body)

end Layer

/-- What follows a header: layers, and the body inside them.  Without layers
it is plain bytes, without a body too it is nothing. -/
structure Payload where
  layers : List Layer
  body : Option Region

namespace Payload

/-- Nothing. -/
def empty : Payload := ⟨[], none⟩

/-- Plain bytes; none are nothing. -/
def ofBytes (b : Bytes) : Payload := ⟨[], if b.isEmpty then none else some (.owned b)⟩

/-- The payload with bytes of its own. -/
def detach (arena : Bytes) (p : Payload) : Payload :=
  ⟨p.layers.map (Layer.detach arena), p.body.map (Region.detach arena)⟩

end Payload

/-! ## §2. Packets. -/

/-- A decoded or constructed packet. -/
structure Packet where
  /-- The bytes that shared regions are part of. -/
  arena : Bytes
  /-- The layers, outermost first; a packet has at least one. -/
  layers : List Layer
  /-- The bytes inside the innermost layer, if there are any. -/
  body : Option Region
  /-- The frame check sequence, if the packet has one. -/
  fcs : Option Region
  /-- Derived fields may be out of date. -/
  stale : Bool

/-- The length of a frame check sequence. -/
def fcsLength : Nat := 4

namespace Packet

/-- A single layer with the given header. -/
def ofHeader (d : Dissector) (header : Bytes) : Packet where
  arena := header
  layers := [⟨d, none, .shared ⟨0, header.length⟩, .empty⟩]
  body := none
  fcs := none
  stale := true

/-- A single layer with the default header of its protocol. -/
def new (d : Dissector) : Packet := ofHeader d d.defaultHeader

/-- A single layer with the header written for some contents. -/
def ofContents {α : Type} [WireHeader α] (r : α) : Access Packet := do
  return ofHeader (WireHeader.dissector α) (← WireHeader.toBytes r)

/-- The regions of all layers and the body, in the order of the wire. -/
def wireRegions (p : Packet) : List Region := Layer.wireRegions p.layers p.body

/-- The regions in the order of the wire, with the frame check sequence. -/
def allRegions (p : Packet) : List Region := p.wireRegions ++ p.fcs.toList

/-- The number of bytes, with the frame check sequence. -/
def totalLength (p : Packet) : Nat := Region.totalLength p.allRegions

/-- The bytes of all layers, without the frame check sequence. -/
def frameBytes (p : Packet) : Bytes := Region.joined p.arena p.wireRegions

/-- All layers as the payload of another packet; a frame check sequence is
dropped. -/
def toPayload (p : Packet) : Payload := Payload.detach p.arena ⟨p.layers, p.body⟩

end Packet

/-- A payload that has layers, as a packet of its own. -/
def Payload.toPacket? (p : Payload) : Option Packet :=
  match p.layers with
  | [] => none
  | root :: inner =>
    some ⟨[], { root with origin := none } :: inner, p.body, none, false⟩

/-! ## §3. The frame check sequence. -/

namespace Packet

/-- The stored frame check sequence, least significant byte first. -/
def fcs? (p : Packet) : Option UInt32 :=
  match p.fcs with
  | none => none
  | some r =>
    let stored := r.bytes p.arena
    if stored.length < fcsLength then none
    else some (UInt32.ofNat (Bytes.toNat (stored.take fcsLength).reverse))

/-- The frame check sequence that the layers call for. -/
def computedFcs (p : Packet) : UInt32 := Crc32.crc32 p.frameBytes

/-- Whether the stored frame check sequence holds; without one nothing is
wrong. -/
def fcsValid (p : Packet) : Bool :=
  match p.fcs? with
  | none => true
  | some stored => stored == p.computedFcs

/-- Store the frame check sequence that the layers call for. -/
def updateFcs (p : Packet) : Access Packet :=
  match p.fcs with
  | none => .ok p
  | some r => do
    let value := (Bytes.ofNat fcsLength p.computedFcs.toNat).reverse
    let (arena, r) ← (r.resize p.arena fcsLength).store p.arena value
    return { p with arena := arena, fcs := some r }

/-- Add a frame check sequence, to be filled later, or remove it. -/
def setFcs (p : Packet) (present : Bool) : Packet :=
  match present, p.fcs with
  | true, none => { p with fcs := some (.owned (List.replicate fcsLength 0)), stale := true }
  | false, some _ => { p with fcs := none }
  | _, _ => p

end Packet

end PacketLayers
