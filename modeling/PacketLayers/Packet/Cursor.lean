/-
  PacketLayers.Packet.Cursor
  ────────────────────────────────
  **CHANGING ONE LAYER OF A PACKET.**

  `Packet.open?` opens a layer; the cursor shows it between the layers around
  it and the layers inside it.  `Cursor.close` puts the packet together again
  and marks it as changed, whatever was done meanwhile.
-/
import PacketLayers.Packet.Basic

namespace PacketLayers

/-- A layer of a packet, opened for changes. -/
structure Cursor where
  /-- The packet that was opened; its layers are those below. -/
  packet : Packet
  /-- The layers around the open one, outermost first. -/
  outer : List Layer
  /-- The open layer. -/
  focus : Layer
  /-- The layers inside the open one. -/
  inner : List Layer

/-! ## §1. Opening and closing. -/

namespace Packet

/-- Open the layer with a number of layers around it. -/
def open? (p : Packet) (depth : Nat) : Option Cursor :=
  match p.layers.drop depth with
  | [] => none
  | focus :: inner => some ⟨p, p.layers.take depth, focus, inner⟩

/-- The depth of the outermost layer of some protocol. -/
def depthOf? (p : Packet) (kind : LayerKind) : Option Nat :=
  p.layers.findIdx? (·.kind == kind)

/-- Open the outermost layer of some protocol. -/
def openKind? (p : Packet) (kind : LayerKind) : Option Cursor :=
  (p.depthOf? kind).bind p.open?

/-- Open the innermost layer. -/
def openInnermost? (p : Packet) : Option Cursor := p.open? (p.layers.length - 1)

end Packet

namespace Cursor

/-- The packet with the changes. -/
def close (c : Cursor) : Packet :=
  { c.packet with layers := c.outer ++ c.focus :: c.inner, stale := true }

/-! ## §2. The header. -/

/-- The header bytes. -/
def header (c : Cursor) : Bytes := c.focus.header.bytes c.packet.arena

/-- Replace the header bytes by as many new ones. -/
def storeHeader (c : Cursor) (new : Bytes) : Access Cursor := do
  let (arena, header) ← c.focus.header.store c.packet.arena new
  return { c with
    packet := { c.packet with arena := arena }
    focus := { c.focus with header := header } }

/-- Change the header bytes, if they are a header of some format. -/
def modifyHeader? (c : Cursor) (format : HeaderFormat) (change : Bytes → Access Bytes) :
    Access (Option Cursor) := do
  if c.focus.kind = format.kind && format.accepts c.header then
    return some (← c.storeHeader (← change c.header))
  else return none

/-- Change the length of the header, with zeros for new bytes. -/
def resizeHeader (c : Cursor) (size : Nat) : Cursor :=
  { c with focus := { c.focus with header := c.focus.header.resize c.packet.arena size } }

/-! ## §3. Payload and padding. -/

/-- The payload bytes, if no layer is inside. -/
def rawPayload? (c : Cursor) : Option Bytes :=
  if c.inner.isEmpty then c.packet.body.map (·.bytes c.packet.arena) else none

/-- Replace payload bytes by as many new ones, if no layer is inside. -/
def storeRawPayload (c : Cursor) (new : Bytes) : Access Cursor :=
  match c.inner, c.packet.body with
  | [], some body => do
    let (arena, body) ← body.store c.packet.arena new
    return { c with packet := { c.packet with arena := arena, body := some body } }
  | _, _ => .ok c

/-- Remove what follows the payload. -/
def clearPadding (c : Cursor) : Cursor :=
  { c with focus := { c.focus with padding := .empty } }

/-- Replace the payload.  Layers are announced in the header, and a layer that
cannot announce them keeps its payload. -/
def setPayload (c : Cursor) (payload : Payload) : Access (Except Error Cursor) :=
  match payload.layers with
  | [] => return .ok { c with inner := [], packet := { c.packet with body := payload.body } }
  | child :: rest =>
    match c.focus.dissector.discriminantOf child.kind with
    | none => return .error .unsupported
    | some announced => do
      let c ← c.storeHeader (← c.focus.dissector.setNext c.header announced)
      return .ok { c with
        inner := { child with origin := some announced } :: rest
        packet := { c.packet with body := payload.body } }

/-- Remove the payload; it no longer depends on the packet. -/
def takePayload (c : Cursor) : Cursor × Payload :=
  ({ c with inner := [], packet := { c.packet with body := none } },
    Payload.detach c.packet.arena ⟨c.inner, c.packet.body⟩)

end Cursor

/-! ## §4. Stacking layers. -/

/-- Put a payload into the innermost layer.  The packet counts as changed even
if the layer cannot announce the payload. -/
def Packet.push (p : Packet) (payload : Payload) : Access (Packet × Except Error Unit) :=
  match p.openInnermost? with
  | none => return (p, .error .unsupported)
  | some c => do
    match ← c.setPayload payload with
    | .ok c => return (c.close, .ok ())
    | .error e => return (c.close, .error e)

end PacketLayers
