/-
  PacketLayers.Packet.Serialize
  ────────────────────────────────
  **FROM LAYERS TO BYTES.**

  A packet that was changed is brought up to date first.  If all regions then
  share the whole arena, one behind the other, the arena is the answer.
  Otherwise the regions are copied into a new arena, in the order of the wire,
  and from then on share that.
-/
import PacketLayers.Packet.Recompute

namespace PacketLayers

namespace Region

/-- Copy a region behind `offset` bytes of a new arena. -/
def relocate (arena : Bytes) (offset : Nat) (r : Region) : Bytes × Region :=
  (r.bytes arena, .shared ⟨offset, r.length⟩)

end Region

namespace Layer

/-- Copy layers and the body inside them behind `offset` bytes of a new
arena. -/
def relocate (arena : Bytes) : (offset : Nat) → List Layer → Option Region →
    Bytes × List Layer × Option Region
  | _, [], none => ([], [], none)
  | offset, [], some body =>
    let (bytes, body) := body.relocate arena offset
    (bytes, [], some body)
  | offset, l :: inner, body =>
    let (front, header) := l.header.relocate arena offset
    let (middle, inner, body) := relocate arena (offset + front.length) inner body
    let (back, padding) := l.padding.relocate arena (offset + front.length + middle.length)
    (front ++ (middle ++ back), { l with header := header, padding := padding } :: inner, body)

end Layer

namespace Packet

/-- Whether the arena is what the packet serializes to. -/
def isFlush (p : Packet) : Bool :=
  match Region.contiguous p.allRegions with
  | some s => s.offset == 0 && s.length == p.arena.length
  | none => false

/-- The same packet over a new arena that holds exactly its regions. -/
def rebuild (p : Packet) : Packet :=
  let (bytes, layers, body) := Layer.relocate p.arena 0 p.layers p.body
  let (tail, fcs) := match p.fcs with
    | none => ([], none)
    | some r =>
      let (tail, r) := r.relocate p.arena bytes.length
      (tail, some r)
  { p with arena := bytes ++ tail, layers := layers, body := body, fcs := fcs }

/-- The packet over an arena that holds exactly its regions. -/
def settle (p : Packet) : Packet := if p.isFlush then p else p.rebuild

/-- The bytes of the packet, and the packet over them.  A packet that was
changed is brought up to date first. -/
def serialize (p : Packet) (mode : ChecksumMode) : Access (Bytes × Packet) := do
  let p ← if p.stale then p.recompute mode else pure p
  let p := p.settle
  return (p.arena, p)

/-- The bytes of the packet. -/
def toBytes (p : Packet) : Access Bytes := do
  return (← p.serialize .fill).1

end Packet

end PacketLayers
