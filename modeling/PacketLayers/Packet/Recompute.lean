/-
  PacketLayers.Packet.Recompute
  ────────────────────────────────
  **BRINGING DERIVED FIELDS UP TO DATE.**

  One pass from the outermost layer to the innermost and back.  On the way in
  a layer announces the layer inside it, takes the length that its fields ask
  for, and lends its pseudo header.  On the way out, when everything inside is
  final, it brings its lengths and checksums up to date.
-/
import PacketLayers.Packet.Basic

namespace PacketLayers

namespace Layer

/-! ## §1. One layer on the way in. -/

/-- Write the discriminant of the layer inside, unless the header leads to it
already. -/
def announce (arena : Bytes) (l : Layer) (inside : Option Layer) : Access (Bytes × Layer) :=
  match inside with
  | none => .ok (arena, l)
  | some child =>
    match child.origin with
    | none => .ok (arena, l)
    | some origin => do
      let header := l.header.bytes arena
      if (← l.dissector.next header (child.header.bytes arena)) = some origin then
        return (arena, l)
      else
        let (arena, header) ← l.header.store arena (← l.dissector.setNext header origin)
        return (arena, { l with header := header })

/-- Give the header the length that its fields ask for. -/
def fit (arena : Bytes) (l : Layer) : Access Layer := do
  match ← l.dissector.requiredLength (l.header.bytes arena) with
  | none => return l
  | some size => return { l with header := l.header.resize arena size }

/-! ## §2. One layer on the way out. -/

/-- Bring lengths and checksums up to date. -/
def recompute (arena : Bytes) (l : Layer) (cx : Context) : Access (Bytes × Layer) := do
  let header ← l.dissector.recompute (l.header.bytes arena) cx
  let (arena, header) ← l.header.store arena header
  return (arena, { l with header := header })

/-! ## §3. All layers. -/

/-- Bring all layers up to date; `pseudo` is what the layer around them
lends. -/
def recomputeAll (mode : ChecksumMode) (body : Option Region) :
    Bytes → Option PseudoHeader → List Layer → Access (Bytes × List Layer)
  | arena, _, [] => .ok (arena, [])
  | arena, pseudo, l :: inner => do
    let (arena, l) ← l.announce arena inner.head?
    let l ← l.fit arena
    let lent ← l.dissector.pseudoHeader (l.header.bytes arena)
    let (arena, inner) ← recomputeAll mode body arena lent inner
    let payload := Region.joined arena (wireRegions inner body)
    let (arena, l) ← l.recompute arena ⟨payload, pseudo, mode⟩
    return (arena, l :: inner)

end Layer

namespace Packet

/-- Bring all derived fields up to date.  Checksum fields and the frame check
sequence take part as the mode says. -/
def recompute (p : Packet) (mode : ChecksumMode) : Access Packet := do
  let (arena, layers) ← Layer.recomputeAll mode p.body p.arena none p.layers
  let p := { p with arena := arena, layers := layers }
  let p ← match mode with
    | .fill => p.updateFcs
    | .keep => pure p
  return { p with stale := false }

end Packet

end PacketLayers
