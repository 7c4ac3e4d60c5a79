/-
  PacketLayers.Packet.Inspect
  ────────────────────────────────
  **LOOKING AT THE LAYERS OF A PACKET.**
-/
import PacketLayers.Packet.Cursor

namespace PacketLayers.Packet

/-! ## §1. One layer, by its depth. -/

/-- The header bytes of a layer. -/
def header (p : Packet) (l : Layer) : Bytes := l.header.bytes p.arena

/-- The bytes behind the payload of a layer. -/
def padding (p : Packet) (l : Layer) : Bytes := l.padding.bytes p.arena

/-- The payload bytes of the layer at a depth, nested layers included. -/
def payloadBytes (p : Packet) (depth : Nat) : Bytes :=
  Region.joined p.arena (Layer.wireRegions (p.layers.drop (depth + 1)) p.body)

/-- The number of bytes of the layer at a depth, everything inside and behind
included. -/
def layerLength (p : Packet) (depth : Nat) : Nat :=
  Layer.totalLength (p.layers.drop depth) p.body

/-- The layer around the one at a depth. -/
def parent? (p : Packet) (depth : Nat) : Option Layer :=
  match depth with
  | 0 => none
  | above + 1 => p.layers[above]?

/-- The body, as what is directly inside the layer at a depth. -/
def bodyOf? (p : Packet) (depth : Nat) : Option Bytes :=
  if depth + 1 = p.layers.length then p.body.map (·.bytes p.arena) else none

/-- What a layer lends to the one inside it. -/
def lent (p : Packet) : Option Layer → Access (Option PseudoHeader)
  | none => return none
  | some l => l.dissector.pseudoHeader (p.header l)

/-- Whether the checksum of a layer holds, `none` if there is none that can be
checked. -/
def layerChecksumValid (p : Packet) (depth : Nat) (l : Layer) : Access (Option Bool) := do
  let pseudo ← p.lent (p.parent? depth)
  l.dissector.checksumValid (p.header l) ⟨p.payloadBytes depth, pseudo, .fill⟩

/-! ## §2. All layers. -/

/-- The layers with their depths. -/
def indexed (p : Packet) : List (Nat × Layer) := (List.range p.layers.length).zip p.layers

/-- Whether no checksum of any layer is wrong. -/
def checksumValid (p : Packet) : Access Bool := do
  let verdicts ← p.indexed.mapM fun (depth, l) => p.layerChecksumValid depth l
  return verdicts.all (· != some false)

/-- The header of the outermost layer of a protocol, if its format accepts
it. -/
def extract? (p : Packet) (format : HeaderFormat) : Option Bytes :=
  match p.layers.find? (·.kind == format.kind) with
  | none => none
  | some l => if format.accepts (p.header l) then some (p.header l) else none

/-! ## §3. Listings. -/

/-- Names with a comma between each two. -/
def commaSeparated (names : List String) : String := String.intercalate ", " names

/-- The packet on one line. -/
def listing (p : Packet) : String :=
  let fcs := match p.fcs? with
    | none => "None"
    | some n => "Some(" ++ toString n ++ ")"
  "Packet \x7b layers: [" ++ commaSeparated (p.layers.map (·.kind.name)) ++ "], len: "
    ++ toString p.totalLength ++ ", fcs: " ++ fcs ++ " \x7d"

/-- The layer at a depth on one line. -/
def layerListing (p : Packet) (depth : Nat) (l : Layer) : String :=
  "LayerRef \x7b kind: " ++ l.kind.name ++ ", depth: " ++ toString depth
    ++ ", header_len: " ++ toString l.header.length
    ++ ", total_len: " ++ toString (p.layerLength depth) ++ " \x7d"

end PacketLayers.Packet
