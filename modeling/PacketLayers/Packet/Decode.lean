/-
  PacketLayers.Packet.Decode
  ────────────────────────────────
  **FROM BYTES TO LAYERS.**

  A layer is cut out of its part of the arena as header, payload and padding.
  The payload becomes a nested layer if the layer announces it, a dissector
  is registered for it and its own header can be read; otherwise it stays
  bytes.  Only the outermost header can make decoding fail outright.  Any
  other failure leaves the layers around it decoded, and there is at most
  one: it ends the descent.
-/
import PacketLayers.Packet.Basic
import PacketLayers.Packet.Registry

namespace PacketLayers

/-! ## §1. Results. -/

/-- The layers found in some part of the arena. -/
structure Branch where
  /-- The layers, outermost first. -/
  layers : List Layer
  /-- The bytes inside the innermost layer. -/
  body : Option Region
  /-- Why a payload that should have been decoded stayed bytes. -/
  failure : Option Error

namespace Branch

/-- No payload. -/
def nothing : Branch := ⟨[], none, none⟩

/-- A payload that stays bytes. -/
def raw (body : Span) (failure : Option Error) : Branch :=
  ⟨[], some (.shared body), failure⟩

end Branch

/-- The outcome of decoding a buffer. -/
inductive Decoding where
  /-- Every layer could be decoded. -/
  | complete (packet : Packet)
  /-- Decoding stopped inside the layers of the packet. -/
  | stopped (error : Error) (packet : Packet)
  /-- Not even the outermost layer could be decoded. -/
  | refused (error : Error)

namespace Decoding

/-- The layers that could be decoded. -/
def packet? : Decoding → Option Packet
  | complete p => some p
  | stopped _ p => some p
  | refused _ => none

/-- The reason why decoding stopped. -/
def error? : Decoding → Option Error
  | complete _ => none
  | stopped e _ => some e
  | refused e => some e

/-- The reason why decoding stopped, in text for readers. -/
def message? : Decoding → Option String
  | complete _ => none
  | stopped e p =>
    some (e.message ++ " after " ++ toString p.layers.length ++ " layers")
  | refused e => some e.message

end Decoding

namespace Registry

/-! ## §2. One layer. -/

/-- The largest number of layers that are decoded. -/
def maxDepth : Nat := 32

/-- Cut a header off the front of a span; the second part of the answer is
what follows it. -/
def cutHeader (arena : Bytes) (d : Dissector) (span : Span) : Except Error (Span × Span) := do
  let view ← View.ofSpan arena span
  let size ← d.headerLength view.bytes
  let header ← (span.slice 0 size).mapError fun _ => .truncated
  return (header, ← span.tail size)

/-- How a nested layer is decoded, given its dissector, the discriminant that
announced it and its part of the arena. -/
abbrev Nested := Dissector → Discriminant → Span → Access (Except Error Branch)

/-- Decode a payload.  Where there is no room for another layer, `nested` is
`none`. -/
def decodePayload (r : Registry) (arena : Bytes) (nested : Option Nested) (d : Dissector)
    (header : Bytes) (body : Span) : Access Branch := do
  let bytes := body.bytesOf arena
  if bytes.isEmpty then return .nothing
  if ← d.sealed header then return .raw body none
  match ← d.next header bytes, nested with
  | some announced, some nested =>
    match r.resolve announced with
    | .keep => return .raw body none
    | .refuse => return .raw body (some .notImplemented)
    | .dissect next =>
      match ← nested next announced body with
      | .ok branch => return branch
      | .error e => return .raw body (some e)
  | _, _ => return .raw body none

/-- Decode a layer and what is inside it; the error is that of its own
header. -/
def decodeWith (r : Registry) (arena : Bytes) (nested : Option Nested) (d : Dissector)
    (origin : Option Discriminant) (span : Span) : Access (Except Error Branch) :=
  match cutHeader arena d span with
  | .error e => return .error e
  | .ok (header, rest) => do
    let headerBytes := header.bytesOf arena
    let size := min (← d.payloadLength headerBytes rest.length) rest.length
    let padding : Span := ⟨rest.offset + size, rest.length - size⟩
    let inner ← decodePayload r arena nested d headerBytes ⟨rest.offset, size⟩
    return .ok { inner with
      layers := ⟨d, origin, .shared header, .shared padding⟩ :: inner.layers }

/-- Decode a layer with room for some number of layers inside it. -/
def decodeLayers (r : Registry) (arena : Bytes) :
    (room : Nat) → Dissector → Option Discriminant → Span → Access (Except Error Branch)
  | 0, d, origin, span => decodeWith r arena none d origin span
  | room + 1, d, origin, span =>
    decodeWith r arena
      (some fun next announced body => decodeLayers r arena room next (some announced) body)
      d origin span

/-! ## §3. Whole buffers. -/

/-- The spans of the frame and of its check sequence in a buffer. -/
def cutFcs (data : Bytes) (hasFcs : Bool) : Except Error (Span × Option Region) :=
  if hasFcs then
    if data.length < fcsLength then .error .truncated
    else
      let size := data.length - fcsLength
      .ok (⟨0, size⟩, some (.shared ⟨size, fcsLength⟩))
  else .ok (⟨0, data.length⟩, none)

/-- Decode a buffer that begins with the header of some protocol. -/
def decodeFrom (r : Registry) (d : Dissector) (origin : Option Discriminant) (data : Bytes)
    (hasFcs : Bool) : Access Decoding :=
  match cutFcs data hasFcs with
  | .error e => return .refused e
  | .ok (frame, fcs) => do
    match ← decodeLayers r data (maxDepth - 1) d origin frame with
    | .error e => return .refused e
    | .ok branch =>
      let packet : Packet := ⟨data, branch.layers, branch.body, fcs, false⟩
      match branch.failure with
      | none => return .complete packet
      | some e => return .stopped e packet

/-- Decode a buffer that begins with the header of some protocol. -/
def decodeLayer (r : Registry) (d : Dissector) (data : Bytes) (hasFcs : Bool) :
    Access Decoding :=
  decodeFrom r d none data hasFcs

/-- Decode a captured buffer of some link type. -/
def decode (r : Registry) (link : LinkType) (data : Bytes) (hasFcs : Bool) :
    Access Decoding :=
  match r.resolve (.link link) with
  | .dissect d => decodeFrom r d (some (.link link)) data hasFcs
  | _ => return .refused .notImplemented

end Registry

end PacketLayers
