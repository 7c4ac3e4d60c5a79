/-
  PacketLayers.Report.Outcome
  ────────────────────────────────
  **A FRAME TAKEN APART, IN LINES OF TEXT.**

  One line per layer, indented by its depth, with the length of its header and
  what became of its checksum; below it the bytes that no layer claims and the
  padding.  A frame check sequence ends the report.  Decoding that stops early
  is told on the error stream, and the layers found so far are still shown.
-/
import PacketLayers.Packet.Decode
import PacketLayers.Packet.Inspect
import PacketLayers.Packet.Standard
import PacketLayers.Report.Request

namespace PacketLayers

/-! ## §1. The lines of a packet. -/

namespace Packet

/-- The word for the state of a checksum. -/
def checksumWord : Option Bool → String
  | some true => "valid"
  | some false => "INVALID"
  | none => "-"

/-- Two blanks per layer around. -/
def indent (depth : Nat) : String := String.ofList (List.replicate (2 * depth) ' ')

/-- A number of bytes of some sort, below the line of their layer. -/
def byteLine (depth count : Nat) (sort : String) : String :=
  indent depth ++ "  " ++ toString count ++ " " ++ sort ++ " bytes"

/-- The lines of the layer at a depth. -/
def layerLines (p : Packet) (depth : Nat) (l : Layer) : Access (List String) := do
  let checksum ← p.layerChecksumValid depth l
  let heading := indent depth ++ l.kind.title ++ " header=" ++ toString l.header.length
    ++ " checksum=" ++ checksumWord checksum
  let opaqueLines := (p.bodyOf? depth).toList.map fun b => byteLine depth b.length "opaque"
  let paddingLines :=
    if l.padding.isEmpty then [] else [byteLine depth l.padding.length "padding"]
  return heading :: opaqueLines ++ paddingLines

/-- The line of the frame check sequence, if there is one. -/
def fcsLines (p : Packet) : List String :=
  match p.fcs? with
  | none => []
  | some fcs =>
    ["FCS " ++ String.ofList (Text.hexPadded 8 fcs.toNat) ++ " "
      ++ checksumWord (some p.fcsValid)]

/-- The lines of a packet. -/
def report (p : Packet) : Access (List String) := do
  let lines ← p.indexed.mapM fun (depth, l) => p.layerLines depth l
  return lines.flatten ++ p.fcsLines

end Packet

namespace Report

/-! ## §2. Outcomes. -/

/-- What a run prints and how it ends. -/
structure Outcome where
  /-- The lines on the output stream. -/
  output : List String
  /-- The lines on the error stream. -/
  errors : List String
  /-- Whether there was anything to show. -/
  success : Bool
  deriving DecidableEq, Repr

namespace Outcome

/-- How the command is used. -/
def usage : String := "Usage: dissect [--link <type>] [--fcs] <hex>..."

/-- The outcome of a command line that is not understood. -/
def ofProblem (e : Request.Problem) : Outcome := ⟨[], [e.message, usage], false⟩

/-- The line that tells that decoding stopped. -/
def stopLine (message : String) : String := "Decoding stopped: " ++ message

/-- The outcome of decoding a frame. -/
def ofDecoding (d : Decoding) : Access Outcome := do
  let errors := d.message?.toList.map stopLine
  match d.packet? with
  | none => return ⟨[], errors, false⟩
  | some p => return ⟨← p.report, errors, true⟩

/-- The outcome of a request. -/
def ofRequest (r : Request) : Access Outcome :=
  match r.frame with
  | .error e => return ofProblem e
  | .ok frame => do ofDecoding (← Registry.standard.decode r.linkType frame r.hasFcs)

/-- The outcome of a command line. -/
def ofArguments (arguments : List String) : Access Outcome :=
  match Request.ofArguments arguments with
  | .error e => return ofProblem e
  | .ok r => ofRequest r

/-- Lines as a text; every line ends in a line break. -/
def textOf (lines : List String) : String :=
  lines.foldl (fun text line => text ++ line ++ "\n") ""

/-- The text on the output stream. -/
def outputText (o : Outcome) : String := textOf o.output

/-- The text on the error stream. -/
def errorText (o : Outcome) : String := textOf o.errors

/-- The number with which the run ends. -/
def exitCode (o : Outcome) : UInt32 := if o.success then 0 else 1

end Outcome

end Report

end PacketLayers
