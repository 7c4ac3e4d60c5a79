/-
  PacketLayers.Main
  ────────────────────────────────
  **THE COMMAND `dissect`.**

  Takes the frame on the command line apart and prints its layers.
-/
import PacketLayers.Report.Outcome

/-- Print the outcome of the command line. -/
def main (arguments : List String) : IO UInt32 := do
  match PacketLayers.Report.Outcome.ofArguments arguments with
  | .ok o =>
    IO.eprint o.errorText
    IO.print o.outputText
    return o.exitCode
  | .error _ => return 1
