/-
  PacketLayers.Packet.Registry
  ────────────────────────────────
  **WHICH PROTOCOL A DISCRIMINANT STANDS FOR.**

  A registry is a list of instructions about discriminants, latest first, and
  a set of number spaces in which every discriminant has to be known.  The
  latest instruction about a discriminant decides; without one the payload
  stays bytes, or decoding fails if the number space is strict.
-/
import PacketLayers.Layer.Dissector

namespace PacketLayers

/-- An instruction about a discriminant. -/
inductive Instruction where
  /-- Payloads are decoded by a dissector. -/
  | dissect (d : Dissector)
  /-- Payloads fail decoding. -/
  | refuse

/-- What becomes of a payload. -/
inductive Verdict where
  /-- It is decoded by a dissector. -/
  | dissect (d : Dissector)
  /-- It fails decoding. -/
  | refuse
  /-- It stays bytes. -/
  | keep

/-- A dispatch table from discriminants to dissectors. -/
structure Registry where
  /-- Instructions, latest first. -/
  instructions : List (Discriminant × Instruction)
  /-- Number spaces in which every discriminant has to be known. -/
  strict : List NumberSpace

namespace Registry

/-- No instructions: every payload stays bytes. -/
def empty : Registry := ⟨[], []⟩

/-- Decode payloads announced by a discriminant. -/
def register (r : Registry) (d : Discriminant) (l : Dissector) : Registry :=
  { r with instructions := (d, .dissect l) :: r.instructions }

/-- Fail decoding of payloads announced by a discriminant. -/
def markUnimplemented (r : Registry) (d : Discriminant) : Registry :=
  { r with instructions := (d, .refuse) :: r.instructions }

/-- Require every discriminant of a number space to be known. -/
def requireKnown (r : Registry) (space : NumberSpace) : Registry :=
  { r with strict := space :: r.strict }

/-- The dissector that a discriminant stands for. -/
def lookup? (r : Registry) (d : Discriminant) : Option Dissector :=
  match r.instructions.lookup d with
  | some (.dissect l) => some l
  | _ => none

/-- What becomes of payloads announced by a discriminant. -/
def resolve (r : Registry) (d : Discriminant) : Verdict :=
  match r.instructions.lookup d with
  | some (.dissect l) => .dissect l
  | some .refuse => .refuse
  | none => if r.strict.contains d.space then .refuse else .keep

end Registry

end PacketLayers
