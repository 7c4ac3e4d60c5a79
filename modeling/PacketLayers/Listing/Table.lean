/-
  PacketLayers.Listing.Table
  ────────────────────────────────
  **FIELDS AND CONTENTS OF HEADERS BY NAME.**

  A `Table` is what a listing knows of one protocol: the fields of its header
  with their names, and how the contents of a header are taken apart into
  named parts and put together from them.  A `Form` does the latter for one
  type; the table forgets the type and keeps what can be done with a value of
  it.
-/
import PacketLayers.Layer.Dissector
import PacketLayers.Listing.Value
import PacketLayers.Packet.Basic

namespace PacketLayers.Listing

variable {α β γ ρ : Type}

/-! ## §1. Fields. -/

/-- A field of a header under its name. -/
structure NamedField where
  name : String
  /-- What is in the field. -/
  get : Bytes → Access Value
  /-- The header with a value put into the field, if the value is of the right
  sort and the field can be written. -/
  set : Value → Bytes → Option (Access Bytes)

namespace NamedField

/-- A field that is read and written through functions of its own. -/
def both [Listable α] [Listable β] (name : String) (get : Bytes → Access α)
    (set : β → Bytes → Access Bytes) : NamedField where
  name := name
  get h := do return toValue (← get h)
  set v h := (ofValue? v).map fun b => set b h

/-- A field of a layout. -/
def of [Listable α] (name : String) (f : Field α) : NamedField := both name f.get f.set

/-- A field that follows from others. -/
def derived [Listable α] (name : String) (get : Bytes → Access α) : NamedField where
  name := name
  get h := do return toValue (← get h)
  set _ _ := none

end NamedField

/-! ## §2. Contents. -/

/-- How the values of `ρ` are taken apart into named parts, of which those so
far make a `γ`. -/
structure Form (ρ γ : Type) where
  /-- The parts of a value. -/
  parts : ρ → List (String × Value)
  /-- What parts make, if they are of the right sorts. -/
  make : (String → Value) → Option γ

namespace Form

/-- No parts yet. -/
def of (make : γ) : Form ρ γ := ⟨fun _ => [], fun _ => some make⟩

/-- One part more. -/
def part [Listable α] (f : Form ρ (α → γ)) (name : String) (get : ρ → α) : Form ρ γ where
  parts r := f.parts r ++ [(name, toValue (get r))]
  make v := do return (← f.make v) (← ofValue? (v name))

/-- The part of some name. -/
def ask [Listable α] (v : String → Value) (name : String) : Option α := ofValue? (v name)

end Form

/-- The contents of a header, of whatever type. -/
structure Contents where
  /-- The parts under their names. -/
  parts : List (String × Value)
  /-- The contents in text for readers, if the protocol has one. -/
  text : Option String
  /-- The length of the header written for them. -/
  size : Nat
  /-- Write them over a header. -/
  emit : ChecksumMode → Bytes → Access (Except Error Bytes)
  /-- A packet of one layer with the header written for them. -/
  packet : Access Packet

/-- The contents that a header value has. -/
def Contents.ofHeader [WireHeader α] (form : Form α α)
    (emit : ChecksumMode → α → Bytes → Access Bytes) (r : α) : Contents where
  parts := form.parts r
  text := some (WireHeader.text r)
  size := WireHeader.size r
  emit mode h := do return .ok (← emit mode r h)
  packet := Packet.ofContents r

/-! ## §3. Tables. -/

/-- What a listing knows of one protocol. -/
structure Table where
  name : String
  /-- When the fields may be read. -/
  format : HeaderFormat
  fields : List NamedField
  /-- The contents of a header. -/
  parse : Bytes → Except Error Contents
  /-- The contents that parts make. -/
  make : (String → Value) → Option Contents

namespace Table

/-- The table of a protocol whose contents are of some type. -/
def of [WireHeader α] (name : String) (format : HeaderFormat) (fields : List NamedField)
    (form : Form α α)
    (emit : ChecksumMode → α → Bytes → Access Bytes := fun _ => WireHeader.emit) : Table where
  name := name
  format := format
  fields := fields
  parse h := (WireHeader.parse h).map (Contents.ofHeader form emit)
  make v := (form.make v).map (Contents.ofHeader form emit)

/-- What is in every field of a header. -/
def values (t : Table) (h : Bytes) : Access (List (String × Value)) :=
  t.fields.mapM fun f => do return (f.name, ← f.get h)

/-- The header with a value put into the field of some name. -/
def set? (t : Table) (name : String) (v : Value) (h : Bytes) : Option (Access Bytes) := do
  (← t.fields.find? (·.name == name)).set v h

end Table

end PacketLayers.Listing
