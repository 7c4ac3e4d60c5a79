/-
  PacketLayers.Report.Request
  ────────────────────────────────
  **WHAT A COMMAND LINE ASKS FOR.**

      [--link <type>] [--fcs] <hex>...

  The link type is a number, given as `--link N`, `--link=N`, `-l N`, `-lN` or
  `-l=N`; without the option, or with an option that no value follows, it is
  Ethernet.  Everything that is no option is a part of the frame, and behind
  `--` nothing is an option.  Each option is given at most once.

  A long option may have more than two hyphens, a value that `--fcs` is given
  is ignored, and all `=` in front of a value belong to the sign.
-/
import PacketLayers.Assigned.LinkType
import PacketLayers.Text.Blank
import PacketLayers.Text.Number

namespace PacketLayers.Report

/-! ## §1. Requests. -/

/-- A frame to take apart. -/
structure Request where
  /-- What the frame begins with, if it is said. -/
  link : Option LinkType
  /-- Whether the frame ends in a frame check sequence. -/
  hasFcs : Bool
  /-- The frame in hexadecimal digits. -/
  digits : List Char

/-- Why a command line is not understood. -/
inductive Request.Problem where
  /-- There is no such option. -/
  | unknownOption
  /-- An option is given twice. -/
  | repeatedOption
  /-- The value of the link type is no number, or too large. -/
  | linkType
  /-- The frame is not made of pairs of hexadecimal digits. -/
  | digits
  deriving DecidableEq, Repr

/-- The sentence shown for a command line that is not understood. -/
def Request.Problem.message : Request.Problem → String
  | unknownOption => "unknown option"
  | repeatedOption => "repeated option"
  | linkType => "invalid link type"
  | digits => "invalid hex digits"

namespace Request

/-- Nothing asked for yet. -/
def blank : Request := ⟨none, false, []⟩

/-! ## §2. Reading arguments. -/

/-- A link type as its decimal number, with at most one `+` before it. -/
def linkType? (cs : List Char) : Option LinkType :=
  let digits := match cs with
    | '+' :: rest => rest
    | _ => cs
  match Text.decimalNumber? digits with
  | some n => if n < UInt32.size then some (Assigned.ofCode (UInt32.ofNat n)) else none
  | none => none

/-- Set the link type; an option without a value stands for Ethernet. -/
def withLink (r : Request) (value : Option (List Char)) : Except Problem Request :=
  match r.link, value with
  | some _, _ => .error .repeatedOption
  | none, none => .ok { r with link := some .ethernet }
  | none, some text =>
    match linkType? text with
    | some type => .ok { r with link := some type }
    | none => .error .linkType

/-- Ask for the frame check sequence. -/
def withFcs (r : Request) : Except Problem Request :=
  if r.hasFcs then .error .repeatedOption else .ok { r with hasFcs := true }

/-- Add a part of the frame. -/
def withDigits (r : Request) (part : List Char) : Request :=
  { r with digits := r.digits ++ part }

/-- What one argument is. -/
inductive Argument where
  /-- Behind it nothing is an option. -/
  | endOfOptions
  | fcs
  /-- The link type, in the next argument unless it is in this one. -/
  | link (value : Option (List Char))
  /-- A part of the frame, or the value of an option before it. -/
  | plain (text : List Char)
  /-- An option that there is not. -/
  | unknown
  deriving DecidableEq

/-- The name of a long option, and what stands behind the first `=`. -/
def splitValue : List Char → List Char × Option (List Char)
  | [] => ([], none)
  | c :: rest =>
    if c = '=' then ([], some rest)
    else
      let (name, value) := splitValue rest
      (c :: name, value)

/-- A value without the `=` in front of it. -/
def bareValue (text : List Char) : List Char := text.dropWhile (· == '=')

/-- The option of some name, with its value if one is given. -/
def ofName (name : List Char) (value : Option (List Char)) : Argument :=
  if name = ['l', 'i', 'n', 'k'] then .link (value.map bareValue)
  else if name = ['f', 'c', 's'] then .fcs
  else .unknown

/-- Tell options and plain arguments apart. -/
def classify : List Char → Argument
  | ['-', '-'] => .endOfOptions
  | '-' :: '-' :: text =>
    let (name, value) := splitValue (text.dropWhile (· == '-'))
    ofName name value
  | ['-', 'l'] => .link none
  | '-' :: 'l' :: value => .link (some (bareValue value))
  | '-' :: _ :: _ => .unknown
  | text => .plain text

/-- Tell options and plain arguments apart, up to the end of options. -/
def classifyAll : List (List Char) → List Argument
  | [] => []
  | argument :: rest =>
    match classify argument with
    | .endOfOptions => .endOfOptions :: rest.map .plain
    | a => a :: classifyAll rest

/-- Take the arguments over one after the other. -/
def withArguments (r : Request) : List Argument → Except Problem Request
  | [] => .ok r
  | .link none :: .plain value :: rest => do (← r.withLink (some value)).withArguments rest
  | .link value :: rest => do (← r.withLink value).withArguments rest
  | .fcs :: rest => do (← r.withFcs).withArguments rest
  | .plain part :: rest => (r.withDigits part).withArguments rest
  | .endOfOptions :: rest => r.withArguments rest
  | .unknown :: _ => .error .unknownOption

/-- The request that arguments make. -/
def ofArguments (arguments : List String) : Except Problem Request :=
  blank.withArguments (classifyAll (arguments.map String.toList))

/-- The link type, Ethernet unless another one is said. -/
def linkType (r : Request) : LinkType := r.link.getD .ethernet

/-- The bytes of the frame; blanks between the digits do not matter. -/
def frame (r : Request) : Except Problem Bytes :=
  match Text.hexBytes? (Text.dropBlanks r.digits) with
  | some b => .ok b
  | none => .error .digits

end Request

end PacketLayers.Report
