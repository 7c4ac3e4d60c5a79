/-
  PacketLayers.Address.Ethernet
  ────────────────────────────────
  **ETHERNET ADDRESSES AND THEIR TEXT.**

  An address is written as six pairs of hexadecimal digits with `-` between
  them, and read from six hexadecimal numbers with `:` between them; each
  number may have one leading `+` and any number of leading zeros.
-/
import PacketLayers.Bytes.Octets
import PacketLayers.Text.Number

namespace PacketLayers

/-- A six octet Ethernet address. -/
abbrev EthernetAddress := Octets 6

namespace EthernetAddress

/-! ## §1. Classes of addresses. -/

/-- The address of all zeros. -/
def unspecified : EthernetAddress := .all 6 0

/-- The address of every station. -/
def broadcast : EthernetAddress := .all 6 0xff

def isBroadcast (a : EthernetAddress) : Bool := a == broadcast

/-- The group bit of the first octet is set. -/
def isMulticast (a : EthernetAddress) : Bool := a.get 0 &&& 0x01 != 0

/-- The locally administered bit of the first octet is set. -/
def isLocal (a : EthernetAddress) : Bool := a.get 0 &&& 0x02 != 0

def isUnicast (a : EthernetAddress) : Bool := !(isBroadcast a || isMulticast a)

/-! ## §2. Writing. -/

/-- The characters of an address. -/
def chars (a : EthernetAddress) : List Char :=
  Text.joined ['-'] (a.bytes.map fun x => Text.hexPadded 2 x.toNat)

/-- An address in text. -/
def text (a : EthernetAddress) : String := String.ofList (chars a)

/-! ## §3. Reading. -/

/-- Why a text is no address. -/
inductive ParseError where
  /-- A component is no hexadecimal number below 256. -/
  | component
  /-- There are not six components. -/
  | separator
  deriving DecidableEq, Repr

/-- The sentence shown for a text that is no address. -/
def ParseError.message : ParseError → String
  | .component => "invalid ethernet component"
  | .separator => "unexpected number of ethernet address components (should be 6)"

/-- A component as a byte. -/
def component? (digits : List Char) : Option UInt8 :=
  let digits := match digits with
    | '+' :: rest => rest
    | _ => digits
  match Text.hexNumber? digits with
  | some n => if n < 256 then some (UInt8.ofNat n) else none
  | none => none

/-- Read exactly `n` components; they are looked at in order and the first
that is wrong or missing decides. -/
def components : (n : Nat) → List (List Char) → Except ParseError Bytes
  | 0, [] => .ok []
  | 0, _ :: _ => .error .separator
  | _ + 1, [] => .error .separator
  | n + 1, part :: parts =>
    match component? part with
    | none => .error .component
    | some x => (components n parts).map (x :: ·)

theorem length_of_components {n : Nat} {parts : List (List Char)} {b : Bytes}
    (h : components n parts = .ok b) : b.length = n := by
  induction n generalizing parts b with
  | zero => cases parts <;> simp_all [components]
  | succ n ih =>
    cases parts with
    | nil => simp [components] at h
    | cons part parts =>
      simp only [components] at h
      cases hp : component? part with
      | none => simp [hp] at h
      | some x =>
        cases hr : components n parts with
        | error e => simp [hp, hr, Except.map] at h
        | ok r =>
          simp only [hp, hr, Except.map, Except.ok.injEq] at h
          subst h
          simp [ih hr]

/-- The address that a list of characters spells. -/
def ofChars (cs : List Char) : Except ParseError EthernetAddress :=
  match h : components 6 (Text.splitOn ':' cs) with
  | .ok b => .ok ⟨b, length_of_components h⟩
  | .error e => .error e

/-- The address that a text spells. -/
def parse (s : String) : Except ParseError EthernetAddress := ofChars s.toList

end EthernetAddress

end PacketLayers
