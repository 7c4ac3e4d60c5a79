/-
  PacketLayers.Network.Gre
  ────────────────────────────────
  **GENERIC ROUTING ENCAPSULATION.**

      0      1        2         4
      flags  version  protocol  checksum? key? sequence? payload …

  Three flags of the first byte say which of the optional words follow; each
  word has four bytes.  The checksum covers header and payload.
-/
import PacketLayers.Layer.Dissector

namespace PacketLayers.Gre

/-! ## §1. Layout. -/

/-- The length of a header without optional words. -/
def minHeaderLength : Nat := 4

namespace Layout

def flags : Field UInt8 := .word UInt8 0 1
def hasChecksum : Field Bool := .bits Bool 0 1 7 1
def hasKey : Field Bool := .bits Bool 0 1 5 1
def hasSequence : Field Bool := .bits Bool 0 1 4 1
/-- The low three bits of the second byte; writing clears the others. -/
def version : Field UInt8 := (Field.word UInt8 1 1).map (· &&& 0x07) (· &&& 0x07)
def protocol : Field EtherType := .word EtherType 2 2
/-- The checksum word with the reserved half behind it. -/
def checksumWord : Field UInt32 := .word UInt32 4 4

end Layout

/-- The optional words of a header. -/
inductive OptionalWord where
  | checksum
  | key
  | sequence
  deriving DecidableEq, Repr

/-- The flag that says a word is there. -/
def OptionalWord.flag : OptionalWord → UInt8
  | checksum => 0x80
  | key => 0x20
  | sequence => 0x10

/-- Whether the flags say that a word is there. -/
def OptionalWord.isIn (w : OptionalWord) (flags : UInt8) : Bool := flags &&& w.flag != 0

/-- Four bytes for a word that is there, none otherwise. -/
def roomFor (present : Bool) : Nat := if present then 4 else 0

/-- The header length that the flags ask for. -/
def lengthOf (flags : UInt8) : Nat :=
  minHeaderLength + roomFor (OptionalWord.checksum.isIn flags)
    + roomFor (OptionalWord.key.isIn flags) + roomFor (OptionalWord.sequence.isIn flags)

/-- The first byte of a word, behind the words in front of it. -/
def OptionalWord.start (flags : UInt8) : OptionalWord → Nat
  | checksum => minHeaderLength
  | key => minHeaderLength + roomFor (OptionalWord.checksum.isIn flags)
  | sequence =>
    minHeaderLength + roomFor (OptionalWord.checksum.isIn flags)
      + roomFor (OptionalWord.key.isIn flags)

/-- The length that a header asks for. -/
def headerLength (h : Bytes) : Access Nat := do
  return lengthOf (← Layout.flags.get h)

/-- The length that a header asks for, if it has a first byte. -/
def headerLength? : Bytes → Option Nat
  | flags :: _ => some (lengthOf flags)
  | [] => none

/-- The header format. -/
def format : HeaderFormat where
  kind := .gre
  check h :=
    if h.length < minHeaderLength then .error .truncated
    else if h.length < (headerLength? h).getD 0 then .error .truncated
    else .ok ()

/-! ## §2. The optional words. -/

/-- Where a word lives in a header that has it; the checksum takes the first
half of its word. -/
def wordField? {α : Type} [Coded α] (w : OptionalWord) (size : Nat) (h : Bytes) :
    Access (Option (Field α)) := do
  let flags ← Layout.flags.get h
  return if w.isIn flags then some (.word α (w.start flags) size) else none

/-- A word of a header, if it is there. -/
def getWord? {α : Type} [Coded α] (w : OptionalWord) (size : Nat) (h : Bytes) :
    Access (Option α) := do
  match ← wordField? (α := α) w size h with
  | some f => return some (← f.get h)
  | none => return none

/-- Write a word, if it is there. -/
def setWord {α : Type} [Coded α] (w : OptionalWord) (size : Nat) (value : α) (h : Bytes) :
    Access Bytes := do
  match ← wordField? w size h with
  | some f => f.set value h
  | none => return h

/-- The checksum. -/
def checksum? (h : Bytes) : Access (Option UInt16) := getWord? .checksum 2 h

/-- The key. -/
def key? (h : Bytes) : Access (Option UInt32) := getWord? .key 4 h

/-- The sequence number. -/
def sequence? (h : Bytes) : Access (Option UInt32) := getWord? .sequence 4 h

/-- Write the checksum. -/
def setChecksum (value : UInt16) (h : Bytes) : Access Bytes := setWord .checksum 2 value h

/-- Write the key. -/
def setKey (value : UInt32) (h : Bytes) : Access Bytes := setWord .key 4 value h

/-- Write the sequence number. -/
def setSequence (value : UInt32) (h : Bytes) : Access Bytes := setWord .sequence 4 value h

/-- The flags that say which words are there. -/
def flagsOf (checksum key sequence : Bool) : UInt8 :=
  (if checksum then OptionalWord.checksum.flag else 0)
    ||| (if key then OptionalWord.key.flag else 0)
    ||| (if sequence then OptionalWord.sequence.flag else 0)

/-- Say which words are there; the header has to be resized to match. -/
def setPresent (checksum key sequence : Bool) (h : Bytes) : Access Bytes :=
  Layout.flags.set (flagsOf checksum key sequence) h

/-! ## §3. Contents. -/

/-- The contents of a header. -/
structure Header where
  protocol : EtherType
  /-- Whether there is a checksum; its value is derived. -/
  checksum : Bool
  key : Option UInt32
  sequence : Option UInt32
  deriving DecidableEq

namespace Header

/-- Read every field of a header. -/
def read (h : Bytes) : Access Header := do
  return ⟨← Layout.protocol.get h, ← Layout.hasChecksum.get h, ← key? h, ← sequence? h⟩

/-- The contents of a header of version zero. -/
def parse (h : Bytes) : Except Error Header := do
  format.check h
  if Layout.version.value h ≠ 0 then throw .unrecognized
  format.reading h (read h)

/-- The length of the header written for the contents. -/
def size (r : Header) : Nat :=
  minHeaderLength + roomFor r.checksum + roomFor r.key.isSome + roomFor r.sequence.isSome

/-- Write the contents over a header; the checksum becomes zero. -/
def emit (r : Header) (h : Bytes) : Access Bytes := do
  let h ← setPresent r.checksum r.key.isSome r.sequence.isSome h
    >>= Layout.version.set 0
    >>= Layout.protocol.set r.protocol
  let h ← if r.checksum then Layout.checksumWord.set 0 h else pure h
  let h ← match r.key with
    | some key => setKey key h
    | none => pure h
  match r.sequence with
  | some sequence => setSequence sequence h
  | none => return h

/-- The contents in text for readers. -/
def text (r : Header) : String :=
  let key := match r.key with
    | some key => " key=" ++ toString key
    | none => ""
  let sequence := match r.sequence with
    | some sequence => " seq=" ++ toString sequence
    | none => ""
  "GRE type=" ++ r.protocol.text ++ key ++ sequence

end Header

/-! ## §4. Behaviour as a layer. -/

/-- The length of an accepted header. -/
def dissectedLength (h : Bytes) : Except Error Nat := do
  format.check h
  return (headerLength? h).getD 0

/-- The protocol that a header states. -/
def next (h : Bytes) : Access (Option Discriminant) :=
  format.guarded h none do
    return some (.etherType (← Layout.protocol.get h))

/-- Write the protocol of the payload. -/
def setNext (h : Bytes) : Discriminant → Access Bytes
  | .etherType type => format.guarded h h (Layout.protocol.set type h)
  | _ => .ok h

/-- The sum over header and payload. -/
def sum (h payload : Bytes) : UInt16 := Checksum.upperLayer none .gre h payload

/-- Fill the checksum of a header that has one. -/
def recompute (h : Bytes) (cx : Context) : Access Bytes :=
  format.guarded h h do
    if cx.mode = .fill && (← Layout.hasChecksum.get h) then
      let h ← setChecksum 0 h
      setChecksum (~~~ sum h cx.payload) h
    else return h

/-- Whether the checksum holds, of a header that has one. -/
def checksumValid (h : Bytes) (cx : Context) : Access (Option Bool) :=
  format.guarded h none do
    return if ← Layout.hasChecksum.get h then some (sum h cx.payload == 0xffff) else none

/-- GRE as a layer of a packet. -/
def dissector : Dissector where
  kind := .gre
  headerLength := dissectedLength
  next h _ := next h
  discriminantOf kind := (EtherType.ofKind kind).map .etherType
  setNext := setNext
  defaultHeader := List.replicate minHeaderLength 0
  requiredLength h := .ok (some ((headerLength? h).getD minHeaderLength))
  recompute := recompute
  checksumValid := checksumValid

instance : WireHeader Header where
  dissector := dissector
  parse := Header.parse
  size := Header.size
  emit := Header.emit
  text := Header.text

end PacketLayers.Gre
