/-
  PacketLayers.Transport.Tcp.Option
  ────────────────────────────────
  **TCP OPTIONS.**

  An option is a single byte, or a kind, a length that counts both, and data:

      0                 end of list
      1                 no operation
      2 4 size          maximum segment size
      3 3 shift         window scale
      4 2               selective acknowledgement permitted
      5 n blocks        selective acknowledgement, up to three blocks kept
      k n data          any other kind

  `Item.parse` takes one option off the front, `Item.emit` writes one, and
  `Item.list` reads options until the end of list, the end of the bytes or an
  error.
-/
import PacketLayers.Bytes.Basic

namespace PacketLayers.Tcp

/-- A range of bytes that arrived out of order. -/
structure SackBlock where
  /-- The first byte. -/
  left : UInt32
  /-- The byte after the last. -/
  right : UInt32
  deriving DecidableEq, Repr

/-- One option. -/
inductive Item where
  | endOfList
  | noOperation
  | maxSegmentSize (size : UInt16)
  | windowScale (shift : UInt8)
  | sackPermitted
  /-- Up to three blocks. -/
  | sackRange (first second third : Option SackBlock)
  | unknown (kind : UInt8) (data : Bytes)
  deriving DecidableEq

namespace Item

/-! ## §1. Writing. -/

/-- A block as eight bytes. -/
def blockBytes (b : SackBlock) : Bytes :=
  Bytes.ofNat 4 b.left.toNat ++ Bytes.ofNat 4 b.right.toNat

/-- The blocks of a selective acknowledgement that are there. -/
def presentBlocks (first second third : Option SackBlock) : List SackBlock :=
  [first, second, third].filterMap id

/-- An option with kind and length in front of its data. -/
def framed (kind : UInt8) (data : Bytes) : Bytes :=
  kind :: UInt8.ofNat (data.length + 2) :: data

/-- The bytes of an option. -/
def encode : Item → Bytes
  | endOfList => [0]
  | noOperation => [1]
  | maxSegmentSize size => framed 2 (Bytes.ofNat 2 size.toNat)
  | windowScale shift => framed 3 [shift]
  | sackPermitted => framed 4 []
  | sackRange first second third =>
    framed 5 ((presentBlocks first second third).flatMap blockBytes)
  | unknown kind data => framed kind data

/-- The number of bytes of an option. -/
def size : Item → Nat
  | endOfList => 1
  | noOperation => 1
  | maxSegmentSize _ => 4
  | windowScale _ => 3
  | sackPermitted => 2
  | sackRange first second third => (presentBlocks first second third).length * 8 + 2
  | unknown _ data => 2 + data.length

/-- The number of bytes of options one behind the other. -/
def totalSize : List Item → Nat
  | [] => 0
  | o :: rest => o.size + totalSize rest

theorem length_flatMap_blockBytes (bs : List SackBlock) :
    (bs.flatMap blockBytes).length = bs.length * 8 := by
  induction bs with
  | nil => rfl
  | cons b bs ih =>
    simp only [List.flatMap_cons, List.length_append, ih, blockBytes, Bytes.length_ofNat,
      List.length_cons]
    omega

theorem length_encode (o : Item) : o.encode.length = o.size := by
  cases o with
  | sackRange first second third =>
    simp only [encode, size, framed, List.length_cons, length_flatMap_blockBytes]
  | unknown kind data => simp [encode, size, framed]; omega
  | _ => rfl

/-- Write an option to the front of a buffer; the second part of the answer is
what remains behind it.  The end of list also clears what remains. -/
def emit (o : Item) (buffer : Bytes) : Access (Bytes × Bytes) :=
  match o with
  | endOfList =>
    .ok (List.replicate (min 1 buffer.length) 0, List.replicate (buffer.length - 1) 0)
  | _ =>
    if o.size ≤ buffer.length then .ok (o.encode, buffer.drop o.size)
    else .error .outOfRange

/-- Write options one behind the other and end the list if there is room. -/
def emitAll : List Item → Bytes → Access Bytes
  | [], buffer => .ok (List.replicate buffer.length 0)
  | o :: rest, buffer => do
    let (front, remaining) ← o.emit buffer
    return front ++ (← emitAll rest remaining)

/-! ## §2. Reading. -/

/-- Consecutive blocks of eight bytes; fewer bytes at the end are dropped. -/
def blocksOf : Bytes → List SackBlock
  | a :: b :: c :: d :: e :: f :: g :: h :: rest =>
    ⟨UInt32.ofNat (Bytes.toNat [a, b, c, d]), UInt32.ofNat (Bytes.toNat [e, f, g, h])⟩
      :: blocksOf rest
  | _ => []

/-- The option of some kind with some data behind its length. -/
def ofParts (kind : UInt8) (data : Bytes) : Except Error Item :=
  if kind = 2 then
    if data.length = 2 then .ok (.maxSegmentSize (UInt16.ofNat (Bytes.toNat data)))
    else .error .malformed
  else if kind = 3 then
    match data with
    | [shift] => .ok (.windowScale shift)
    | _ => .error .malformed
  else if kind = 4 then
    if data.isEmpty then .ok .sackPermitted else .error .malformed
  else if kind = 5 then
    if data.length < 8 ∨ data.length % 8 ≠ 0 then .error .malformed
    else
      let blocks := blocksOf data
      .ok (.sackRange blocks[0]? blocks[1]? blocks[2]?)
  else .ok (.unknown kind data)

/-- Take one option off the front; the second part of the answer is the
rest. -/
def parse : Bytes → Except Error (Item × Bytes)
  | [] => .error .truncated
  | kind :: tail =>
    if kind = 0 then .ok (.endOfList, tail)
    else if kind = 1 then .ok (.noOperation, tail)
    else
      match tail with
      | [] => .error .truncated
      | length :: body =>
        let size := length.toNat - 2
        if length.toNat < 2 ∨ body.length < size then .error .truncated
        else (ofParts kind (body.take size)).map fun o => (o, body.drop size)

/-- What taking options off the front gives, at most `fuel` of them. -/
def listUpTo : (fuel : Nat) → Bytes → List (Except Error Item)
  | 0, _ => []
  | _ + 1, [] => []
  | fuel + 1, b =>
    match parse b with
    | .error e => [.error e]
    | .ok (.endOfList, _) => []
    | .ok (o, rest) => .ok o :: listUpTo fuel rest

/-- The options in some bytes, up to the end of list; an error ends them. -/
def list (b : Bytes) : List (Except Error Item) := listUpTo b.length b

end Item

end PacketLayers.Tcp
