/-
  PacketLayers.Packet.Region
  ────────────────────────────────
  **RUNS OF BYTES, SHARED WITH AN ARENA OR OWNED.**

  The bytes of a packet live in one arena.  A region is either a span of the
  arena or, after a change of length, a buffer of its own.  Consecutive
  regions that share one unbroken run of the arena need not be copied to be
  read: `contiguous` finds that run and `joined` uses it.
-/
import PacketLayers.Bytes.Span

namespace PacketLayers

/-- A run of bytes of a packet. -/
inductive Region where
  /-- A part of the arena. -/
  | shared (span : Span)
  /-- Bytes of its own. -/
  | owned (bytes : Bytes)
  deriving DecidableEq

namespace Region

/-! ## §1. One region. -/

/-- No bytes. -/
def empty : Region := .owned []

/-- The number of bytes. -/
def length : Region → Nat
  | shared s => s.length
  | owned b => b.length

/-- Whether there are no bytes. -/
def isEmpty (r : Region) : Bool := r.length == 0

/-- The part of the arena that the region shares. -/
def span? : Region → Option Span
  | shared s => some s
  | owned _ => none

/-- The bytes; a span that the arena does not hold has none. -/
def bytes (arena : Bytes) : Region → Bytes
  | shared s => if s.stop ≤ arena.length then s.bytesOf arena else []
  | owned b => b

/-- Replace the bytes by as many new ones, where they are. -/
def store (arena : Bytes) (r : Region) (new : Bytes) : Access (Bytes × Region) :=
  if new.length ≠ (r.bytes arena).length then .error .lengthMismatch
  else
    match r with
    | shared s =>
      if s.stop ≤ arena.length then
        .ok (arena.take s.offset ++ new ++ arena.drop (s.offset + new.length), shared s)
      else .ok (arena, shared s)
    | owned _ => .ok (arena, owned new)

/-- The same bytes in a buffer of their own. -/
def detach (arena : Bytes) (r : Region) : Region := .owned (r.bytes arena)

/-- Change the number of bytes, with zeros for new ones.  A region whose
length changes gets a buffer of its own. -/
def resize (arena : Bytes) (r : Region) (size : Nat) : Region :=
  if size = r.length then r else .owned ((r.bytes arena).resize size)

/-! ## §2. Consecutive regions. -/

/-- The run that starts with a span and goes on through regions, each
beginning where the one before ends.  Empty regions do not matter. -/
def contiguousFrom (covered : Span) : List Region → Option Span
  | [] => some covered
  | r :: rest =>
    if r.isEmpty then contiguousFrom covered rest
    else
      match r.span? with
      | none => none
      | some s =>
        if covered.stop = s.offset then
          contiguousFrom ⟨covered.offset, covered.length + s.length⟩ rest
        else none

/-- The run of the arena that regions share without a gap. -/
def contiguous : List Region → Option Span
  | [] => some ⟨0, 0⟩
  | r :: rest =>
    if r.isEmpty then contiguous rest
    else
      match r.span? with
      | none => none
      | some s => contiguousFrom s rest

/-- The bytes of regions one after the other, each looked up by itself. -/
def concat (arena : Bytes) (rs : List Region) : Bytes := rs.flatMap (·.bytes arena)

/-- The bytes of consecutive regions, read in one piece where they share one
run of the arena. -/
def joined (arena : Bytes) (rs : List Region) : Bytes :=
  match contiguous rs with
  | some s => (shared s).bytes arena
  | none => concat arena rs

/-- The number of bytes of regions. -/
def totalLength : List Region → Nat
  | [] => 0
  | r :: rest => r.length + totalLength rest

end Region

end PacketLayers
