/-
  PacketLayers.Proofs.OnesComplement
  ────────────────────────────────
  **THE INTERNET CHECKSUM IS THE ONES'-COMPLEMENT SUM.**

  Sums are added up in a type of some width, in chunks, and narrowed twice.
  Here they are added up once more with every addition checked: none of them
  ever needs more room than its type has, and what comes out is the one number
  from 1 to 65535 that the sum is modulo 65535, or zero for a sum of nothing.
  Parts may be summed apart, as long as none but the last one ends inside a
  word.

    • `data?`, `combine?` — the sums, with checked additions;
    • `addChunks?_eq` — chunks add the same words in the same order;
    • `data?_eq`, `combine?_eq` — no addition overflows;
    • `combine_map_data` — the sums of the parts make the sum of the whole;
    • `data_onesComplement` — all of it.
-/
import PacketLayers.Proofs.Checksum

namespace PacketLayers.Checksum

/-! ## §1. Additions that are checked. -/

/-- The sum of two numbers of some type, if the type has room for it. -/
def add? {α : Type} [Add α] (toNat : α → Nat) (a b : α) : Option α :=
  if toNat (a + b) = toNat a + toNat b then some (a + b) else none

/-- The carries of a 64 bit sum folded into 32 bits, if no addition overflows
and nothing is lost when the sum is narrowed. -/
def fold64? (sum : UInt64) : Option UInt32 := do
  let once ← add? UInt64.toNat (sum >>> 32) (sum &&& 0xffffffff)
  let twice ← add? UInt64.toNat (once >>> 32) (once &&& 0xffffffff)
  if twice.toUInt32.toUInt64 = twice then some twice.toUInt32 else none

/-- The carries of a 32 bit sum folded into 16 bits, if no addition
overflows. -/
def fold32? (sum : UInt32) : Option UInt16 := do
  let once ← add? UInt32.toNat (sum >>> 16) (sum &&& 0xffff)
  add? UInt16.toNat (once >>> 16).toUInt16 once.toUInt16

/-- The words of a byte string added to a sum, if no addition overflows. -/
def addWords? (sum : UInt64) : Bytes → Option UInt64
  | hi :: lo :: rest => do
    addWords? (← add? UInt64.toNat sum ((hi.toUInt64 <<< 8) + lo.toUInt64)) rest
  | [hi] => add? UInt64.toNat sum (hi.toUInt64 <<< 8)
  | [] => some sum

/-- The number of bytes that are added in one go. -/
def chunkLength : Nat := 32

/-- The words of a byte string added chunk by chunk, and then those of what is
left. -/
def addChunks? (sum : UInt64) (b : Bytes) : Option UInt64 :=
  if chunkLength ≤ b.length then do
    addChunks? (← addWords? sum (b.take chunkLength)) (b.drop chunkLength)
  else addWords? sum b
termination_by b.length
decreasing_by
  rw [List.length_drop]
  unfold chunkLength at *
  omega

/-- The sum of a byte string, if no addition overflows. -/
def data? (b : Bytes) : Option UInt16 := do
  fold32? (← fold64? (← addChunks? 0 b))

/-- The sum of several sums, if no addition overflows. -/
def combine? (sums : List UInt16) : Option UInt16 := do
  fold32? (← sums.foldlM (fun acc s => add? UInt32.toNat acc s.toUInt32) 0)

theorem add?_eq {α : Type} [Add α] {toNat : α → Nat} {a b : α}
    (room : toNat (a + b) = toNat a + toNat b) : add? toNat a b = some (a + b) := if_pos room

example : add? UInt16.toNat 0xffff 1 = none := by decide

/-! ## §2. Folding never overflows. -/

theorem fold64?_eq (s : UInt64) : fold64? s = some (fold64 s) := by
  have hs := s.toNat_lt
  obtain ⟨hhigh, hlow, honce⟩ := toNat_halves64 s
  obtain ⟨hhigh', hlow', htwice⟩ := toNat_halves64 ((s >>> 32) + (s &&& 0xffffffff))
  unfold fold64? fold64
  rw [add?_eq (by rw [honce, hhigh, hlow]), Option.bind_eq_bind, Option.bind_some,
    add?_eq (by rw [htwice, hhigh', hlow']), Option.bind_some]
  -- no carry is left, so 32 bits are enough
  refine if_pos (UInt64.toNat_inj.1 ?_)
  rw [UInt32.toNat_toUInt64, UInt64.toNat_toUInt32, htwice, honce]
  omega

theorem fold32?_eq (s : UInt32) : fold32? s = some (fold32 s) := by
  have hs := s.toNat_lt
  obtain ⟨hhigh, hlow, honce⟩ := toNat_halves32 s
  obtain ⟨hhigh', _, _⟩ := toNat_halves32 ((s >>> 16) + (s &&& 0xffff))
  unfold fold32? fold32
  rw [add?_eq (by rw [honce, hhigh, hlow]), Option.bind_eq_bind, Option.bind_some]
  -- at most one carry, and then the half below is not all ones
  have hbound : ((s >>> 16) + (s &&& 0xffff)).toNat ≤ 131070 := by omega
  refine add?_eq ?_
  rw [UInt16.toNat_add, UInt32.toNat_toUInt16, UInt32.toNat_toUInt16, hhigh']
  generalize ((s >>> 16) + (s &&& 0xffff)).toNat = once at hbound
  omega

/-! ## §3. Adding up words. -/

/-- The words of a byte string are added without an overflow if there is room
for all of them. -/
theorem addWords?_eq (b : Bytes) :
    ∀ s : UInt64, s.toNat + wordSum b < 2 ^ 64 → addWords? s b = some (addWords s b) := by
  -- the room that is left for the words behind is kept free
  induction b using wordSum.induct with
  | case1 hi lo rest ih =>
    intro s room
    rw [wordSum] at room
    have hhi := hi.toNat_lt
    have hlo := lo.toNat_lt
    have hword : ((hi.toUInt64 <<< 8) + lo.toUInt64).toNat = hi.toNat * 256 + lo.toNat := by
      rw [UInt64.toNat_add, toNat_highHalf, UInt8.toNat_toUInt64]
      exact Nat.mod_eq_of_lt (by omega)
    have hadd : (s + ((hi.toUInt64 <<< 8) + lo.toUInt64)).toNat
        = s.toNat + ((hi.toUInt64 <<< 8) + lo.toUInt64).toNat := by
      rw [UInt64.toNat_add, hword]
      exact Nat.mod_eq_of_lt (Nat.lt_of_le_of_lt (by omega) room)
    rw [addWords?, addWords, add?_eq hadd, Option.bind_eq_bind, Option.bind_some]
    exact ih _ (by rw [hadd, hword, Nat.add_assoc]; exact room)
  | case2 hi =>
    intro s room
    rw [wordSum, ← toNat_highHalf] at room
    rw [addWords?, addWords]
    exact add?_eq ((UInt64.toNat_add _ _).trans (Nat.mod_eq_of_lt room))
  | case3 => exact fun s _ => by rw [addWords?, addWords]

theorem addWords?_append {a b : Bytes} (even : a.length % 2 = 0) :
    ∀ s : UInt64, addWords? s (a ++ b) = addWords? s a >>= fun s => addWords? s b := by
  induction a using wordSum.induct with
  | case1 hi lo rest ih =>
    intro s
    have hrest : rest.length % 2 = 0 := by
      simp only [List.length_cons] at even
      omega
    rw [List.cons_append, List.cons_append, addWords?, addWords?, bind_assoc]
    exact congrArg _ (funext fun s => ih hrest s)
  | case2 hi => simp at even
  | case3 => exact fun s => by rw [List.nil_append, addWords?, Option.bind_eq_bind, Option.bind_some]

/-- Chunk by chunk the same words are added in the same order. -/
theorem addChunks?_eq (s : UInt64) (b : Bytes) : addChunks? s b = addWords? s b := by
  induction s, b using addChunks?.induct with
  | case1 s b long ih =>
    have heven : (b.take chunkLength).length % 2 = 0 := by
      rw [List.length_take, Nat.min_eq_left long]
      rfl
    rw [addChunks?, if_pos long]
    conv => rhs; rw [← List.take_append_drop chunkLength b, addWords?_append heven]
    exact congrArg _ (funext fun s => ih s)
  | case2 s b short => rw [addChunks?, if_neg short]

theorem data?_eq {b : Bytes} (short : b.length ≤ 2 ^ 49) : data? b = some (data b) := by
  have hle := wordSum_le b
  have hwords : addWords? 0 b = some (addWords 0 b) :=
    addWords?_eq b 0 (by rw [UInt64.toNat_zero]; omega)
  rw [data?, addChunks?_eq, hwords, Option.bind_eq_bind, Option.bind_some, fold64?_eq,
    Option.bind_eq_bind, Option.bind_some, fold32?_eq, data]

theorem foldlM_add?_eq (sums : List UInt16) :
    ∀ acc : UInt32, acc.toNat + 65535 * sums.length < 2 ^ 32 →
      sums.foldlM (fun acc s => add? UInt32.toNat acc s.toUInt32) acc
        = some (sums.foldl (fun acc s => acc + s.toUInt32) acc) := by
  induction sums with
  | nil => exact fun acc _ => rfl
  | cons s rest ih =>
    intro acc room
    have hs := s.toNat_lt
    rw [List.length_cons] at room
    have hadd : (acc + s.toUInt32).toNat = acc.toNat + s.toUInt32.toNat := by
      rw [UInt32.toNat_add, UInt16.toNat_toUInt32]
      exact Nat.mod_eq_of_lt (by omega)
    rw [List.foldlM_cons, add?_eq hadd, Option.bind_eq_bind, Option.bind_some, List.foldl_cons]
    exact ih _ (by rw [hadd, UInt16.toNat_toUInt32]; omega)

theorem combine?_eq {sums : List UInt16} (few : sums.length ≤ 65536) :
    combine? sums = some (combine sums) := by
  have hsums := foldlM_add?_eq sums 0 (by rw [UInt32.toNat_zero]; omega)
  rw [combine?, hsums, Option.bind_eq_bind, Option.bind_some, fold32?_eq, combine]

/-! ## §4. Parts that are summed apart. -/

/-- The sums of the parts add up to the words of the whole, but for carries
that were folded. -/
theorem sumOf_map_data {parts : List Bytes} (even : ∀ part ∈ parts.dropLast, part.length % 2 = 0)
    (short : ∀ part ∈ parts, part.length ≤ 2 ^ 49) :
    sumOf (parts.map data) % 65535 = wordSum parts.flatten % 65535
      ∧ (sumOf (parts.map data) = 0 ↔ wordSum parts.flatten = 0) := by
  induction parts with
  | nil => exact ⟨rfl, Iff.rfl⟩
  | cons part rest ih =>
    have hpart := folds_data (short part List.mem_cons_self)
    have hcongruent := hpart.congruent
    have hzero := hpart.zero
    rw [List.map_cons, sumOf, List.flatten_cons]
    cases rest with
    | nil =>
      rw [List.flatten_nil, List.append_nil, List.map_nil, sumOf]
      omega
    | cons next rest =>
      -- not the last part, so it ends between two words
      rw [List.dropLast_cons_cons] at even
      obtain ⟨hrest, hrest'⟩ := ih (fun p hp => even p (List.mem_cons_of_mem _ hp))
        (fun p hp => short p (List.mem_cons_of_mem _ hp))
      rw [wordSum_append (even part List.mem_cons_self)]
      omega

/-- **Sums of parts make the sum of the whole.** -/
theorem combine_map_data (parts : List Bytes)
    (even : ∀ part ∈ parts.dropLast, part.length % 2 = 0) (few : parts.length ≤ 65536)
    (short : parts.flatten.length ≤ 2 ^ 49) :
    combine (parts.map data) = data parts.flatten := by
  have hpart : ∀ part ∈ parts, part.length ≤ 2 ^ 49 := fun part hpart =>
    (List.sublist_flatten_of_mem hpart).length_le.trans short
  obtain ⟨hcongruent, hzero⟩ := sumOf_map_data even hpart
  have hparts := folds_sums (parts.map data) (by rw [List.length_map]; exact few)
  have hwhole := folds_data short
  exact Folds.unique ⟨hparts.congruent.trans hcongruent, hparts.zero.trans hzero⟩ hwhole

/-- **The checksum is the ones'-complement sum** of the words of a byte string,
computed without an overflow, and it is the sum of the sums of the parts
however the byte string is cut between words. -/
theorem data_onesComplement {b : Bytes} (short : b.length ≤ 2 ^ 49) :
    data? b = some (data b)
      ∧ (data b).toNat = (if wordSum b = 0 then 0 else (wordSum b - 1) % 65535 + 1)
      ∧ ∀ parts : List Bytes, parts.flatten = b →
          (∀ part ∈ parts.dropLast, part.length % 2 = 0) → parts.length ≤ 65536 →
            combine? (parts.map data) = some (combine (parts.map data))
              ∧ combine (parts.map data) = data b := by
  refine ⟨data?_eq short, (folds_data short).toNat_eq, ?_⟩
  rintro parts rfl even few
  exact ⟨combine?_eq (by rw [List.length_map]; exact few), combine_map_data parts even few short⟩

/-- Five bytes with a carry, cut in front of the last three of them. -/
theorem data_onesComplement_of_five :
    data? [0xff, 0xff, 1, 2, 3] = some 1026
      ∧ combine? [data [0xff, 0xff], data [1, 2, 3]] = some 1026 := by
  have hdata : data [0xff, 0xff, 1, 2, 3] = 1026 := by decide
  obtain ⟨hchecked, _, hparts⟩ := data_onesComplement (b := [0xff, 0xff, 1, 2, 3]) (by decide)
  obtain ⟨hchecked', hcombine⟩ := hparts [[0xff, 0xff], [1, 2, 3]] rfl (by decide) (by decide)
  rw [hdata] at hchecked hcombine
  rw [hcombine] at hchecked'
  exact ⟨hchecked, hchecked'⟩

end PacketLayers.Checksum
