/-
  PacketLayers.Proofs.RoundTrip.TcpOption
  ────────────────────────────────
  **TCP OPTIONS ARE READ BACK.**

  An option of more than one byte is framed: its kind, its length, its data.
  `parse_framed` says what reading makes of a framed option wherever it
  stands, and `parse_cases` that nothing is read besides framed options and
  the two kinds of a single byte.  The value of an option keeps its data, but
  for the blocks of a selective acknowledgement after the third.

    • `Piece.Kept` — an option and the bytes that it was read from;
    • `Yields` — a run of the iterator over options, call by call;
    • `emitEach_endOfList` — what is written for a list of options;
    • `options_codec` — reading and writing fit together.
-/
import PacketLayers.Theory.Number
import PacketLayers.Theory.Result
import PacketLayers.Transport.Tcp.Option

namespace PacketLayers.Tcp.Item

/-! ## §1. Blocks of a selective acknowledgement. -/

theorem blocksOf_blockBytes (b : SackBlock) (rest : Bytes) :
    blocksOf (blockBytes b ++ rest) = b :: blocksOf rest := by
  have hword : ∀ x : UInt32, UInt32.ofNat (Bytes.toNat (Bytes.ofNat 4 x.toNat)) = x := by
    intro x
    have hlt : x.toNat < 256 ^ 4 := x.toNat_lt
    rw [Bytes.toNat_ofNat, Nat.mod_eq_of_lt hlt, UInt32.ofNat_toNat]
  show (⟨UInt32.ofNat (Bytes.toNat (Bytes.ofNat 4 b.left.toNat)),
    UInt32.ofNat (Bytes.toNat (Bytes.ofNat 4 b.right.toNat))⟩ : SackBlock) :: blocksOf rest = _
  rw [hword, hword]

theorem blocksOf_flatMap (bs : List SackBlock) : blocksOf (bs.flatMap blockBytes) = bs := by
  induction bs with
  | nil => rfl
  | cons b bs ih => rw [List.flatMap_cons, blocksOf_blockBytes, ih]

/-- Whole blocks are what is written for them. -/
theorem flatMap_blocksOf : ∀ {data : Bytes}, data.length % 8 = 0 →
    (blocksOf data).flatMap blockBytes = data
  | [], _ => rfl
  | a :: b :: c :: d :: e :: f :: g :: h :: rest, whole => by
    have hword : ∀ w x y z : UInt8,
        Bytes.ofNat 4 (UInt32.ofNat (Bytes.toNat [w, x, y, z])).toNat = [w, x, y, z] := by
      intro w x y z
      have hlt : Bytes.toNat [w, x, y, z] < 256 ^ 4 := Bytes.toNat_lt [w, x, y, z]
      rw [UInt32.toNat_ofNat_of_lt' (by simpa using hlt)]
      exact Bytes.ofNat_toNat [w, x, y, z]
    have hrest : rest.length % 8 = 0 := by
      simp only [List.length_cons] at whole
      omega
    rw [blocksOf, List.flatMap_cons, flatMap_blocksOf hrest, blockBytes, hword, hword]
    rfl
  | [_], whole | [_, _], whole | [_, _, _], whole | [_, _, _, _], whole
  | [_, _, _, _, _], whole | [_, _, _, _, _, _], whole
  | [_, _, _, _, _, _, _], whole => by simp at whole

theorem presentBlocks_eq_take (bs : List SackBlock) :
    presentBlocks bs[0]? bs[1]? bs[2]? = bs.take 3 := by
  match bs with
  | [] => rfl
  | [_] => rfl
  | [_, _] => rfl
  | _ :: _ :: _ :: _ => rfl

/-- Three blocks are twenty-four bytes. -/
theorem take_flatMap_blockBytes (bs : List SackBlock) :
    (bs.flatMap blockBytes).take 24 = (bs.take 3).flatMap blockBytes := by
  have hsplit : bs.flatMap blockBytes
      = (bs.take 3).flatMap blockBytes ++ (bs.drop 3).flatMap blockBytes := by
    rw [← List.flatMap_append, List.take_append_drop]
  by_cases more : 3 ≤ bs.length
  · have hlength : ((bs.take 3).flatMap blockBytes).length = 24 := by
      rw [length_flatMap_blockBytes, List.length_take, Nat.min_eq_left more]
    rw [hsplit, List.take_left' hlength]
  · have hall : bs.take 3 = bs := List.take_of_length_le (by omega)
    rw [hall, List.take_of_length_le]
    rw [length_flatMap_blockBytes]
    omega

/-! ## §2. Options with a length. -/

/-- As much of the data of an option as its value keeps. -/
def keptData (kind : UInt8) (data : Bytes) : Bytes := if kind = 5 then data.take 24 else data

section Framed

variable {kind : UInt8} {data b rest : Bytes} {o : Item}

/-- What an option is made of that is read from its parts. -/
theorem ofParts_cases (ok : ofParts kind data = .ok o) :
    (kind ≠ 5 ∧ (∀ first second third, o ≠ .sackRange first second third)
        ∧ o.encode = framed kind data)
      ∨ (kind = 5 ∧ 8 ≤ data.length ∧ data.length % 8 = 0
        ∧ o = .sackRange (blocksOf data)[0]? (blocksOf data)[1]? (blocksOf data)[2]?) := by
  -- kind by kind, as they are told apart; an option of no known kind comes last
  unfold ofParts at ok
  split at ok
  · next two =>
    split at ok
    · next hlength =>
      cases ok
      have hlt : Bytes.toNat data < UInt16.size := by
        have hdata := Bytes.toNat_lt data
        rw [hlength] at hdata
        exact hdata
      have hbytes := Bytes.ofNat_toNat data
      rw [hlength] at hbytes
      refine .inl ⟨by rw [two]; decide, fun _ _ _ same => (by cases same), ?_⟩
      rw [encode, UInt16.toNat_ofNat_of_lt' hlt, hbytes, two]
    · cases ok
  · split at ok
    · next three =>
      split at ok
      · cases ok
        exact .inl ⟨by rw [three]; decide, fun _ _ _ same => (by cases same), by rw [three]; rfl⟩
      · cases ok
    · split at ok
      · next four =>
        split at ok
        · next empty =>
          cases ok
          refine .inl ⟨by rw [four]; decide, fun _ _ _ same => (by cases same), ?_⟩
          rw [List.isEmpty_iff.1 empty, four]
          rfl
        · cases ok
      · split at ok
        · next five =>
          split at ok
          · cases ok
          · next whole =>
            cases ok
            exact .inr ⟨five, by omega, by omega, rfl⟩
        · next five =>
          cases ok
          exact .inl ⟨five, fun _ _ _ same => (by cases same), rfl⟩

/-- An option is written as the data that its value keeps. -/
theorem encode_of_ofParts (ok : ofParts kind data = .ok o) :
    o.encode = framed kind (keptData kind data) := by
  rcases ofParts_cases ok with ⟨five, _, hencode⟩ | ⟨five, _, whole, rfl⟩
  · rw [hencode, keptData, if_neg five]
  · rw [encode, presentBlocks_eq_take, ← take_flatMap_blockBytes, flatMap_blocksOf whole, five]
    rfl

/-- The data that is kept gives the same option. -/
theorem ofParts_keptData (ok : ofParts kind data = .ok o) :
    ofParts kind (keptData kind data) = .ok o := by
  rcases ofParts_cases ok with ⟨five, _, _⟩ | ⟨rfl, least, whole, ho⟩
  · rw [keptData, if_neg five, ok]
  · have hkept : keptData 5 data = ((blocksOf data).take 3).flatMap blockBytes := by
      rw [← take_flatMap_blockBytes, flatMap_blocksOf whole]
      rfl
    have hcount := length_flatMap_blockBytes (blocksOf data)
    rw [flatMap_blocksOf whole] at hcount
    have hlength : (keptData 5 data).length = min 3 (blocksOf data).length * 8 := by
      rw [hkept, length_flatMap_blockBytes, List.length_take]
    have hblocks : blocksOf (keptData 5 data) = (blocksOf data).take 3 := by
      rw [hkept, blocksOf_flatMap]
    have hnth : ∀ i, i < 3 → ((blocksOf data).take 3)[i]? = (blocksOf data)[i]? :=
      fun i hi => List.getElem?_take_of_lt hi
    show (if (keptData 5 data).length < 8 ∨ (keptData 5 data).length % 8 ≠ 0 then _ else _) = _
    rw [if_neg (by omega), hblocks, hnth 0 (by decide), hnth 1 (by decide), hnth 2 (by decide), ho]

/-- Framed data is taken off the front, whatever stands behind it. -/
theorem parse_framed (zero : kind ≠ 0) (one : kind ≠ 1) (short : data.length ≤ 253) :
    parse (framed kind data ++ rest) = (ofParts kind data).map fun o => (o, rest) := by
  have hlength : (UInt8.ofNat (data.length + 2)).toNat = data.length + 2 := by
    rw [Bytes.toNat_ofNat_byte]
    omega
  show (if kind = 0 then _ else if kind = 1 then _ else
    if (UInt8.ofNat (data.length + 2)).toNat < 2
        ∨ (data ++ rest).length < (UInt8.ofNat (data.length + 2)).toNat - 2 then _
    else (ofParts kind ((data ++ rest).take ((UInt8.ofNat (data.length + 2)).toNat - 2))).map
      fun o => (o, (data ++ rest).drop ((UInt8.ofNat (data.length + 2)).toNat - 2))) = _
  rw [if_neg zero, if_neg one, hlength, Nat.add_sub_cancel, List.length_append,
    if_neg (by omega), List.take_left, List.drop_left]

/-- **What is read off the front:** a byte that stands for itself, or framed
data. -/
theorem parse_cases (ok : parse b = .ok (o, rest)) :
    (o = .endOfList ∧ b = 0 :: rest) ∨ (o = .noOperation ∧ b = 1 :: rest)
      ∨ ∃ kind data, kind ≠ 0 ∧ kind ≠ 1 ∧ data.length ≤ 253 ∧ ofParts kind data = .ok o
        ∧ b = framed kind data ++ rest := by
  -- the two kinds without a length stand for themselves
  unfold parse at ok
  split at ok
  · cases ok
  · next kind tail =>
    split at ok
    · next zero =>
      cases ok
      exact .inl ⟨rfl, by rw [zero]⟩
    · next zero =>
      split at ok
      · next one =>
        cases ok
        exact .inr (.inl ⟨rfl, by rw [one]⟩)
      · next one =>
        split at ok
        · cases ok
        · next length body =>
          dsimp only at ok
          split at ok
          · cases ok
          · next room =>
            obtain ⟨o', ho', hpair⟩ := map_eq_ok.1 ok
            cases hpair
            have hlt := length.toNat_lt
            have hsize : (body.take (length.toNat - 2)).length = length.toNat - 2 := by
              rw [List.length_take]
              omega
            refine .inr (.inr ⟨kind, body.take (length.toNat - 2), zero, one, by omega, ho', ?_⟩)
            have hbyte : UInt8.ofNat (length.toNat - 2 + 2) = length := by
              rw [Nat.sub_add_cancel (by omega), UInt8.ofNat_toNat]
            rw [framed, hsize, hbyte, List.cons_append, List.cons_append, List.take_append_drop]

end Framed

/-! ## §3. An option and its bytes. -/

/-- An option, and the bytes that it was read from. -/
structure Piece where
  item : Item
  bytes : Bytes

/-- A selective acknowledgement of more than three blocks. -/
def Piece.Curtailed (p : Piece) : Prop :=
  (∃ first second third, p.item = .sackRange first second third) ∧ 2 + 3 * 8 < p.bytes.length

/-- **What reading an option means:** it takes bytes, it reads the same
wherever they stand, and unless it ends the list, writing the option gives the
bytes back, or of a selective acknowledgement that was curtailed bytes which
read the same. -/
structure Piece.Kept (p : Piece) : Prop where
  consumes : p.bytes ≠ []
  reads : ∀ rest, parse (p.bytes ++ rest) = .ok (p.item, rest)
  rewrites : p.item ≠ .endOfList → ∀ buffer : Bytes, buffer.length = p.item.size → ∃ out,
    p.item.emit buffer = .ok (out, []) ∧ (∀ rest, parse (out ++ rest) = .ok (p.item, rest))
      ∧ (out = p.bytes ↔ ¬ p.Curtailed)

/-- All options but the end of list write their own bytes only. -/
theorem emit_eq {o : Item} {buffer : Bytes} (listed : o ≠ .endOfList)
    (fits : o.size ≤ buffer.length) : o.emit buffer = .ok (o.encode, buffer.drop o.size) := by
  cases o with
  | endOfList => exact absurd rfl listed
  | _ => exact if_pos fits

/-- Written into as many bytes as it has, an option leaves nothing over. -/
theorem emit_exact {o : Item} {buffer : Bytes} (listed : o ≠ .endOfList)
    (exact : buffer.length = o.size) : o.emit buffer = .ok (o.encode, []) := by
  rw [emit_eq listed (Nat.le_of_eq exact.symm), ← exact, List.drop_length]

/-- Framed data never ends the list. -/
theorem listed_of_ofParts {kind : UInt8} {data : Bytes} {o : Item} (zero : kind ≠ 0)
    (ok : ofParts kind data = .ok o) : o ≠ .endOfList := by
  rintro rfl
  have hencode := encode_of_ofParts ok
  injection hencode with hkind
  exact zero hkind.symm

/-- The end of list is a byte of its own. -/
theorem parse_endOfList {b rest : Bytes} (ok : parse b = .ok (.endOfList, rest)) :
    b = 0 :: rest := by
  rcases parse_cases ok with ⟨_, hb⟩ | ⟨hone, _⟩ | ⟨kind, data, zero, _, _, hparts, _⟩
  · exact hb
  · cases hone
  · exact absurd rfl (listed_of_ofParts zero hparts)

theorem kept_framed {kind : UInt8} {data : Bytes} {o : Item} (zero : kind ≠ 0) (one : kind ≠ 1)
    (short : data.length ≤ 253) (ok : ofParts kind data = .ok o) :
    Piece.Kept ⟨o, framed kind data⟩ := by
  refine ⟨List.cons_ne_nil _ _, fun rest => ?_, fun listed buffer exact =>
    ⟨_, emit_exact listed exact, fun rest => ?_, ?_⟩⟩
  · rw [parse_framed zero one short, ok]
    rfl
  · have hshort : (keptData kind data).length ≤ 253 := by
      unfold keptData
      split
      · rw [List.length_take]
        omega
      · exact short
    rw [encode_of_ofParts ok, parse_framed zero one hshort, ofParts_keptData ok]
    rfl
  · -- the bytes come back if the value keeps all data
    have hframed : framed kind (keptData kind data) = framed kind data
        ↔ keptData kind data = data := by
      constructor
      · intro same
        injection same with _ same
        injection same
      · exact fun same => by rw [same]
    rw [encode_of_ofParts ok, hframed]
    rcases ofParts_cases ok with ⟨five, hother, _⟩ | ⟨rfl, _, _, ho⟩
    · refine iff_of_true (if_neg five) ?_
      rintro ⟨⟨first, second, third, hsack⟩, _⟩
      exact hother _ _ _ hsack
    · have hlength : (framed 5 data).length = data.length + 2 := rfl
      show data.take 24 = data ↔ ¬ (_ ∧ 2 + 3 * 8 < (framed 5 data).length)
      rw [hlength]
      constructor
      · rintro hkept ⟨_, hlong⟩
        have hcut := congrArg List.length hkept
        rw [List.length_take] at hcut
        omega
      · intro hwhole
        refine List.take_of_length_le (Nat.le_of_not_lt fun hlong => ?_)
        exact hwhole ⟨⟨_, _, _, ho⟩, by omega⟩

/-- **An option that is read** is kept in the bytes that it takes. -/
theorem kept_of_parse {b rest : Bytes} {o : Item} (ok : parse b = .ok (o, rest)) :
    ∃ bytes, b = bytes ++ rest ∧ Piece.Kept ⟨o, bytes⟩ := by
  rcases parse_cases ok with ⟨rfl, rfl⟩ | ⟨rfl, rfl⟩ | ⟨kind, data, zero, one, short, hparts, rfl⟩
  · exact ⟨[0], rfl, List.cons_ne_nil _ _, fun _ => rfl, fun listed => absurd rfl listed⟩
  · refine ⟨[1], rfl, List.cons_ne_nil _ _, fun _ => rfl, fun listed buffer exact =>
      ⟨_, emit_exact listed exact, fun _ => rfl, iff_of_true rfl ?_⟩⟩
    rintro ⟨⟨first, second, third, hsack⟩, _⟩
    cases hsack
  · exact ⟨_, rfl, kept_framed zero one short hparts⟩

/-! ## §4. The iterator over options. -/

/-- One call of the iterator: what it yields, if anything, and what it has left
to read. -/
def next (b : Bytes) : Option (Except Error Item) × Bytes :=
  if b = [] then (none, [])
  else
    match parse b with
    | .error e => (some (.error e), [])
    | .ok (.endOfList, _) => (none, [])
    | .ok (o, rest) => (some (.ok o), rest)

/-- A run of the iterator: what it yields, call by call, until it yields
nothing. -/
inductive Yields : Bytes → List (Except Error Item) → Prop where
  | ends {b : Bytes} (nothing : (next b).1 = none) : Yields b []
  | yields {b rest : Bytes} {x : Except Error Item} {xs : List (Except Error Item)}
      (something : next b = (some x, rest)) (later : Yields rest xs) : Yields b (x :: xs)

theorem next_of_error {b : Bytes} {e : Error} (some_bytes : b ≠ []) (fails : parse b = .error e) :
    next b = (some (.error e), []) := by
  rw [next, if_neg some_bytes, fails]

theorem next_of_item {b rest : Bytes} {o : Item} (ok : parse b = .ok (o, rest))
    (listed : o ≠ .endOfList) : next b = (some (.ok o), rest) := by
  have some_bytes : b ≠ [] := by
    rintro rfl
    cases ok
  rw [next, if_neg some_bytes, ok]
  cases o with
  | endOfList => exact absurd rfl listed
  | _ => rfl

/-- Every call that yields something leaves fewer bytes. -/
theorem length_next_lt {b rest : Bytes} {x : Except Error Item} (h : next b = (some x, rest)) :
    rest.length < b.length := by
  by_cases some_bytes : b = []
  · rw [some_bytes] at h
    cases h
  · have hpos := List.length_pos_iff.2 some_bytes
    -- after an error nothing is left; an option takes its own bytes
    cases hparse : parse b with
    | error e =>
      rw [next_of_error some_bytes hparse] at h
      cases h
      exact hpos
    | ok pair =>
      obtain ⟨o, tail⟩ := pair
      by_cases listed : o = .endOfList
      · rw [next, if_neg some_bytes, hparse, listed] at h
        cases h
      · rw [next_of_item hparse listed] at h
        cases h
        obtain ⟨bytes, rfl, kept⟩ := kept_of_parse hparse
        have hbytes : 0 < bytes.length := List.length_pos_iff.2 kept.consumes
        rw [List.length_append]
        omega

/-- The list of options follows the iterator, as long as there is fuel. -/
theorem listUpTo_succ (fuel : Nat) (b : Bytes) :
    listUpTo (fuel + 1) b = match next b with
      | (none, _) => []
      | (some x, rest) => x :: listUpTo fuel rest := by
  have hnil : listUpTo fuel [] = [] := by cases fuel <;> rfl
  cases b with
  | nil => rfl
  | cons kind tail =>
    have hcons : listUpTo (fuel + 1) (kind :: tail) = match parse (kind :: tail) with
        | .error e => [.error e]
        | .ok (.endOfList, _) => []
        | .ok (o, rest) => .ok o :: listUpTo fuel rest := rfl
    rw [hcons, next, if_neg (List.cons_ne_nil _ _)]
    cases hparse : parse (kind :: tail) with
    | error e => simp only [hnil]
    | ok pair =>
      obtain ⟨o, rest⟩ := pair
      cases o <;> rfl

/-- A run of the iterator is what the list of options holds, and there is one:
the bytes that are left become fewer. -/
theorem yields_listUpTo :
    ∀ (fuel : Nat) (b : Bytes), b.length ≤ fuel → Yields b (listUpTo fuel b) := by
  intro fuel
  induction fuel with
  | zero =>
    intro b hb
    rw [List.length_eq_zero_iff.1 (Nat.le_zero.1 hb)]
    exact .ends rfl
  | succ fuel ih =>
    intro b hb
    rw [listUpTo_succ]
    match hnext : next b with
    | (none, rest) => exact .ends (by rw [hnext])
    | (some x, rest) =>
      have hlt := length_next_lt hnext
      exact .yields hnext (ih rest (by omega))

/-- The iterator has one run. -/
theorem Yields.unique {b : Bytes} {xs ys : List (Except Error Item)} (hxs : Yields b xs)
    (hys : Yields b ys) : xs = ys := by
  induction hxs generalizing ys with
  | ends nothing =>
    cases hys with
    | ends _ => rfl
    | yields something _ =>
      rw [something] at nothing
      cases nothing
  | yields something _ ih =>
    cases hys with
    | ends nothing =>
      rw [something] at nothing
      cases nothing
    | yields something' later =>
      rw [something] at something'
      cases something'
      rw [ih later]

/-- **The iterator ends**, after it has yielded the list of options. -/
theorem yields_iff {b : Bytes} {xs : List (Except Error Item)} : Yields b xs ↔ xs = list b :=
  ⟨fun h => h.unique (yields_listUpTo _ b (Nat.le_refl _)),
    fun h => h ▸ yields_listUpTo _ b (Nat.le_refl _)⟩

/-- What is behind the last option, and what is yielded for it. -/
inductive Ending : Bytes → List (Except Error Item) → Prop where
  | exhausted : Ending [] []
  | closed (rest : Bytes) : Ending (0 :: rest) []
  | failed {tail : Bytes} {e : Error} (some_bytes : tail ≠ []) (fails : parse tail = .error e) :
      Ending tail [.error e]

/-- **The options of some bytes**, piece by piece, and what ends them. -/
theorem pieces_of_yields {b : Bytes} {xs : List (Except Error Item)} (h : Yields b xs) :
    ∃ (pieces : List Piece) (tail : Bytes) (last : List (Except Error Item)),
      b = pieces.flatMap Piece.bytes ++ tail
        ∧ xs = pieces.map (fun p => .ok p.item) ++ last
        ∧ (∀ p ∈ pieces, p.Kept ∧ p.item ≠ .endOfList) ∧ Ending tail last := by
  induction h with
  | @ends b nothing =>
    refine ⟨[], b, [], rfl, rfl, fun _ hp => absurd hp List.not_mem_nil, ?_⟩
    by_cases some_bytes : b = []
    · rw [some_bytes]
      exact .exhausted
    · cases hparse : parse b with
      | error e =>
        rw [next_of_error some_bytes hparse] at nothing
        cases nothing
      | ok pair =>
        obtain ⟨o, rest⟩ := pair
        by_cases listed : o = .endOfList
        · rw [listed] at hparse
          rw [parse_endOfList hparse]
          exact .closed rest
        · rw [next_of_item hparse listed] at nothing
          cases nothing
  | @yields b rest x xs something later ih =>
    by_cases some_bytes : b = []
    · rw [some_bytes] at something
      cases something
    · cases hparse : parse b with
      | error e =>
        rw [next_of_error some_bytes hparse] at something
        cases something
        -- an error leaves nothing to read
        obtain rfl := later.unique (.ends rfl)
        exact ⟨[], b, _, rfl, rfl, fun _ hp => absurd hp List.not_mem_nil,
          .failed some_bytes hparse⟩
      | ok pair =>
        obtain ⟨o, rest'⟩ := pair
        by_cases listed : o = .endOfList
        · rw [listed] at hparse
          rw [parse_endOfList hparse] at something
          cases something
        · rw [next_of_item hparse listed] at something
          cases something
          obtain ⟨bytes, rfl, kept⟩ := kept_of_parse hparse
          obtain ⟨pieces, tail, last, rfl, rfl, hkept, hlast⟩ := ih
          refine ⟨⟨o, bytes⟩ :: pieces, tail, last, ?_, rfl, ?_, hlast⟩
          · rw [List.flatMap_cons, List.append_assoc]
          · exact List.forall_mem_cons.2 ⟨⟨kept, listed⟩, hkept⟩

/-! ## §5. Writing options. -/

/-- Write options one behind the other, each to the front of what the one
before it left over. -/
def emitEach : List Item → Bytes → Access (Bytes × Bytes)
  | [], buffer => .ok ([], buffer)
  | o :: rest, buffer => do
    let (front, remaining) ← o.emit buffer
    let (later, left) ← emitEach rest remaining
    return (front ++ later, left)

/-- Options that can be written and read back: the data fits the length, the
kind is not one of those with a meaning of their own, and the blocks of a
selective acknowledgement come without a gap. -/
def Writable : Item → Prop
  | endOfList => False
  | noOperation => True
  | maxSegmentSize _ => True
  | windowScale _ => True
  | sackPermitted => True
  | sackRange first second third => first.isSome ∧ (third.isSome → second.isSome)
  | unknown kind data => 5 < kind ∧ data.length ≤ 253

instance (o : Item) : Decidable o.Writable :=
  match o with
  | endOfList => inferInstanceAs (Decidable False)
  | noOperation | maxSegmentSize _ | windowScale _ | sackPermitted =>
    inferInstanceAs (Decidable True)
  | sackRange first second third =>
    inferInstanceAs (Decidable (first.isSome ∧ (third.isSome → second.isSome)))
  | unknown kind data => inferInstanceAs (Decidable (5 < kind ∧ data.length ≤ 253))

theorem Writable.listed {o : Item} (writable : o.Writable) : o ≠ .endOfList := by
  rintro rfl
  exact writable

/-- What is written for a list of options, up to its end. -/
theorem emitAll_eq_emitEach (items : List Item) : ∀ buffer : Bytes,
    emitAll items buffer
      = (emitEach (items ++ [.endOfList]) buffer).map fun (written, left) => written ++ left := by
  -- on the options; the end of list and what is left over are zeros alike
  induction items with
  | nil =>
    intro buffer
    show Except.ok (List.replicate buffer.length 0)
      = .ok (List.replicate (min 1 buffer.length) 0 ++ [] ++ List.replicate (buffer.length - 1) 0)
    rw [List.append_nil, List.replicate_append_replicate]
    congr 2
    omega
  | cons o rest ih =>
    intro buffer
    rw [emitAll, List.cons_append, emitEach]
    cases o.emit buffer with
    | error e => rfl
    | ok pair =>
      obtain ⟨front, remaining⟩ := pair
      simp only [ok_bind, ih]
      cases emitEach (rest ++ [.endOfList]) remaining with
      | error e => rfl
      | ok pair => simp only [Except.map, ok_bind, pure_eq_ok, List.append_assoc]

theorem length_flatMap_encode (items : List Item) :
    (items.flatMap encode).length = totalSize items := by
  induction items with
  | nil => rfl
  | cons o rest ih => rw [List.flatMap_cons, List.length_append, length_encode, ih, totalSize]

/-- Options that fit are written as their bytes, and the rest is cleared. -/
theorem emitEach_endOfList {items : List Item} (listed : ∀ o ∈ items, o ≠ .endOfList) :
    ∀ {buffer : Bytes}, totalSize items ≤ buffer.length → ∃ written left,
      emitEach (items ++ [.endOfList]) buffer = .ok (written, left)
        ∧ written ++ left = items.flatMap encode
          ++ List.replicate (buffer.length - totalSize items) 0 := by
  -- on the options; each takes as many bytes as it is long, and the end blanks the rest
  induction items with
  | nil =>
    intro buffer _
    refine ⟨_, _, rfl, ?_⟩
    rw [List.append_nil, List.replicate_append_replicate]
    show _ = List.replicate (buffer.length - 0) 0
    congr 1
    omega
  | cons o rest ih =>
    intro buffer fits
    obtain ⟨ho, hrest⟩ := List.forall_mem_cons.1 listed
    rw [totalSize] at fits
    have hroom : o.size ≤ buffer.length := by omega
    have hfits : totalSize rest ≤ (buffer.drop o.size).length := by
      rw [List.length_drop]
      omega
    obtain ⟨written, left, hemit, hbytes⟩ := ih hrest hfits
    refine ⟨o.encode ++ written, left, ?_, ?_⟩
    · rw [List.cons_append, emitEach, emit_eq ho hroom, ok_bind]
      simp only [hemit, ok_bind, pure_eq_ok]
    · rw [List.append_assoc, hbytes, List.flatMap_cons, List.append_assoc, totalSize,
        List.length_drop, Nat.sub_sub]

theorem emitAll_eq {items : List Item} (listed : ∀ o ∈ items, o ≠ .endOfList) {buffer : Bytes}
    (fits : totalSize items ≤ buffer.length) :
    emitAll items buffer = .ok (items.flatMap encode
      ++ List.replicate (buffer.length - totalSize items) 0) := by
  obtain ⟨written, left, hemit, hbytes⟩ := emitEach_endOfList listed fits
  rw [emitAll_eq_emitEach, hemit, ← hbytes]
  rfl

/-! ## §6. Reading what was written. -/

/-- A writable option is a byte of its own, or framed data that gives it. -/
theorem Writable.parts {o : Item} (writable : o.Writable) :
    o = .noOperation ∨ ∃ kind data, kind ≠ 0 ∧ kind ≠ 1 ∧ data.length ≤ 253
      ∧ ofParts kind data = .ok o ∧ o.encode = framed kind data := by
  cases o with
  | endOfList => exact writable.elim
  | noOperation => exact .inl rfl
  | maxSegmentSize size =>
    refine .inr ⟨2, Bytes.ofNat 2 size.toNat, by decide, by decide,
      Nat.le_of_ble_eq_true rfl, ?_, rfl⟩
    have hlt : size.toNat < 256 ^ 2 := size.toNat_lt
    show Except.ok (maxSegmentSize (UInt16.ofNat (Bytes.toNat (Bytes.ofNat 2 size.toNat)))) = _
    rw [Bytes.toNat_ofNat, Nat.mod_eq_of_lt hlt, UInt16.ofNat_toNat]
  | windowScale shift => exact .inr ⟨3, [shift], by decide, by decide, by simp, rfl, rfl⟩
  | sackPermitted => exact .inr ⟨4, [], by decide, by decide, by decide, rfl, rfl⟩
  | sackRange first second third =>
    obtain ⟨hfirst, hgap⟩ := writable
    -- the blocks that are there come first
    obtain ⟨least, most, h₀, h₁, h₂⟩ : 1 ≤ (presentBlocks first second third).length
        ∧ (presentBlocks first second third).length ≤ 3
        ∧ (presentBlocks first second third)[0]? = first
        ∧ (presentBlocks first second third)[1]? = second
        ∧ (presentBlocks first second third)[2]? = third := by
      cases first <;> cases second <;> cases third <;> simp_all [presentBlocks]
    have hlength := length_flatMap_blockBytes (presentBlocks first second third)
    refine .inr ⟨5, (presentBlocks first second third).flatMap blockBytes, by decide, by decide,
      by omega, ?_, rfl⟩
    show (if ((presentBlocks first second third).flatMap blockBytes).length < 8
      ∨ ((presentBlocks first second third).flatMap blockBytes).length % 8 ≠ 0 then _ else _) = _
    rw [if_neg (by omega), blocksOf_flatMap, h₀, h₁, h₂]
  | unknown kind data =>
    obtain ⟨hkind, hlength⟩ := writable
    have hne : ∀ k : UInt8, k ≤ 5 → kind ≠ k := by
      rintro k hk rfl
      exact absurd hkind (UInt8.not_lt.2 hk)
    refine .inr ⟨kind, data, hne 0 (by decide), hne 1 (by decide), hlength, ?_, rfl⟩
    exact (if_neg (hne 2 (by decide))).trans ((if_neg (hne 3 (by decide))).trans
      ((if_neg (hne 4 (by decide))).trans (if_neg (hne 5 (by decide)))))

theorem parse_encode {o : Item} (writable : o.Writable) (rest : Bytes) :
    parse (o.encode ++ rest) = .ok (o, rest) := by
  rcases writable.parts with rfl | ⟨kind, data, zero, one, short, hparts, hencode⟩
  · rfl
  · rw [hencode, parse_framed zero one short, hparts]
    rfl

/-- **Options that were written** are what the iterator yields, up to the bytes
that were cleared behind them. -/
theorem yields_encode {items : List Item} (writable : ∀ o ∈ items, o.Writable) (room : Nat) :
    Yields (items.flatMap encode ++ List.replicate room 0) (items.map .ok) := by
  induction items with
  | nil =>
    cases room with
    | zero => exact .ends rfl
    | succ room => exact .ends rfl
  | cons o rest ih =>
    obtain ⟨ho, hrest⟩ := List.forall_mem_cons.1 writable
    rw [List.flatMap_cons, List.append_assoc]
    exact .yields (next_of_item (parse_encode ho _) ho.listed) (ih hrest)

/-- **Reading and writing options fit together.**

An option that is read off the front of some bytes takes at least one of them
and is kept in those that it takes.  So reading one option after the other
ends: the iterator has one run, which yields the list of options.  The bytes
are those of the options that are yielded, piece by piece, and then nothing, an
end of list, or bytes that are no option; for these an error is yielded, and
nothing after it.

Writing options that can be read, one behind the other, and then the end of
the list into a buffer with room for them clears the rest of the buffer, and
the run of the iterator over the buffer yields the options that were written. -/
theorem options_codec :
    (∀ b : Bytes, (∀ o rest, parse b = .ok (o, rest) → ∃ bytes, b = bytes ++ rest
        ∧ Piece.Kept ⟨o, bytes⟩)
      ∧ (∀ xs, Yields b xs ↔ xs = list b)
      ∧ ∃ (pieces : List Piece) (tail : Bytes) (last : List (Except Error Item)),
        b = pieces.flatMap Piece.bytes ++ tail
          ∧ list b = pieces.map (fun p => .ok p.item) ++ last
          ∧ (∀ p ∈ pieces, p.Kept ∧ p.item ≠ .endOfList) ∧ Ending tail last)
    ∧ ∀ (items : List Item) (buffer : Bytes), (∀ o ∈ items, o.Writable) →
      totalSize items ≤ buffer.length → ∃ written left,
        emitEach (items ++ [.endOfList]) buffer = .ok (written, left)
          ∧ written ++ left = items.flatMap encode
            ++ List.replicate (buffer.length - totalSize items) 0
          ∧ ∀ xs, Yields (written ++ left) xs ↔ xs = items.map .ok := by
  refine ⟨fun b => ⟨fun o rest => kept_of_parse, fun xs => yields_iff,
    pieces_of_yields (yields_iff.2 rfl)⟩, fun items buffer writable fits => ?_⟩
  obtain ⟨written, left, hemit, hbytes⟩ :=
    emitEach_endOfList (fun o ho => (writable o ho).listed) fits
  have hyields := yields_encode writable (buffer.length - totalSize items)
  refine ⟨written, left, hemit, hbytes, fun xs => ?_⟩
  rw [hbytes, yields_iff, yields_iff.1 hyields]

/-- A selective acknowledgement of four blocks, with an option behind it whose
length counts less than itself; and options of five kinds in a buffer with one
byte to spare. -/
theorem options_codec_curtailed :
    (∃ bytes, 5 :: 34 :: List.replicate 32 7 ++ [3, 1] = bytes ++ [3, 1]
      ∧ Piece.Kept ⟨.sackRange (some ⟨0x7070707, 0x7070707⟩) (some ⟨0x7070707, 0x7070707⟩)
        (some ⟨0x7070707, 0x7070707⟩), bytes⟩)
    ∧ (∀ o ∈ [noOperation, maxSegmentSize 1460, sackPermitted, sackRange (some ⟨1, 2⟩) none none,
        unknown 12 [1, 2, 3]], o.Writable)
      ∧ totalSize [noOperation, maxSegmentSize 1460, sackPermitted,
        sackRange (some ⟨1, 2⟩) none none, unknown 12 [1, 2, 3]] ≤ (List.replicate 23 0xa5).length
      ∧ ∃ written left, emitEach ([noOperation, maxSegmentSize 1460, sackPermitted,
          sackRange (some ⟨1, 2⟩) none none, unknown 12 [1, 2, 3]] ++ [.endOfList])
          (List.replicate 23 0xa5) = .ok (written, left)
        ∧ ∀ xs, Yields (written ++ left) xs
          ↔ xs = [noOperation, maxSegmentSize 1460, sackPermitted,
            sackRange (some ⟨1, 2⟩) none none, unknown 12 [1, 2, 3]].map .ok := by
  obtain ⟨reading, writing⟩ := options_codec
  have hwritable : ∀ o ∈ [noOperation, maxSegmentSize 1460, sackPermitted,
      sackRange (some ⟨1, 2⟩) none none, unknown 12 [1, 2, 3]], o.Writable := by decide
  obtain ⟨written, left, hemit, _, hyields⟩ :=
    writing _ (List.replicate 23 0xa5) hwritable (by decide)
  exact ⟨(reading (5 :: 34 :: List.replicate 32 7 ++ [3, 1])).1 _ _ rfl, hwritable, by decide,
    written, left, hemit, hyields⟩

end PacketLayers.Tcp.Item
