/-
  PacketLayers.Proofs.AddressText
  ────────────────────────────────
  **NO TWO IPV6 ADDRESSES SHARE A TEXT.**

  The text of an address leaves out zeros, and how many is nowhere written.
  It can be told all the same: the text falls into its words at the colons,
  two colons side by side stand in one place at most, and the words that are
  written there are all but those of the first run of zeros.

    • `Solid.doubled_unique` — words between single colons, `::`, and more of
      them: the `::` is the only one;
    • `compressed_of_firstZeros` — it stands where the first zeros were;
    • `Printer.run_head` — a printer that looks at one word at a time writes
      the same;
    • `text_unambiguous` — put together for all addresses, those that stand for
      an IPv4 address included.
-/
import Mathlib.Data.List.Basic
import Mathlib.Data.List.TakeWhile
import PacketLayers.Address.Ipv6
import PacketLayers.Theory.Text

namespace PacketLayers

/-! ## §1. Words between colons. -/

/-- Texts that are not empty and without a colon. -/
def Solid (ts : List (List Char)) : Prop := ∀ t ∈ ts, t ≠ [] ∧ ':' ∉ t

/-- Texts with a colon between each two. -/
abbrev colonJoined (ts : List (List Char)) : List Char := Text.joined [':'] ts

namespace Solid

variable {ts us : List (List Char)} {x y : List Char}

/-- Joined texts are found again between the colons. -/
theorem splitOn_joined (solid : Solid ts) (nonempty : ts ≠ []) :
    (colonJoined ts).splitOn ':' = ts := by
  rw [colonJoined, Text.joined_eq_intercalate]
  exact List.splitOn_intercalate ':' (fun t listed => (solid t listed).2) nonempty

theorem joined_injective (solid : Solid ts) (solid' : Solid us)
    (same : colonJoined ts = colonJoined us) : ts = us := by
  -- no text joined is empty but that of no words
  have only : ∀ {ts}, Solid ts → colonJoined ts = [] → ts = [] := by
    intro ts solid empty
    by_contra nonempty
    have hsplit := solid.splitOn_joined nonempty
    rw [empty, List.splitOn_nil] at hsplit
    exact (solid [] (hsplit ▸ List.mem_singleton_self [])).1 rfl
  by_cases hts : ts = []
  · subst hts
    exact (only solid' same.symm).symm
  by_cases hus : us = []
  · subst hus
    exact only solid same
  rw [← solid.splitOn_joined hts, ← solid'.splitOn_joined hus, same]

/-- Around a colon there is something on both sides, and no other colon. -/
theorem around_colon (solid : Solid ts) (h : colonJoined ts = x ++ ':' :: y) :
    x ≠ [] ∧ y ≠ [] ∧ y.head? ≠ some ':' := by
  have nonempty : ts ≠ [] := by
    rintro rfl
    exact List.append_ne_nil_of_right_ne_nil x (List.cons_ne_nil ':' y) h.symm
  have hsplit := solid.splitOn_joined nonempty
  rw [h, List.splitOn_append_cons_self] at hsplit
  have full : [] ∉ x.splitOn ':' ++ y.splitOn ':' := fun listed =>
    (solid [] (hsplit ▸ listed)).1 rfl
  simp only [List.mem_append, not_or] at full
  obtain ⟨front, back⟩ := full
  refine ⟨?_, ?_, ?_⟩
  · rintro rfl
    exact front (by simp)
  · rintro rfl
    exact back (by simp)
  · intro first
    obtain ⟨rest, rfl⟩ := List.head?_eq_some_iff.1 first
    exact back (by simp [List.splitOn_cons_eq_if_modifyHead])

theorem not_doubled (solid : Solid ts) : colonJoined ts ≠ x ++ [':', ':'] ++ y := by
  intro h
  rw [List.append_assoc] at h
  exact (solid.around_colon h).2.2 rfl

/-- **Two colons side by side, between joined texts, are the only ones.** -/
theorem doubled_unique (solid : Solid ts) (solid' : Solid us)
    (h : colonJoined ts ++ [':', ':'] ++ colonJoined us = x ++ [':', ':'] ++ y) :
    x = colonJoined ts ∧ y = colonJoined us := by
  simp only [List.append_assoc, List.cons_append, List.nil_append] at h
  -- the one begins before, with or after the other
  rcases List.append_eq_append_iff.1 h with ⟨more, rfl, hus⟩ | ⟨more, hts, hrest⟩
  · cases more with
    | nil =>
      simp only [List.nil_append, List.cons.injEq, true_and] at hus
      exact ⟨List.append_nil _, hus.symm⟩
    | cons c more =>
      cases more with
      | nil =>
        simp only [List.cons_append, List.nil_append, List.cons.injEq, true_and] at hus
        exact absurd rfl (solid'.around_colon (x := []) hus.2).1
      | cons c' more =>
        simp only [List.cons_append, List.cons.injEq] at hus
        have hdoubled : colonJoined us = more ++ [':', ':'] ++ y := by simp [hus.2.2]
        exact absurd hdoubled solid'.not_doubled
  · cases more with
    | nil =>
      simp only [List.nil_append, List.cons.injEq, true_and] at hrest
      exact ⟨(List.append_nil x).symm.trans hts.symm, hrest⟩
    | cons c more =>
      cases more with
      | nil =>
        simp only [List.cons_append, List.nil_append, List.cons.injEq] at hrest
        obtain ⟨rfl, _⟩ := hrest
        exact absurd rfl (solid.around_colon hts).2.1
      | cons c' more =>
        simp only [List.cons_append, List.cons.injEq] at hrest
        obtain ⟨rfl, rfl, _⟩ := hrest
        have hdoubled : colonJoined ts = x ++ [':', ':'] ++ more := by simp [hts]
        exact absurd hdoubled solid.not_doubled

end Solid

namespace Ipv6Address

/-! ## §2. The first run of zeros. -/

/-- The words in front of the first run of zeros, and those behind it. -/
structure FirstZeros (ws front back : List Nat) : Prop where
  split : ∃ zeros, ws = front ++ List.replicate (zeros + 1) 0 ++ back
  first : 0 ∉ front
  maximal : back.head? ≠ some 0

variable {ws ws' front back front' back' : List Nat}

theorem solid_hex (ws : List Nat) : Solid (ws.map Text.hex) := by
  intro t listed
  obtain ⟨n, _, rfl⟩ := List.mem_map.1 listed
  exact ⟨Text.hex_ne_nil n, Text.not_mem_hex (by decide) n⟩

theorem colonWords_injective (same : colonWords ws = colonWords ws') : ws = ws' :=
  Text.hex_injective.list_map ((solid_hex ws).joined_injective (solid_hex ws') same)

theorem compressed_of_not_mem (nonzero : 0 ∉ ws) : compressed ws = colonWords ws := by
  have all : ∀ w ∈ ws, (w != 0) = true := by
    intro w listed
    rw [bne_iff_ne]
    rintro rfl
    exact nonzero listed
  have hfront : ws.takeWhile (· != 0) = ws := List.takeWhile_eq_self_iff.2 all
  have hrest : ws.dropWhile (· != 0) = [] := List.dropWhile_eq_nil_iff.2 all
  simp only [compressed, hfront, hrest]

/-- **The first run of zeros** is written as two colons. -/
theorem compressed_of_firstZeros (h : FirstZeros ws front back) :
    compressed ws = colonWords front ++ [':', ':'] ++ colonWords back := by
  obtain ⟨⟨zeros, rfl⟩, first, maximal⟩ := h
  have all : ∀ w ∈ front, (w != 0) = true := by
    intro w listed
    rw [bne_iff_ne]
    rintro rfl
    exact first listed
  have hback : back.dropWhile (· == 0) = back := by
    cases back with
    | nil => rfl
    | cons w rest => exact List.dropWhile_cons_of_neg (by simpa using maximal)
  have hzeros : (List.replicate (zeros + 1) 0 ++ back).dropWhile (· == 0) = back := by
    rw [List.dropWhile_append_of_pos (by simp), hback]
  unfold compressed
  rw [List.append_assoc, List.takeWhile_append_of_pos all, List.dropWhile_append_of_pos all]
  simp only [List.replicate_succ, List.cons_append] at hzeros ⊢
  simp [hzeros]

theorem exists_firstZeros (zero : 0 ∈ ws) : ∃ front back, FirstZeros ws front back := by
  induction ws with
  | nil => exact absurd zero List.not_mem_nil
  | cons w rest ih =>
    by_cases hw : w = 0
    · subst hw
      -- the run goes on as long as there are zeros
      have hrun : rest.takeWhile (· == 0)
          = List.replicate (rest.takeWhile (· == 0)).length 0 := by
        refine List.eq_replicate_of_mem fun w listed => ?_
        simpa using List.mem_takeWhile_imp listed
      refine ⟨[], rest.dropWhile (· == 0), ⟨(rest.takeWhile (· == 0)).length, ?_⟩,
        List.not_mem_nil, ?_⟩
      · rw [List.replicate_succ, ← hrun]
        simp
      · intro hzero
        have hnot := List.head?_dropWhile_not (· == 0) rest
        rw [hzero] at hnot
        simp at hnot
    · have hrest : 0 ∈ rest := (List.mem_cons.1 zero).resolve_left (Ne.symm hw)
      obtain ⟨front, back, ⟨zeros, hsplit⟩, first, maximal⟩ := ih hrest
      refine ⟨w :: front, back, ⟨zeros, by rw [hsplit]; rfl⟩, ?_, maximal⟩
      rw [List.mem_cons, not_or]
      exact ⟨Ne.symm hw, first⟩

/-- Two colons in a text are those of the first run of zeros. -/
theorem FirstZeros.of_doubled {x y : List Char} (h : compressed ws = x ++ [':', ':'] ++ y) :
    ∃ front back, FirstZeros ws front back ∧ x = colonWords front ∧ y = colonWords back := by
  by_cases zero : 0 ∈ ws
  · obtain ⟨front, back, zeros⟩ := exists_firstZeros zero
    rw [compressed_of_firstZeros zeros] at h
    exact ⟨front, back, zeros, (solid_hex front).doubled_unique (solid_hex back) h⟩
  · rw [compressed_of_not_mem zero] at h
    exact absurd h (solid_hex ws).not_doubled

/-- As many words that are written alike are the same. -/
theorem compressed_injective (length : ws.length = ws'.length)
    (same : compressed ws = compressed ws') : ws = ws' := by
  by_cases zero : 0 ∈ ws
  · obtain ⟨front, back, zeros⟩ := exists_firstZeros zero
    obtain ⟨front', back', zeros', hfront, hback⟩ :=
      FirstZeros.of_doubled (same.symm.trans (compressed_of_firstZeros zeros))
    obtain rfl := colonWords_injective hfront
    obtain rfl := colonWords_injective hback
    -- how many zeros there were follows from how many words there are
    obtain ⟨⟨n, rfl⟩, _, _⟩ := zeros
    obtain ⟨⟨n', rfl⟩, _, _⟩ := zeros'
    simp only [List.length_append, List.length_replicate] at length
    obtain rfl : n = n' := by omega
    rfl
  · have hnone := compressed_of_not_mem zero
    by_cases zero' : 0 ∈ ws'
    · obtain ⟨front, back, zeros⟩ := exists_firstZeros zero'
      rw [same, compressed_of_firstZeros zeros] at hnone
      exact absurd hnone.symm (solid_hex ws).not_doubled
    · rw [hnone, compressed_of_not_mem zero'] at same
      exact colonWords_injective same

/-! ## §3. Word by word. -/

/-- What a printer of words has written: nothing yet, words, two colons, or two
colons and words. -/
inductive Printer where
  | head
  | headBody
  | tail
  | tailBody

namespace Printer

/-- What is written for a word, and what has been written then. -/
def step : Printer → Nat → List Char × Printer
  | head, 0 | headBody, 0 => ([':', ':'], tail)
  | tail, 0 => ([], tail)
  | head, w => (Text.hex w, headBody)
  | tail, w => (Text.hex w, tailBody)
  | headBody, w => (':' :: Text.hex w, headBody)
  | tailBody, w => (':' :: Text.hex w, tailBody)

/-- What is written for some words. -/
def run (state : Printer) : List Nat → List Char
  | [] => []
  | w :: rest => (state.step w).1 ++ (state.step w).2.run rest

end Printer

theorem colonWords_cons_cons (w v : Nat) (rest : List Nat) :
    colonWords (w :: v :: rest) = Text.hex w ++ ':' :: colonWords (v :: rest) := by
  simp [colonWords, Text.joined]

/-- Behind two colons all words are written, zeros too. -/
theorem Printer.run_tailBody (w : Nat) (ws : List Nat) :
    Text.hex w ++ tailBody.run ws = colonWords (w :: ws) := by
  induction ws generalizing w with
  | nil => simp [run, colonWords, Text.joined]
  | cons v rest ih =>
    rw [colonWords_cons_cons, ← ih v]
    simp [run, step]

theorem Printer.run_tail (ws : List Nat) : tail.run ws = colonWords (ws.dropWhile (· == 0)) := by
  induction ws with
  | nil => rfl
  | cons w rest ih =>
    by_cases hw : w = 0
    · subst hw
      simpa [run, step] using ih
    · rw [List.dropWhile_cons_of_neg (by simpa using hw), ← run_tailBody]
      simp [run, step]

/-- A word in front of another one is followed by a colon. -/
theorem compressed_cons_cons {w v : Nat} (hw : w ≠ 0) (hv : v ≠ 0) (rest : List Nat) :
    compressed (w :: v :: rest) = Text.hex w ++ ':' :: compressed (v :: rest) := by
  unfold compressed
  simp only [List.takeWhile_cons, List.dropWhile_cons, bne_iff_ne, hw, hv, ne_eq,
    not_false_eq_true, if_true]
  cases rest.dropWhile (· != 0) with
  | nil => exact colonWords_cons_cons w v _
  | cons z more => simp only [colonWords_cons_cons, List.append_assoc, List.cons_append]

/-- In front of the first zero, words are written with colons between them. -/
theorem Printer.run_headBody {w : Nat} (hw : w ≠ 0) (ws : List Nat) :
    Text.hex w ++ headBody.run ws = compressed (w :: ws) := by
  induction ws generalizing w with
  | nil => simp [run, compressed, colonWords, Text.joined, hw]
  | cons v rest ih =>
    by_cases hv : v = 0
    · subst hv
      simp [run, step, run_tail, compressed, colonWords, Text.joined, hw]
    · rw [compressed_cons_cons hw hv, ← ih hv]
      simp [run, step]

/-- **Looking at one word at a time** is enough. -/
theorem Printer.run_head (ws : List Nat) : head.run ws = compressed ws := by
  cases ws with
  | nil => rfl
  | cons w rest =>
    by_cases hw : w = 0
    · subst hw
      simp [run, step, run_tail, compressed, colonWords, Text.joined]
    · rw [← run_headBody hw]
      simp [run, step]

/-! ## §4. Words of an address. -/

/-- The first word of some bytes, and those behind it. -/
theorem exists_word {n : Nat} {b : Bytes} (length : b.length = 2 * (n + 1)) :
    ∃ hi lo rest, b = hi :: lo :: rest ∧ rest.length = 2 * n := by
  match b, length with
  | hi :: lo :: rest, length =>
    simp only [List.length_cons] at length
    exact ⟨hi, lo, rest, rfl, by omega⟩

theorem length_wordsOf {n : Nat} {b : Bytes} (length : b.length = 2 * n) :
    (wordsOf b).length = n := by
  induction n generalizing b with
  | zero =>
    obtain rfl := List.eq_nil_of_length_eq_zero length
    rfl
  | succ n ih =>
    obtain ⟨hi, lo, rest, rfl, hrest⟩ := exists_word length
    rw [wordsOf, List.length_cons, ih hrest]

theorem wordsOf_injective {n : Nat} {b b' : Bytes} (length : b.length = 2 * n)
    (length' : b'.length = 2 * n) (same : wordsOf b = wordsOf b') : b = b' := by
  induction n generalizing b b' with
  | zero =>
    obtain rfl := List.eq_nil_of_length_eq_zero length
    exact (List.eq_nil_of_length_eq_zero length').symm
  | succ n ih =>
    obtain ⟨hi, lo, rest, rfl, hrest⟩ := exists_word length
    obtain ⟨hi', lo', rest', rfl, hrest'⟩ := exists_word length'
    injection same with hword hwords
    have hlo := lo.toNat_lt
    have hlo' := lo'.toNat_lt
    obtain rfl : hi = hi' := UInt8.toNat_inj.1 (by omega)
    obtain rfl : lo = lo' := UInt8.toNat_inj.1 (by omega)
    rw [ih hrest hrest' hwords]

end Ipv6Address

/-! ## §5. Addresses that stand for an IPv4 address. -/

namespace Ipv4Address

/-- The four numbers are found again between the points. -/
theorem splitOn_chars (a : Ipv4Address) :
    a.chars.splitOn '.' = a.bytes.map fun x => Text.decimal x.toNat := by
  unfold chars
  rw [Text.joined_eq_intercalate]
  refine List.splitOn_intercalate '.' (fun t listed => ?_) ?_
  · obtain ⟨x, _, rfl⟩ := List.mem_map.1 listed
    exact Text.not_mem_decimal (by decide) x.toNat
  · intro hnone
    have hlength := a.length_bytes
    rw [List.map_eq_nil_iff.1 hnone] at hlength
    cases hlength

theorem chars_injective : Function.Injective chars := by
  intro a a' same
  have hparts := (splitOn_chars a).symm.trans ((congrArg (List.splitOn '.') same).trans
    (splitOn_chars a'))
  have hbytes : a.bytes = a'.bytes :=
    (Text.decimal_injective.comp fun x y => UInt8.toNat_inj.1).list_map hparts
  obtain ⟨b, _⟩ := a
  obtain rfl : b = a'.bytes := hbytes
  rfl

theorem point_mem_chars (a : Ipv4Address) : '.' ∈ a.chars := by
  by_contra none
  have hparts := congrArg List.length (splitOn_chars a)
  rw [List.splitOn_eq_singleton none, List.length_map, a.length_bytes] at hparts
  cases hparts

theorem colon_not_mem_chars (a : Ipv4Address) : ':' ∉ a.chars := by
  intro h
  rcases Text.mem_joined h with between | ⟨t, listed, inside⟩
  · exact absurd between (by decide)
  · obtain ⟨x, _, rfl⟩ := List.mem_map.1 listed
    exact Text.not_mem_decimal (by decide) x.toNat inside

end Ipv4Address

namespace Ipv6Address

/-- Words are written without a point. -/
theorem point_not_mem_compressed (ws : List Nat) : '.' ∉ compressed ws := by
  have words : ∀ ws, '.' ∉ colonWords ws := by
    intro ws h
    rcases Text.mem_joined h with between | ⟨t, listed, inside⟩
    · exact absurd between (by decide)
    · obtain ⟨n, _, rfl⟩ := List.mem_map.1 listed
      exact Text.not_mem_hex (by decide) n inside
  by_cases zero : 0 ∈ ws
  · obtain ⟨front, back, zeros⟩ := exists_firstZeros zero
    rw [compressed_of_firstZeros zeros]
    simp [words]
  · rw [compressed_of_not_mem zero]
    exact words ws

/-- What an address that stands for an IPv4 address consists of. -/
theorem bytes_of_mapped {a : Ipv6Address} (mapped : a.isIpv4Mapped = true) :
    a.bytes = [0, 0, 0, 0, 0, 0, 0, 0, 0, 0, 0xff, 0xff] ++ a.lowIpv4.bytes := by
  have hlow : a.lowIpv4.bytes = a.bytes.drop 12 := by
    have hlength : (a.bytes.drop 12).length = 4 := by rw [List.length_drop, a.length_bytes]
    simp [lowIpv4, Octets.fit, Bytes.resize, hlength, List.take_of_length_le hlength.le]
  have hmark : a.bytes.take 12 = [0, 0, 0, 0, 0, 0, 0, 0, 0, 0, 0xff, 0xff] := eq_of_beq mapped
  rw [hlow, ← hmark, List.take_append_drop]

/-- The text of such an address has words, too. -/
theorem chars_of_mapped {a : Ipv6Address} (mapped : a.isIpv4Mapped = true) :
    a.chars = colonJoined [] ++ [':', ':'] ++ colonJoined ["ffff".toList, a.lowIpv4.chars] := by
  simp [chars, mapped, Text.joined]

theorem solid_mapped (a : Ipv6Address) : Solid ["ffff".toList, a.lowIpv4.chars] := by
  have nonempty : a.lowIpv4.chars ≠ [] := List.ne_nil_of_mem a.lowIpv4.point_mem_chars
  intro t listed
  rcases List.mem_cons.1 listed with rfl | listed
  · decide
  · obtain rfl := List.mem_singleton.1 listed
    exact ⟨nonempty, a.lowIpv4.colon_not_mem_chars⟩

theorem chars_of_words {a : Ipv6Address} (plain : a.isIpv4Mapped = false) :
    a.chars = compressed a.words := by
  simp [chars, plain]

/-! ## §6. All addresses. -/

/-- Two colons stand in one place at most. -/
theorem doubled_once (a : Ipv6Address) : ∃ ts us, Solid ts ∧ Solid us
    ∧ (a.chars = colonJoined ts ∨ a.chars = colonJoined ts ++ [':', ':'] ++ colonJoined us) := by
  cases mapped : a.isIpv4Mapped with
  | true => exact ⟨[], _, nofun, solid_mapped a, .inr (chars_of_mapped mapped)⟩
  | false =>
    rw [chars_of_words mapped]
    by_cases zero : 0 ∈ a.words
    · obtain ⟨front, back, zeros⟩ := exists_firstZeros zero
      exact ⟨_, _, solid_hex front, solid_hex back, .inr (compressed_of_firstZeros zeros)⟩
    · exact ⟨_, [], solid_hex a.words, nofun, .inl (compressed_of_not_mem zero)⟩

theorem chars_injective : Function.Injective chars := by
  -- a mapped address is the only one that is written with points
  have points : ∀ {a b : Ipv6Address}, a.isIpv4Mapped = true → b.isIpv4Mapped = false →
      a.chars ≠ b.chars := by
    intro a b mapped plain same
    have hpoint : '.' ∈ a.chars := by simp [chars, mapped, a.lowIpv4.point_mem_chars]
    rw [same, chars_of_words plain] at hpoint
    exact point_not_mem_compressed b.words hpoint
  have bytes : ∀ {a b : Ipv6Address}, a.bytes = b.bytes → a = b := by
    rintro ⟨_, _⟩ ⟨_, _⟩ rfl
    rfl
  intro a b same
  cases ha : a.isIpv4Mapped with
  | true =>
    cases hb : b.isIpv4Mapped with
    | false => exact absurd same (points ha hb)
    | true =>
      have hlow : a.lowIpv4 = b.lowIpv4 := by
        simp only [chars, ha, hb, if_true, List.append_cancel_left_eq] at same
        exact Ipv4Address.chars_injective same
      exact bytes (by rw [bytes_of_mapped ha, bytes_of_mapped hb, hlow])
  | false =>
    cases hb : b.isIpv4Mapped with
    | true => exact absurd same.symm (points hb ha)
    | false =>
      rw [chars_of_words ha, chars_of_words hb] at same
      have hlength : ∀ c : Ipv6Address, c.words.length = 8 := fun c =>
        length_wordsOf (n := 8) c.length_bytes
      exact bytes (wordsOf_injective (n := 8) a.length_bytes b.length_bytes
        (compressed_injective ((hlength a).trans (hlength b).symm) same))

/-- How an address is written that does not stand for an IPv4 address. -/
structure WordText (a : Ipv6Address) : Prop where
  /-- A printer writes it word by word. -/
  printed : a.chars = Printer.head.run a.words
  /-- Without a zero among them all words are there. -/
  full : 0 ∉ a.words → a.chars = colonWords a.words
  shortened : 0 ∈ a.words → ∃ x y, a.chars = x ++ [':', ':'] ++ y
  /-- Two colons stand exactly where the first run of zeros is. -/
  omitted : ∀ x y, a.chars = x ++ [':', ':'] ++ y ↔
    ∃ front back, FirstZeros a.words front back ∧ x = colonWords front ∧ y = colonWords back

/-- What the text of an address tells. -/
structure Told (a : Ipv6Address) : Prop where
  /-- Two colons stand in it in one place at most. -/
  once : ∀ x y x' y', a.chars = x ++ [':', ':'] ++ y → a.chars = x' ++ [':', ':'] ++ y' →
    x = x' ∧ y = y'
  mapped : a.isIpv4Mapped = true → a.text = "::ffff:" ++ a.lowIpv4.text
  words : a.isIpv4Mapped = false → a.WordText

theorem wordText {a : Ipv6Address} (plain : a.isIpv4Mapped = false) : a.WordText := by
  constructor <;> rw [chars_of_words plain]
  · exact (Printer.run_head a.words).symm
  · exact compressed_of_not_mem
  · intro zero
    obtain ⟨front, back, zeros⟩ := exists_firstZeros zero
    exact ⟨_, _, compressed_of_firstZeros zeros⟩
  · refine fun x y => ⟨FirstZeros.of_doubled, ?_⟩
    rintro ⟨front, back, zeros, rfl, rfl⟩
    exact compressed_of_firstZeros zeros

theorem told (a : Ipv6Address) : a.Told where
  once x y x' y' h h' := by
    obtain ⟨ts, us, solid, solid', single | doubled⟩ := doubled_once a
    · exact absurd (single.symm.trans h) solid.not_doubled
    · obtain ⟨rfl, rfl⟩ := solid.doubled_unique solid' (doubled.symm.trans h)
      obtain ⟨rfl, rfl⟩ := solid.doubled_unique solid' (doubled.symm.trans h')
      exact ⟨rfl, rfl⟩
  mapped mapped := by
    rw [text, chars, if_pos mapped, String.ofList_append, String.ofList_toList]
    rfl
  words := wordText

/-- **The text of an address is unambiguous.**  No two addresses share one, and
each text tells whether the address stands for an IPv4 address, and where the
first run of zeros is. -/
theorem text_unambiguous :
    (∀ a b : Ipv6Address, a.text = b.text → a = b) ∧ ∀ a : Ipv6Address, a.Told :=
  ⟨fun _ _ same => chars_injective (String.ofList_injective same), told⟩

/-- Of two runs of zeros the first is left out, though the second is longer. -/
theorem text_unambiguous_twoRuns :
    ∃ a : Ipv6Address, a.words = [1, 0, 0, 2, 0, 0, 0, 3] ∧ a.text = "1::2:0:0:0:3"
      ∧ (∀ x y, a.chars = x ++ [':', ':'] ++ y → x = "1".toList ∧ y = "2:0:0:0:3".toList)
      ∧ ∀ b : Ipv6Address, b.text = "1::2:0:0:0:3" → b = a := by
  let a : Ipv6Address := ⟨[0, 1, 0, 0, 0, 0, 0, 2, 0, 0, 0, 0, 0, 0, 0, 3], rfl⟩
  obtain ⟨only, texts⟩ := text_unambiguous
  have hchars : a.chars = "1".toList ++ [':', ':'] ++ "2:0:0:0:3".toList := by decide
  have htext : a.text = "1::2:0:0:0:3" := congrArg String.ofList hchars
  exact ⟨a, by decide, htext, fun x y h => (texts a).once x y _ _ h hchars,
    fun b same => only b a (same.trans htext.symm)⟩

end Ipv6Address

end PacketLayers
