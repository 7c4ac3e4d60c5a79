/-
  PacketLayers.Proofs.EthernetText
  ────────────────────────────────
  **ETHERNET ADDRESSES ARE READ WITH COLONS AND WRITTEN WITHOUT.**

  The text of an address and the texts that are read as addresses have the same
  digits, but not the same separator.  So no text of an address is ever read,
  and every one is read once its separators are colons:

    • `component?_eq_some` — which numbers are components;
    • `parse_eq_ok` — which texts are addresses: six components, with a colon
      between each two;
    • `ofChars_spelled` — the pairs of digits of an address with any separator;
    • `text_readBack` — put together for all addresses.
-/
import Mathlib.Data.List.Forall2
import PacketLayers.Address.Ethernet
import PacketLayers.Proofs.AddressText
import PacketLayers.Theory.Result

namespace PacketLayers

/-! ## §1. Parts between separators. -/

namespace Text

theorem splitOn_eq (separator : Char) (cs : List Char) :
    splitOn separator cs = cs.splitOn separator := by
  induction cs with
  | nil => rfl
  | cons c rest ih =>
    rw [splitOn, ih, List.splitOn_cons_eq_if_modifyHead]
    simp only [beq_iff_eq]
    split
    · rfl
    · have hparts := List.splitOn_ne_nil separator rest
      cases hsplit : rest.splitOn separator with
      | nil => exact absurd hsplit hparts
      | cons part parts => rfl

/-- A text without the separator is one part. -/
theorem splitOn_of_not_mem {separator : Char} {cs : List Char} (absent : separator ∉ cs) :
    splitOn separator cs = [cs] := by
  have hone : ([separator].intercalate [cs]).splitOn separator = [cs] :=
    List.splitOn_intercalate separator (by simpa using absent) (by simp)
  rwa [List.intercalate_singleton, ← splitOn_eq] at hone

end Text

namespace EthernetAddress

/-! ## §2. One component. -/

/-- A number as a byte, if it is one. -/
def byte? (n : Nat) : Option UInt8 := if n < 256 then some (UInt8.ofNat n) else none

theorem byte?_eq_some {n : Nat} {x : UInt8} : byte? n = some x ↔ n = x.toNat := by
  unfold byte?
  constructor
  · intro h
    split at h
    · next small =>
      injection h with h
      rw [← h, UInt8.toNat_ofNat_of_lt' small]
    · cases h
  · rintro rfl
    rw [if_pos x.toNat_lt, UInt8.ofNat_toNat]

theorem component?_signed (rest : List Char) :
    component? ('+' :: rest) = (Text.hexNumber? rest).bind byte? := by
  simp only [component?]
  cases Text.hexNumber? rest <;> rfl

theorem component?_unsigned {part : List Char} (unsigned : ∀ rest, part ≠ '+' :: rest) :
    component? part = (Text.hexNumber? part).bind byte? := by
  unfold component?
  split
  · next rest => exact absurd rfl (unsigned rest)
  · simp only
    cases Text.hexNumber? part <;> rfl

/-- A component spells a byte: one digit or more, with one `+` in front of them
or none. -/
def Spells (part : List Char) (x : UInt8) : Prop :=
  ∃ digits, (part = digits ∨ part = '+' :: digits) ∧ Text.hexNumber? digits = some x.toNat

/-- **A component is read** as the byte that it spells. -/
theorem component?_eq_some {part : List Char} {x : UInt8} :
    component? part = some x ↔ Spells part x := by
  have byte : ∀ digits, (Text.hexNumber? digits).bind byte? = some x
      ↔ Text.hexNumber? digits = some x.toNat := by
    intro digits
    simp only [Option.bind_eq_some_iff, byte?_eq_some, exists_eq_right]
  unfold Spells
  -- the sign is dropped if there is one, and a second one is no digit
  by_cases signed : ∃ rest, part = '+' :: rest
  · obtain ⟨rest, rfl⟩ := signed
    rw [component?_signed, byte]
    constructor
    · intro h
      exact ⟨rest, .inr rfl, h⟩
    · rintro ⟨digits, rfl | same, h⟩
      · obtain ⟨d, hd⟩ := (Text.hexValue?_of_hexNumber? h).2 '+' List.mem_cons_self
        cases hd
      · injection same with _ same
        rwa [same]
  · have unsigned : ∀ rest, part ≠ '+' :: rest := fun rest same => signed ⟨rest, same⟩
    rw [component?_unsigned unsigned, byte]
    constructor
    · intro h
      exact ⟨part, .inl rfl, h⟩
    · rintro ⟨digits, rfl | rfl, h⟩
      · exact h
      · exact absurd rfl (unsigned digits)

namespace Spells

variable {part : List Char} {x : UInt8}

/-- Behind the sign there are only digits. -/
theorem digit (h : Spells part x) {c : Char} (inside : c ∈ part) :
    c = '+' ∨ ∃ d, Text.hexValue? c = some d := by
  obtain ⟨digits, rfl | rfl, hread⟩ := h
  · exact .inr ((Text.hexValue?_of_hexNumber? hread).2 c inside)
  · rcases List.mem_cons.1 inside with rfl | inside
    · exact .inl rfl
    · exact .inr ((Text.hexValue?_of_hexNumber? hread).2 c inside)

theorem ne_nil (h : Spells part x) : part ≠ [] := by
  obtain ⟨digits, rfl | rfl, hread⟩ := h
  · exact (Text.hexValue?_of_hexNumber? hread).1
  · exact List.cons_ne_nil _ _

theorem not_mem_colon (h : Spells part x) : ':' ∉ part := by
  intro inside
  rcases h.digit inside with hsign | ⟨d, hd⟩
  · exact absurd hsign (by decide)
  · cases hd

/-- Behind a digit there is no sign. -/
theorem digit_behind {first : Char} {rest : List Char} (h : Spells (first :: rest) x)
    (unsigned : first ≠ '+') {c : Char} (inside : c ∈ rest) : ∃ d, Text.hexValue? c = some d := by
  obtain ⟨digits, rfl | same, hread⟩ := h
  · exact (Text.hexValue?_of_hexNumber? hread).2 c (List.mem_cons_of_mem first inside)
  · injection same with hfirst _
    exact absurd hfirst unsigned

/-- The digits that are written for a byte spell it, however many there are. -/
theorem hexPadded (width : Nat) (x : UInt8) : Spells (Text.hexPadded width x.toNat) x :=
  ⟨_, .inl rfl, Text.hexNumber?_hexPadded width x.toNat⟩

end Spells

/-! ## §3. Six components. -/

theorem components_eq_ok {n : Nat} {parts : List (List Char)} {b : Bytes} :
    components n parts = .ok b ↔ b.length = n ∧ List.Forall₂ Spells parts b := by
  -- on the number of components; parts and bytes run out together
  induction n generalizing parts b with
  | zero =>
    cases parts with
    | nil =>
      constructor
      · intro h
        cases h
        exact ⟨rfl, .nil⟩
      · rintro ⟨_, hparts⟩
        cases hparts
        rfl
    | cons part parts =>
      constructor
      · intro h; cases h
      · rintro ⟨hlength, hparts⟩
        cases hparts
        simp at hlength
  | succ n ih =>
    cases parts with
    | nil =>
      constructor
      · intro h; cases h
      · rintro ⟨hlength, hparts⟩
        cases hparts
        simp at hlength
    | cons part parts =>
      rw [components]
      constructor
      · intro h
        split at h
        · cases h
        · next x hx =>
          obtain ⟨rest, hrest, rfl⟩ := map_eq_ok.1 h
          obtain ⟨hlength, hparts⟩ := ih.1 hrest
          exact ⟨by simp [hlength], .cons (component?_eq_some.1 hx) hparts⟩
      · rintro ⟨hlength, hparts⟩
        cases hparts with
        | @cons _ x _ rest hpart hparts =>
          have hrest : components n parts = .ok rest := ih.2 ⟨by simpa using hlength, hparts⟩
          rw [component?_eq_some.2 hpart, hrest]
          rfl

/-- A first component that is none decides. -/
theorem components_of_none {n : Nat} {part : List Char} {parts : List (List Char)}
    (none : component? part = none) : components (n + 1) (part :: parts) = .error .component := by
  rw [components, none]

theorem ofChars_eq_ok {cs : List Char} {a : EthernetAddress} :
    ofChars cs = .ok a ↔ components 6 (Text.splitOn ':' cs) = .ok a.bytes := by
  unfold ofChars
  split
  · next b h =>
    constructor
    · intro same
      injection same with same
      rw [h, ← same]
    · intro hread
      rw [h] at hread
      injection hread with same
      subst same
      rfl
  · next e h =>
    constructor
    · intro same
      cases same
    · intro hread
      cases h.symm.trans hread

theorem ofChars_eq_error {cs : List Char} {e : ParseError}
    (h : components 6 (Text.splitOn ':' cs) = .error e) : ofChars cs = .error e := by
  unfold ofChars
  split
  · next b hread => cases hread.symm.trans h
  · next e' hread =>
    rw [hread] at h
    injection h with same
    rw [same]

theorem solid_of_spells {parts : List (List Char)} {b : Bytes}
    (h : List.Forall₂ Spells parts b) : Solid parts := by
  induction h with
  | nil => exact fun _ listed => absurd listed List.not_mem_nil
  | cons hpart _ ih =>
    intro t listed
    rcases List.mem_cons.1 listed with rfl | listed
    · exact ⟨hpart.ne_nil, hpart.not_mem_colon⟩
    · exact ih t listed

/-- **Characters are an address** exactly if they are components with a colon
between each two, one for each byte. -/
theorem ofChars_eq_ok_iff {cs : List Char} {a : EthernetAddress} :
    ofChars cs = .ok a ↔ ∃ parts, cs = colonJoined parts ∧ List.Forall₂ Spells parts a.bytes := by
  rw [ofChars_eq_ok, components_eq_ok, Text.splitOn_eq]
  constructor
  · rintro ⟨_, hparts⟩
    refine ⟨_, ?_, hparts⟩
    rw [colonJoined, Text.joined_eq_intercalate, List.intercalate_splitOn]
  · rintro ⟨parts, rfl, hparts⟩
    have nonempty : parts ≠ [] := by
      rintro rfl
      have hlength := hparts.length_eq
      rw [a.length_bytes] at hlength
      cases hlength
    rw [(solid_of_spells hparts).splitOn_joined nonempty]
    exact ⟨a.length_bytes, hparts⟩

/-! ## §4. Pairs of digits with a separator. -/

/-- The pairs of digits of an address with a separator between each two. -/
def spelled (separator : Char) (a : EthernetAddress) : List Char :=
  Text.joined [separator] (a.bytes.map fun x => Text.hexPadded 2 x.toNat)

theorem spells_pairs (b : Bytes) :
    List.Forall₂ Spells (b.map fun x => Text.hexPadded 2 x.toNat) b := by
  induction b with
  | nil => exact .nil
  | cons x rest ih => exact .cons (.hexPadded 2 x) ih

/-- A colon stands between the pairs or nowhere. -/
theorem not_mem_spelled {c : Char} (other : c ≠ ':') (a : EthernetAddress) :
    ':' ∉ spelled c a := by
  intro inside
  rcases Text.mem_joined inside with hseparator | ⟨t, listed, inside⟩
  · exact other (List.mem_singleton.1 hseparator).symm
  · obtain ⟨x, _, rfl⟩ := List.mem_map.1 listed
    exact (Spells.hexPadded 2 x).not_mem_colon inside

/-- A digit comes first, and the separator behind it. -/
theorem spelled_eq_cons (c : Char) (a : EthernetAddress) :
    ∃ first rest, spelled c a = first :: rest ∧ first ≠ '+' ∧ c ∈ rest := by
  obtain ⟨b, hb⟩ := a
  match b, hb with
  | x :: y :: more, _ =>
    obtain ⟨nonempty, digits⟩ :=
      Text.hexValue?_of_hexNumber? (Text.hexNumber?_hexPadded 2 x.toNat)
    obtain ⟨first, behind, hpair⟩ := List.exists_cons_of_ne_nil nonempty
    have unsigned : first ≠ '+' := by
      rintro rfl
      obtain ⟨d, hd⟩ := digits '+' (hpair ▸ List.mem_cons_self)
      cases hd
    refine ⟨first,
      behind ++ c :: Text.joined [c] ((y :: more).map fun x => Text.hexPadded 2 x.toNat),
      ?_, unsigned, ?_⟩
    · simp only [spelled, List.map_cons, Text.joined, hpair, List.cons_append, List.append_assoc,
        List.nil_append]
    · exact List.mem_append_right _ List.mem_cons_self

/-- **The pairs of digits of an address** are read if colons separate them.  With
another separator they are one component, and none that spells a byte. -/
theorem ofChars_spelled {c : Char} (other : Text.hexValue? c = none) (a : EthernetAddress) :
    ofChars (spelled c a) = if c = ':' then .ok a else .error .component := by
  split
  · next colon =>
    subst colon
    exact ofChars_eq_ok_iff.2 ⟨_, rfl, spells_pairs a.bytes⟩
  · next separator =>
    apply ofChars_eq_error
    rw [Text.splitOn_of_not_mem (not_mem_spelled separator a)]
    apply components_of_none
    obtain ⟨first, rest, hcons, unsigned, inside⟩ := spelled_eq_cons c a
    cases hread : component? (spelled c a) with
    | none => rfl
    | some x =>
      -- a component would have nothing but digits behind the first one
      have spells := component?_eq_some.1 hread
      rw [hcons] at spells
      obtain ⟨d, hd⟩ := spells.digit_behind unsigned inside
      cases other.symm.trans hd

/-! ## §5. Texts of addresses. -/

/-- **The text of an address is not read back, for its separators alone.**  The
text is the pairs of digits of the bytes with `-` between them, and reading it
fails at the first component, whatever the address.  The same pairs with colons
between them are read back as the address, and with any other separator that is
no digit they are not.  And a text is read as the address exactly if it is made
of components with a colon between each two, one for each byte of the address:
every such text stands for an address that can be written with colons and read
again. -/
theorem text_readBack (a : EthernetAddress) :
    a.text = String.ofList (spelled '-' a)
    ∧ parse a.text = .error .component
    ∧ parse (String.ofList (spelled ':' a)) = .ok a
    ∧ (∀ c, Text.hexValue? c = none → c ≠ ':' →
        parse (String.ofList (spelled c a)) = .error .component)
    ∧ (∀ s, parse s = .ok a ↔
        ∃ parts, s.toList = colonJoined parts ∧ List.Forall₂ Spells parts a.bytes) := by
  have read : ∀ c, Text.hexValue? c = none → parse (String.ofList (spelled c a))
      = if c = ':' then .ok a else .error .component := by
    intro c other
    rw [parse, String.toList_ofList, ofChars_spelled other a]
  refine ⟨rfl, read '-' rfl, read ':' rfl, ?_, fun s => ofChars_eq_ok_iff⟩
  intro c other separator
  rw [read c other, if_neg separator]

/-- An address with a byte below sixteen, read from a text that is not its own. -/
theorem text_readBack_signed :
    ∃ a : EthernetAddress, a.bytes = [1, 2, 3, 0xab, 0xcd, 0]
      ∧ parse "1:+2:003:aB:CD:0" = .ok a
      ∧ parse (String.ofList (spelled ':' a)) = .ok a
      ∧ parse (String.ofList (spelled '.' a)) = .error .component := by
  let a : EthernetAddress := ⟨[1, 2, 3, 0xab, 0xcd, 0], rfl⟩
  obtain ⟨_, _, hcolons, hothers, hread⟩ := text_readBack a
  refine ⟨a, rfl, (hread _).2 ⟨[['1'], ['+', '2'], ['0', '0', '3'], ['a', 'B'], ['C', 'D'], ['0']],
    by decide, ?_⟩, hcolons, hothers '.' (by decide) (by decide)⟩
  exact .cons ⟨_, .inl rfl, rfl⟩ (.cons ⟨_, .inr rfl, rfl⟩ (.cons ⟨_, .inl rfl, rfl⟩
    (.cons ⟨_, .inl rfl, rfl⟩ (.cons ⟨_, .inl rfl, rfl⟩ (.cons ⟨_, .inl rfl, rfl⟩ .nil)))))

/-- The text of an address, and a text that is read as that address. -/
theorem text_readBack_refuted :
    ∃ a : EthernetAddress, a.text = "01-02-03-04-05-06" ∧ parse "01:02:03:04:05:06" = .ok a
      ∧ parse a.text = .error .component
      ∧ ¬ (∀ b : EthernetAddress, parse b.text = .ok b)
      ∧ ¬ (∀ (s : String) (b : EthernetAddress), parse s = .ok b → parse b.text = .ok b) := by
  let a : EthernetAddress := ⟨[1, 2, 3, 4, 5, 6], rfl⟩
  have htext : a.text = "01-02-03-04-05-06" := congrArg String.ofList (by decide)
  have hread : parse "01:02:03:04:05:06" = .ok a := by decide
  have hrefused : parse a.text = .error .component := by rw [htext]; decide
  refine ⟨a, htext, hread, hrefused, fun all => ?_, fun all => ?_⟩
  · cases hrefused.symm.trans (all a)
  · cases hrefused.symm.trans (all _ a hread)

end EthernetAddress

end PacketLayers
