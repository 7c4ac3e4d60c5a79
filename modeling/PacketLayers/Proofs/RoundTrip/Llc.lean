/-
  PacketLayers.Proofs.RoundTrip.Llc
  ────────────────────────────────
  **LOGICAL LINK CONTROL IS READ BACK, UNLESS ITS CONTROL FIELD LOOKS SHORT.**

  A header says in the first byte of its control field whether the field has a
  second one.  Contents have the control field as one number, and say how long
  they are by the low bits of that number, which are in the last byte.  A
  control field of two bytes whose second byte looks like the only one of a
  short field (`LooksShort`) is taken for that byte alone; all other headers
  are written as they were read:

    • `parse_eq_ok` — which headers are read, and what as;
    • `linkControl_roundTrip` — which of them come back, and what comes instead.
-/
import PacketLayers.Proofs.Lawful.Link
import PacketLayers.Proofs.RoundTrip

namespace PacketLayers.Llc

/-! ## §1. The low bits of a control field. -/

theorem low_bits_byte (x : UInt8) : x &&& 0x3 = 0x3 ↔ x.toNat % 4 = 3 := by
  have hand : (x &&& 0x3).toNat = x.toNat % 4 :=
    (UInt8.toNat_and x 0x3).trans (Nat.and_two_pow_sub_one_eq_mod _ 2)
  rw [← UInt8.toNat_inj, hand]
  rfl

theorem low_bits_word (x : UInt16) : x &&& 0x3 = 0x3 ↔ x.toNat % 4 = 3 := by
  have hand : (x &&& 0x3).toNat = x.toNat % 4 :=
    (UInt16.toNat_and x 0x3).trans (Nat.and_two_pow_sub_one_eq_mod _ 2)
  rw [← UInt16.toNat_inj, hand]
  rfl

/-- The number in a control field of two bytes. -/
theorem toNat_longControl (a b c x : UInt8) (rest : Bytes) :
    (Layout.longControl.value (a :: b :: c :: x :: rest)).toNat = c.toNat * 256 + x.toNat := by
  have hc := c.toNat_lt
  have hx := x.toNat_lt
  have hbytes : Bytes.toNat [c, x] = c.toNat * 256 + x.toNat := by
    simp [Bytes.toNat, Nat.shiftLeft_eq]
  show (UInt16.ofNat (Bytes.toNat [c, x])).toNat = _
  rw [UInt16.toNat_ofNat', hbytes, Nat.mod_eq_of_lt (by omega)]

/-- The last byte of a control field of two bytes. -/
theorem toUInt8_longControl (a b c x : UInt8) (rest : Bytes) :
    (Layout.longControl.value (a :: b :: c :: x :: rest)).toUInt8 = x := by
  have hx := x.toNat_lt
  refine UInt8.toNat_inj.1 ?_
  rw [UInt16.toNat_toUInt8, toNat_longControl]
  omega

/-- Contents tell the length of their header by the last byte of the control
field. -/
theorem size_plain (a b : UInt8) (control : UInt16) :
    (Header.plain a b control).size = if control.toNat % 4 = 3 then 3 else 4 := by
  show (if control &&& 0x3 != 0x3 then 4 else 3) = _
  by_cases hlow : control.toNat % 4 = 3
  · simp [hlow, (low_bits_word control).2 hlow]
  · have hword : ¬ control &&& 0x3 = 0x3 := fun h => hlow ((low_bits_word control).1 h)
    simp [hlow, hword]

/-! ## §2. The forms of a header. -/

/-- The control field has two bytes, and the second looks like the only one of
a short field. -/
def LooksShort (h : Bytes) : Prop :=
  ∃ a b c x rest, h = a :: b :: c :: x :: rest ∧ lengthOf a b c = 4 ∧ x &&& 0x3 = 0x3

/-- Headers of another length do not look short. -/
theorem not_looksShort {a b c : UInt8} {rest : Bytes} (other : lengthOf a b c ≠ 4) :
    ¬ LooksShort (a :: b :: c :: rest) := by
  rintro ⟨_, _, _, _, _, heq, hfour, _⟩
  obtain ⟨rfl, rfl, rfl, rfl⟩ := by simpa using heq
  exact other hfour

/-- The others do if the contents claim a length of three. -/
theorem looksShort_iff {a b c : UInt8} (four : lengthOf a b c = 4) (x : UInt8) (rest : Bytes) :
    LooksShort (a :: b :: c :: x :: rest)
      ↔ (Header.plain a b (Layout.longControl.value (a :: b :: c :: x :: rest))).size = 3 := by
  have hvalue := toNat_longControl a b c x rest
  have hsize : (Header.plain a b (Layout.longControl.value (a :: b :: c :: x :: rest))).size = 3
      ↔ x.toNat % 4 = 3 := by
    rw [size_plain]
    split <;> omega
  rw [hsize, ← low_bits_byte]
  constructor
  · rintro ⟨_, _, _, _, _, heq, _, hlow⟩
    obtain ⟨rfl, rfl, rfl, rfl, rfl⟩ := by simpa using heq
    exact hlow
  · intro hlow
    exact ⟨a, b, c, x, rest, rfl, four, hlow⟩

/-- The contents of a header that starts with three bytes. -/
def Header.ofFirst (a b c : UInt8) (h : Bytes) : Header :=
  if startsSnap a b c = true then .snap (Layout.organization.value h) (Layout.etherType.value h)
  else if lengthOf a b c = 4 then .plain a b (Layout.longControl.value h)
  else .plain a b c.toUInt16

/-- A header is a SNAP header, or has a control field of two bytes or one. -/
theorem lengthOf_cases (a b c : UInt8) :
    (startsSnap a b c = true ∧ lengthOf a b c = 8)
      ∨ (¬ startsSnap a b c = true ∧ ¬ c &&& 0x3 = 0x3 ∧ lengthOf a b c = 4)
      ∨ (¬ startsSnap a b c = true ∧ c &&& 0x3 = 0x3 ∧ lengthOf a b c = 3) := by
  unfold lengthOf
  by_cases hsnap : startsSnap a b c = true
  · exact .inl ⟨hsnap, if_pos hsnap⟩
  · rw [if_neg hsnap]
    by_cases hlow : c &&& 0x3 = 0x3
    · exact .inr (.inr ⟨hsnap, hlow, by simp [hlow]⟩)
    · exact .inr (.inl ⟨hsnap, hlow, by simp [hlow]⟩)

/-- A header is read if it has the length that its first bytes ask for. -/
theorem parse_eq_ok {h : Bytes} {r : Header} :
    Header.parse h = .ok r ↔ ∃ a b c rest, h = a :: b :: c :: rest
      ∧ lengthOf a b c ≤ h.length ∧ r = Header.ofFirst a b c h := by
  have hread : ∀ a b c rest, lengthOf a b c ≤ (a :: b :: c :: rest).length →
      Header.parse (a :: b :: c :: rest) = .ok (Header.ofFirst a b c (a :: b :: c :: rest)) := by
    intro a b c rest long
    have hcheck : format.check (a :: b :: c :: rest) = .ok () :=
      HeaderFormat.accepts_iff.1 (accepts_iff.2 ⟨_, rfl, long⟩)
    obtain ⟨hdsap, hssap, hcontrol⟩ := value_bytes a b c rest
    unfold Header.parse Header.ofFirst
    rw [hcheck, ok_bind, hdsap, hssap, hcontrol]
    dsimp only
    split
    · rfl
    · split <;> rfl
  constructor
  · intro parsed
    obtain ⟨_, hcheck, _⟩ := bind_eq_ok.1 parsed
    obtain ⟨n, hasks, hn⟩ := accepts_iff.1 (HeaderFormat.accepts_iff.2 hcheck)
    -- three bytes are there, or no length is asked for
    match h with
    | [] => cases hasks
    | [_] => cases hasks
    | [_, _] => cases hasks
    | a :: b :: c :: rest =>
      obtain rfl : lengthOf a b c = n := Option.some.inj hasks
      rw [hread a b c rest hn] at parsed
      exact ⟨a, b, c, rest, rfl, hn, (Except.ok.inj parsed).symm⟩
  · rintro ⟨a, b, c, rest, rfl, long, rfl⟩
    exact hread a b c rest long

/-- Nothing is read from behind the header. -/
theorem ofFirst_append {a b c : UInt8} {h : Bytes} (long : lengthOf a b c ≤ h.length)
    (rest : Bytes) : Header.ofFirst a b c (h ++ rest) = Header.ofFirst a b c h := by
  unfold Header.ofFirst
  rcases lengthOf_cases a b c with ⟨hsnap, hlength⟩ | ⟨hplain, _, hlength⟩ | ⟨hplain, _, hlength⟩
  · rw [hlength] at long
    have horganization : Layout.organization.stop ≤ h.length := Nat.le_trans (by decide) long
    have hetherType : Layout.etherType.stop ≤ h.length := long
    rw [if_pos hsnap, if_pos hsnap, Field.value_append horganization,
      Field.value_append hetherType]
  · rw [hlength] at long
    have hcontrol : Layout.longControl.stop ≤ h.length := long
    rw [if_neg hplain, if_neg hplain, Field.value_append hcontrol]
  · have hshort : ¬ lengthOf a b c = 4 := by
      rw [hlength]
      decide
    rw [if_neg hplain, if_neg hplain, if_neg hshort, if_neg hshort]

theorem headerLength_cons (a b c : UInt8) (rest : Bytes) :
    headerLength (a :: b :: c :: rest) = .ok (lengthOf a b c) := by
  obtain ⟨hdsap, hssap, hcontrol⟩ := value_bytes a b c rest
  have long : 3 ≤ (a :: b :: c :: rest).length := Nat.le_add_left 3 rest.length
  rw [headerLength_eq long, hdsap, hssap, hcontrol]

/-- The header alone is read like the bytes that it begins. -/
theorem parse_take {a b c : UInt8} {rest : Bytes}
    (long : lengthOf a b c ≤ (a :: b :: c :: rest).length) :
    Header.parse ((a :: b :: c :: rest).take (lengthOf a b c))
      = .ok (Header.ofFirst a b c (a :: b :: c :: rest)) := by
  obtain ⟨k, hk⟩ : ∃ k, lengthOf a b c = k + 3 :=
    ⟨lengthOf a b c - 3, (Nat.sub_add_cancel (lengthOf_ge a b c)).symm⟩
  have hlength : ((a :: b :: c :: rest).take (lengthOf a b c)).length = lengthOf a b c := by
    rw [List.length_take, Nat.min_eq_left long]
  have hfront : (a :: b :: c :: rest).take (lengthOf a b c) = a :: b :: c :: rest.take k := by
    rw [hk]
    rfl
  refine parse_eq_ok.2 ⟨a, b, c, rest.take k, hfront, Nat.le_of_eq hlength.symm, ?_⟩
  rw [← ofFirst_append (Nat.le_of_eq hlength.symm) ((a :: b :: c :: rest).drop (lengthOf a b c)),
    List.take_append_drop]

/-! ## §3. Writing a header over anything. -/

section Emit

variable {buffer : Bytes}

/-- Both access points are written first. -/
theorem fills_accessPoints {t : Bytes} (inside : 2 ≤ t.length) (room : 2 ≤ buffer.length) :
    Fills t 2 buffer (Layout.dsap.set (Layout.dsap.value t) buffer
      >>= Layout.ssap.set (Layout.ssap.value t)) :=
  have hdsap : Layout.dsap.Spells (Layout.dsap.value t) t :=
    Field.spells_value_word toNat_coded_byte (Nat.le_trans (by decide) inside)
  have hssap : Layout.ssap.Spells (Layout.ssap.value t) t :=
    Field.spells_value_word toNat_coded_byte inside
  ((Fills.start t buffer).set (Field.lawful_word UInt8 0 1) rfl (Nat.le_trans (by decide) inside)
    (Nat.le_trans (by decide) room) hdsap).set (Field.lawful_word UInt8 1 1) rfl inside room hssap

/-- A control byte is written behind them. -/
theorem fills_control {t : Bytes} (inside : 3 ≤ t.length) (room : 3 ≤ buffer.length) :
    Fills t 3 buffer (Layout.dsap.set (Layout.dsap.value t) buffer
      >>= Layout.ssap.set (Layout.ssap.value t)
      >>= Layout.control.set (Layout.control.value t)) :=
  have hcontrol : Layout.control.Spells (Layout.control.value t) t :=
    Field.spells_value_word toNat_coded_byte inside
  (fills_accessPoints (Nat.le_trans (by decide) inside) (Nat.le_trans (by decide) room)).set
    (Field.lawful_word UInt8 2 1) rfl inside room hcontrol

/-- A control field of two bytes. -/
theorem fills_longControl {t : Bytes} (inside : 4 ≤ t.length) (room : 4 ≤ buffer.length) :
    Fills t 4 buffer (Layout.dsap.set (Layout.dsap.value t) buffer
      >>= Layout.ssap.set (Layout.ssap.value t)
      >>= Layout.longControl.set (Layout.longControl.value t)) :=
  have hcontrol : Layout.longControl.Spells (Layout.longControl.value t) t :=
    Field.spells_value_word toNat_coded_word inside
  (fills_accessPoints (Nat.le_trans (by decide) inside) (Nat.le_trans (by decide) room)).set
    (Field.lawful_word UInt16 2 2) rfl inside room hcontrol

/-- A SNAP header. -/
theorem fills_snap {t : Bytes} (inside : 8 ≤ t.length) (room : 8 ≤ buffer.length) :
    Fills t 8 buffer (Layout.dsap.set (Layout.dsap.value t) buffer
      >>= Layout.ssap.set (Layout.ssap.value t)
      >>= Layout.control.set (Layout.control.value t)
      >>= Layout.organization.set (Layout.organization.value t)
      >>= Layout.etherType.set (Layout.etherType.value t)) :=
  have horganization : Layout.organization.Spells (Layout.organization.value t) t :=
    Field.spells_value_octets (Nat.le_trans (by decide) inside)
  have hetherType : Layout.etherType.Spells (Layout.etherType.value t) t :=
    Field.spells_value_word Ethernet.toNat_etherType inside
  ((fills_control (Nat.le_trans (by decide) inside) (Nat.le_trans (by decide) room)).set
    (Field.lawful_octets 3 3) rfl (Nat.le_trans (by decide) inside)
    (Nat.le_trans (by decide) room) horganization).set lawful_etherType rfl inside room hetherType

/-- A SNAP header is written as it is. -/
theorem emit_snap {a b c : UInt8} {rest : Bytes} (snaps : startsSnap a b c = true)
    (inside : 8 ≤ (a :: b :: c :: rest).length) (room : 8 ≤ buffer.length) :
    Fills (a :: b :: c :: rest) 8 buffer
      ((Header.snap (Layout.organization.value (a :: b :: c :: rest))
        (Layout.etherType.value (a :: b :: c :: rest))).emit buffer) := by
  obtain ⟨hdsap, hssap, hcontrol⟩ := value_bytes a b c rest
  have hfirst : (a = snapAccessPoint ∧ b = snapAccessPoint) ∧ c = unnumbered := by
    simpa [startsSnap] using snaps
  have hfills := fills_snap inside room
  rw [hdsap, hssap, hcontrol, hfirst.1.1, hfirst.1.2, hfirst.2] at hfills
  rw [hfirst.1.1, hfirst.1.2, hfirst.2]
  exact hfills

theorem emit_plain (a b : UInt8) (control : UInt16) (buffer : Bytes) :
    (Header.plain a b control).emit buffer = (Layout.dsap.set a buffer >>= Layout.ssap.set b
      >>= if (Header.plain a b control).size = 4 then Layout.longControl.set control
        else Layout.control.set control.toUInt8) := rfl

/-- So is a control field of two bytes, if the number in it has one. -/
theorem emit_long {a b c : UInt8} {rest : Bytes} (inside : 4 ≤ (a :: b :: c :: rest).length)
    (room : 4 ≤ buffer.length)
    (long : (Header.plain a b (Layout.longControl.value (a :: b :: c :: rest))).size = 4) :
    Fills (a :: b :: c :: rest) 4 buffer
      ((Header.plain a b (Layout.longControl.value (a :: b :: c :: rest))).emit buffer) := by
  obtain ⟨hdsap, hssap, -⟩ := value_bytes a b c rest
  have hfills := fills_longControl inside room
  rw [hdsap, hssap] at hfills
  rw [emit_plain, if_pos long]
  exact hfills

/-- A number that has none is written as its last byte. -/
theorem emit_short {a b c : UInt8} {control : UInt16} (last : control.toUInt8 = c)
    (room : 3 ≤ buffer.length) (short : (Header.plain a b control).size = 3) (rest : Bytes) :
    Fills (a :: b :: c :: rest) 3 buffer ((Header.plain a b control).emit buffer) := by
  obtain ⟨hdsap, hssap, hcontrol⟩ := value_bytes a b c rest
  have hfills := fills_control (t := a :: b :: c :: rest) (Nat.le_add_left 3 _) room
  have hbrief : ¬ (Header.plain a b control).size = 4 := by
    rw [short]
    decide
  rw [hdsap, hssap, hcontrol] at hfills
  rw [emit_plain, if_neg hbrief, last]
  exact hfills

end Emit

/-! ## §4. The round trip. -/

/-- The header of a control field that looks short loses the first byte of the
field. -/
def shortened (h : Bytes) : Bytes :=
  h.take 2 ++ (h.drop 3).take 1

/-- **Contents that were read are written as they were read, unless the
control field looks short.**  The header alone is read like the bytes it
begins.  If no control field of two bytes ends like one of one byte, the
contents have the length that the header asks for and are written as its
bytes, whatever the buffer holds.  Otherwise they claim a length of three, and
the first byte of the control field is lost. -/
theorem linkControl_roundTrip {data : Bytes} {r : Header} (parsed : Header.parse data = .ok r) :
    ∃ n, headerLength data = .ok n ∧ n ≤ data.length ∧ Header.parse (data.take n) = .ok r
      ∧ (¬ LooksShort data → r.size = n
          ∧ ∀ buffer : Bytes, buffer.length = n → r.emit buffer = .ok (data.take n))
      ∧ (LooksShort data → n = 4 ∧ r.size = 3
          ∧ ∀ buffer : Bytes, buffer.length = n →
              r.emit buffer = .ok (shortened data ++ buffer.drop 3)) := by
  obtain ⟨a, b, c, rest, rfl, hlong, rfl⟩ := parse_eq_ok.1 parsed
  refine ⟨lengthOf a b c, headerLength_cons a b c rest, hlong, parse_take hlong, ?_⟩
  rcases lengthOf_cases a b c with ⟨hsnap, hn⟩ | ⟨hplain, _, hn⟩ | ⟨hplain, hbits, hn⟩
  case inl =>
    have hbrief : ¬ LooksShort (a :: b :: c :: rest) := not_looksShort (by rw [hn]; decide)
    rw [hn] at hlong
    rw [Header.ofFirst, if_pos hsnap, hn]
    refine ⟨fun _ => ⟨rfl, fun buffer exact => ?_⟩, fun h => absurd h hbrief⟩
    exact (emit_snap hsnap hlong (Nat.le_of_eq exact.symm)).eq_ok_exact exact
  case inr.inl =>
    obtain ⟨x, rest, rfl⟩ : ∃ x rest', rest = x :: rest' := by
      rw [hn] at hlong
      exact List.exists_cons_of_length_pos (Nat.le_of_add_le_add_right (b := 3) hlong)
    have hlook := looksShort_iff hn x rest
    have hsize := size_plain a b (Layout.longControl.value (a :: b :: c :: x :: rest))
    rw [hn] at hlong
    rw [Header.ofFirst, if_neg hplain, if_pos hn, hn, hlook]
    refine ⟨fun hlong' => ?_, fun hshort => ⟨rfl, hshort, fun buffer exact => ?_⟩⟩
    · split at hsize
      · exact absurd hsize hlong'
      · exact ⟨hsize, fun buffer exact =>
          (emit_long hlong (Nat.le_of_eq exact.symm) hsize).eq_ok_exact exact⟩
    · exact (emit_short (toUInt8_longControl a b c x rest) (by omega) hshort rest).eq_ok
  case inr.inr =>
    have hbrief : ¬ LooksShort (a :: b :: c :: rest) := not_looksShort (by rw [hn]; decide)
    have hfour : ¬ lengthOf a b c = 4 := by
      rw [hn]
      decide
    have hsize : (Header.plain a b c.toUInt16).size = 3 := by
      rw [size_plain, if_pos (by simpa using (low_bits_byte c).1 hbits)]
    have hlast : c.toUInt16.toUInt8 = c := by simp
    rw [Header.ofFirst, if_neg hplain, if_neg hfour, hn]
    refine ⟨fun _ => ⟨hsize, fun buffer exact => ?_⟩, fun h => absurd h hbrief⟩
    exact (emit_short hlast (Nat.le_of_eq exact.symm) hsize rest).eq_ok_exact exact

/-- A SNAP header with a byte behind it, over a buffer of ones. -/
theorem linkControl_roundTrip_snap :
    let data : Bytes := [0xaa, 0xaa, 0x03, 0, 0, 0, 0x08, 0x00, 0x45]
    let r := Header.snap ⟨[0, 0, 0], rfl⟩ (Coded.ofNat 0x0800)
    Header.parse data = .ok r ∧ headerLength data = .ok 8 ∧ r.size = 8
      ∧ r.emit (List.replicate 8 0xff) = .ok (data.take 8)
      ∧ Header.parse (data.take 8) = .ok r := by
  intro data r
  have parsed : Header.parse data = .ok r := rfl
  obtain ⟨n, hn, _, hheader, hlong, _⟩ := linkControl_roundTrip parsed
  obtain rfl : 8 = n := Except.ok.inj hn
  obtain ⟨hsize, hemit⟩ := hlong (not_looksShort (by decide))
  exact ⟨parsed, hn, hsize, hemit _ List.length_replicate, hheader⟩

/-- A control field of two bytes that looks short does not come back. -/
theorem linkControl_roundTrip_shortened :
    let data : Bytes := [0x42, 0x42, 0x00, 0x03]
    let r := Header.plain 0x42 0x42 0x3
    Header.parse data = .ok r ∧ headerLength data = .ok 4 ∧ r.size = 3
      ∧ r.emit data = .ok [0x42, 0x42, 0x03, 0x03] := by
  decide

end PacketLayers.Llc
