/-
  PacketLayers.Proofs.Lawful.Wireless
  ────────────────────────────────
  **802.11 FRAMES ARE LAWFUL.**

  Type and subtype share the first byte of a frame, and announcing a payload
  rewrites both.  Since they also decide how long the header is, a header that
  announces another payload may need another length; the first byte does not
  change any more after that.
-/
import PacketLayers.Link.Wireless
import PacketLayers.Proofs.Dissector

namespace PacketLayers.Wireless

/-! ## §1. The first byte. -/

theorem lawful_frameType : Layout.frameType.Lawful :=
  @Field.lawful_bits FrameType _ 0 1 2 2 (by decide)

theorem lawful_subtype : Layout.subtype.Lawful :=
  @Field.lawful_bits UInt8 _ 0 1 4 4 (by decide)

/-- The bit that a data frame keeps when it stays one. -/
def keptQos (h : Bytes) (type : FrameType) : UInt8 :=
  if Layout.frameType.value h = .data ∧ type = .data then
    Layout.subtype.value h &&& DataSubtype.qos.code
  else (0 : UInt8)

/-- The header with type and subtype replaced. -/
def relabel (value : UInt8) (h : Bytes) : Bytes :=
  Layout.subtype.put ((value &&& (0xf : UInt8)) ||| keptQos h (typeOf value))
    (Layout.frameType.put (typeOf value) h)

theorem length_relabel {h : Bytes} (long : 1 ≤ h.length) (value : UInt8) :
    (relabel value h).length = h.length := by
  have htype : (Layout.frameType.put (typeOf value) h).length = h.length :=
    Field.length_put lawful_frameType long _
  rw [relabel, Field.length_put lawful_subtype (by rw [htype]; exact long), htype]

theorem setNext_wireless (h : Bytes) (value : UInt8) :
    setNext h (.wireless value) = .ok (if 2 ≤ h.length then relabel value h else h) := by
  show (if h.length < 2 then pure h else _) = _
  by_cases long : 2 ≤ h.length
  · have hone : 1 ≤ h.length := by omega
    have htype : Layout.frameType.stop ≤ h.length := hone
    have hsubtype : Layout.subtype.stop ≤ h.length := hone
    have hput : (Layout.frameType.put (typeOf value) h).length = h.length :=
      Field.length_put lawful_frameType htype _
    have hset : ∀ s, setTypeAndSubtype (typeOf value) s h
        = .ok (Layout.subtype.put s (Layout.frameType.put (typeOf value) h)) := by
      intro s
      rw [setTypeAndSubtype, Field.set_eq_put lawful_frameType htype, ok_bind,
        Field.set_eq_put lawful_subtype (by rw [hput]; exact hone)]
    rw [if_neg (by omega), Field.get_eq_value htype, ok_bind, Field.get_eq_value hsubtype,
      if_pos long]
    -- only from data frame to data frame a bit of the subtype is kept
    by_cases hkept : Layout.frameType.value h = .data ∧ typeOf value = .data
    · rw [if_pos (by simpa using hkept), relabel, keptQos, if_pos hkept, ok_bind]
      exact hset _
    · rw [if_neg (by simpa using hkept), relabel, keptQos, if_neg hkept]
      exact hset _
  · rw [if_pos (by omega), if_neg long]
    rfl

/-- Four bits of a byte, as reading a subtype gives them. -/
theorem ofNat_mod_sixteen (x : UInt8) : UInt8.ofNat (x.toNat % 16) = x &&& 0xf := by
  apply UInt8.toNat_inj.1
  have hlow : x.toNat &&& (0xf : UInt8).toNat = x.toNat % 16 :=
    Nat.and_two_pow_sub_one_eq_mod _ 4
  rw [Bytes.toNat_ofNat_byte, UInt8.toNat_and, hlow]
  omega

theorem or_kept {s k : UInt8} (kept : k &&& 0x8 = k) : s ||| ((s ||| k) &&& 0x8) = s ||| k := by
  have kept' : k.toBitVec &&& 0x8 = k.toBitVec := congrArg UInt8.toBitVec kept
  -- bit by bit: what is masked is in the sum already
  apply UInt8.toBitVec_inj.1
  show s.toBitVec ||| ((s.toBitVec ||| k.toBitVec) &&& 0x8) = s.toBitVec ||| k.toBitVec
  rw [BitVec.and_or_distrib_right, kept', ← BitVec.or_assoc]
  congr 1
  ext i hi
  simp only [BitVec.getElem_or, BitVec.getElem_and]
  cases s.toBitVec[i] <;> rfl

theorem keptQos_mask (h : Bytes) (type : FrameType) : keptQos h type &&& 0x8 = keptQos h type := by
  unfold keptQos
  split
  · rw [UInt8.and_assoc]
    rfl
  · rfl

section Relabel

variable {h : Bytes} (long : 1 ≤ h.length) (value : UInt8)

include long

theorem covers_relabel_subtype :
    Layout.subtype.stop ≤ (Layout.frameType.put (typeOf value) h).length := by
  rw [Field.length_put lawful_frameType long]
  exact long

/-- A frame that was made a data frame is one. -/
theorem frameType_relabel (data : typeOf value = .data) :
    Layout.frameType.value (relabel value h) = .data := by
  have hcovers : Layout.frameType.stop ≤ h.length := long
  have hback : Layout.frameType.value (Layout.frameType.put (typeOf value) h)
      = Coded.ofNat (Coded.toNat (typeOf value) % 2 ^ 2) :=
    Field.value_put_bits (by decide) hcovers _
  -- the subtype shares the byte, but none of the bits
  have hapart : Layout.frameType.value (relabel value h)
      = Layout.frameType.value (Layout.frameType.put (typeOf value) h) :=
    Field.value_put_bits_of_apart (by decide) (covers_relabel_subtype long value) (by decide) _
  rw [hapart, hback, data]
  rfl

theorem subtype_relabel :
    Layout.subtype.value (relabel value h)
      = ((value &&& (0xf : UInt8)) ||| keptQos h (typeOf value)) &&& 0xf := by
  rw [← ofNat_mod_sixteen]
  exact Field.value_put_bits (by decide) (covers_relabel_subtype long value) _

/-- Announcing the same payload again rewrites the same bits. -/
theorem relabel_again : relabel value (relabel value h) = relabel value h := by
  have hsubtype := covers_relabel_subtype long value
  -- the bit that is kept the second time was written the first time
  have hkept : (value &&& (0xf : UInt8)) ||| keptQos (relabel value h) (typeOf value)
      = (value &&& (0xf : UInt8)) ||| keptQos h (typeOf value) := by
    by_cases hdata : typeOf value = .data
    · rw [keptQos, if_pos ⟨frameType_relabel long value hdata, hdata⟩, subtype_relabel long,
        UInt8.and_assoc]
      exact or_kept (keptQos_mask h _)
    · rw [keptQos, keptQos, if_neg fun both => hdata both.2, if_neg fun both => hdata both.2]
  -- the type that is written is there, behind the subtype that was written last
  have hcomm : Layout.frameType.put (typeOf value) (relabel value h) = relabel value h := by
    have hswap := @Field.put_bits_comm FrameType UInt8 _ 0 1 2 2 4 4 _ _ (by decide) (by decide)
      hsubtype (by decide) (typeOf value) ((value &&& (0xf : UInt8)) ||| keptQos h (typeOf value))
    refine hswap.trans ?_
    show Layout.subtype.put _ (Layout.frameType.put _ (Layout.frameType.put _ h)) = _
    rw [Field.put_put lawful_frameType long]
    rfl
  have hunfold : relabel value (relabel value h)
      = Layout.subtype.put ((value &&& (0xf : UInt8)) ||| keptQos (relabel value h) (typeOf value))
        (Layout.frameType.put (typeOf value) (relabel value h)) := rfl
  rw [hunfold, hkept, hcomm]
  exact Field.put_put lawful_subtype hsubtype _ _

end Relabel

/-- Only the first byte is rewritten. -/
theorem relabel_append {h : Bytes} (long : 1 ≤ h.length) (value : UInt8) (rest : Bytes) :
    relabel value (h ++ rest) = relabel value h ++ rest := by
  have htype : Layout.frameType.stop ≤ h.length := long
  have hput : (Layout.frameType.put (typeOf value) h).length = h.length :=
    Field.length_put lawful_frameType htype _
  have hkept : keptQos (h ++ rest) (typeOf value) = keptQos h (typeOf value) := by
    have hsubtype : Layout.subtype.stop ≤ h.length := long
    rw [keptQos, keptQos, Field.value_append htype, Field.value_append hsubtype]
  rw [relabel, hkept, Field.put_append htype,
    Field.put_append (by rw [hput]; exact long), relabel]

/-! ## §2. Announcing a payload. -/

theorem setNext_ignores (h : Bytes) {o : Discriminant} (other : ∀ v, o ≠ .wireless v) :
    setNext h o = .ok h := by
  cases o with
  | wireless v => exact absurd rfl (other v)
  | _ => rfl

/-- What announcing a payload does: it rewrites the first byte, or leaves the
header alone. -/
theorem setNext_cases (h : Bytes) (o : Discriminant) :
    (∃ value, o = .wireless value ∧ 2 ≤ h.length ∧ setNext h o = .ok (relabel value h))
      ∨ setNext h o = .ok h := by
  by_cases named : ∃ value, o = .wireless value
  · obtain ⟨value, rfl⟩ := named
    by_cases long : 2 ≤ h.length
    · exact .inl ⟨value, rfl, long, by rw [setNext_wireless, if_pos long]⟩
    · exact .inr (by rw [setNext_wireless, if_neg long])
  · exact .inr (setNext_ignores h fun value hv => named ⟨value, hv⟩)

theorem setNext_again {h h' : Bytes} {o : Discriminant} (ok : setNext h o = .ok h') :
    setNext h' o = .ok h' := by
  rcases setNext_cases h o with ⟨value, rfl, long, hset⟩ | hset
  · rw [hset] at ok
    injection ok with ok
    have hone : 1 ≤ h.length := by omega
    rw [← ok, setNext_wireless, length_relabel hone, if_pos long, relabel_again hone]
  · rw [hset] at ok
    injection ok with ok
    rw [← ok]
    exact hset

/-! ## §3. The length of a header. -/

/-- The length is decided by the first two bytes. -/
theorem headerLength?_take (h : Bytes) : headerLength? (h.take 2) = headerLength? h := by
  match h with
  | [] => rfl
  | [_] => rfl
  | _ :: _ :: _ => rfl

theorem headerLength?_append {h : Bytes} (long : 2 ≤ h.length) (rest : Bytes) :
    headerLength? (h ++ rest) = headerLength? h := by
  rw [← headerLength?_take (h ++ rest), List.take_append_of_le_length long, headerLength?_take]

theorem headerLength?_isSome {h : Bytes} (long : 2 ≤ h.length) :
    ∃ n, headerLength? h = some n := by
  match h with
  | [] => simp at long
  | [_] => simp at long
  | _ :: _ :: _ => exact ⟨_, rfl⟩

theorem minHeaderLength_le_lengthOf (type : FrameType) (subtype : UInt8) (flags : FrameFlags) :
    minHeaderLength ≤ lengthOf type subtype flags := by
  unfold lengthOf minHeaderLength
  split
  · split <;> omega
  · split
    · split <;> omega
    · split
      · split <;> omega
      · omega

theorem headerLength?_ge {h : Bytes} {n : Nat} (asks : headerLength? h = some n) : 10 ≤ n := by
  unfold headerLength? at asks
  split at asks
  · injection asks with asks
    rw [← asks]
    exact minHeaderLength_le_lengthOf _ _ _
  · cases asks

theorem accepts_iff {h : Bytes} :
    format.accepts h = true ↔ ∃ n, headerLength? h = some n ∧ n ≤ h.length :=
  HeaderFormat.accepts_stated rfl

theorem sized : dissector.Sized format (fun h => (headerLength? h).getD 0) 10 :=
  .of_stated (by decide) accepts_iff (fun _ => rfl) headerLength?_ge fun long =>
    headerLength?_append (Nat.le_trans (by decide) long)

theorem whole_iff {h : Bytes} : dissector.Whole h ↔ headerLength? h = some h.length :=
  sized.whole_iff_stated (by decide) headerLength?_ge

theorem ten_le_of_accepts {h : Bytes} (accepted : format.accepts h = true) : 10 ≤ h.length := by
  obtain ⟨n, hasks, hn⟩ := accepts_iff.1 accepted
  exact Nat.le_trans (headerLength?_ge hasks) hn

theorem whole_fits {h : Bytes} (whole : dissector.Whole h) : dissector.fit h = .ok h := by
  apply Dissector.fit_of_required
  show Except.ok (some ((headerLength? h).getD 24)) = _
  rw [whole_iff.1 whole]
  rfl

theorem fit_eq {h : Bytes} {n : Nat} (asks : headerLength? h = some n) :
    dissector.fit h = .ok (h.resize n) := by
  apply Dissector.fit_eq_resize
  show Except.ok (some ((headerLength? h).getD 24)) = _
  rw [asks]
  rfl

/-! ## §4. The dissector. -/

theorem total : dissector.Total where
  payloadLength _ _ := ⟨_, rfl⟩
  next h _ := HeaderFormat.guarded_succeeds fun accepted => by
    have hten := ten_le_of_accepts accepted
    have htype : Layout.frameType.stop ≤ h.length := Nat.le_trans (by decide) hten
    have hsubtype : Layout.subtype.stop ≤ h.length := Nat.le_trans (by decide) hten
    unfold typeAndSubtype
    rw [Field.get_eq_value htype, Field.get_eq_value hsubtype]
    simp only [ok_bind, pure_eq_ok]
    split <;> exact ⟨_, rfl⟩
  isSealed h := HeaderFormat.guarded_succeeds fun accepted => by
    have hflags : Layout.flags.stop ≤ h.length :=
      Nat.le_trans (by decide) (ten_le_of_accepts accepted)
    rw [Field.get_eq_value hflags]
    exact ⟨_, rfl⟩
  setNext h o := by
    rcases setNext_cases h o with ⟨value, _, long, hset⟩ | hset
    · exact ⟨_, hset, length_relabel (by omega) value⟩
    · exact ⟨h, hset, rfl⟩
  pseudoHeader _ := ⟨_, rfl⟩
  requiredLength _ := ⟨_, rfl⟩
  recompute h _ := ⟨h, rfl, rfl⟩
  checksumValid _ _ := ⟨_, rfl⟩

/-- A header that announces another payload gets the length that goes with
it, and then stays as it is; bytes behind the old header may become part of
the new one. -/
theorem fitted_setNext {h h' : Bytes} {o : Discriminant} (long : 10 ≤ h.length)
    (ok : dissector.setNext h o = .ok h') :
    ∃ h'', dissector.fit h' = .ok h'' ∧ dissector.Whole h'' ∧ dissector.setNext h'' o = .ok h'' := by
  obtain ⟨h₀, hset, hlength⟩ := total.setNext h o
  rw [ok] at hset
  injection hset with hset
  subst hset
  have hagain : dissector.setNext h' o = .ok h' := setNext_again ok
  obtain ⟨n, hasks⟩ := headerLength?_isSome (h := h') (by omega)
  have hn := headerLength?_ge hasks
  -- the first two bytes decide, and they are kept when the length changes
  obtain ⟨rest, hrest⟩ : ∃ rest, h'.resize n = h'.take 2 ++ rest := by
    refine ⟨(h'.take n).drop 2 ++ List.replicate (n - h'.length) 0, ?_⟩
    have hfront : (h'.take n).take 2 = h'.take 2 := by
      rw [List.take_take, Nat.min_eq_left (by omega)]
    rw [Bytes.resize, ← List.append_assoc, ← hfront, List.take_append_drop]
  have htake : (h'.take 2).length = 2 := by
    rw [List.length_take]
    omega
  refine ⟨h'.resize n, fit_eq hasks, ?_, ?_⟩
  · rw [whole_iff, Bytes.length_resize, hrest, headerLength?_append (by omega),
      headerLength?_take, hasks]
  · by_cases named : ∃ value, o = .wireless value
    · obtain ⟨value, rfl⟩ := named
      have hfix : relabel value h' = h' := by
        have hrelabel := setNext_wireless h' value
        rw [if_pos (by omega)] at hrelabel
        exact Except.ok.inj (hrelabel.symm.trans hagain)
      rw [← List.take_append_drop 2 h', relabel_append (by omega)] at hfix
      -- the first two bytes are a fixed point, whatever follows them
      have hbyte := List.append_cancel_right hfix
      refine (setNext_wireless _ value).trans ?_
      rw [Bytes.length_resize, if_pos (by omega), hrest, relabel_append (by omega), hbyte]
    · exact setNext_ignores _ fun value hv => named ⟨value, hv⟩

theorem whole_setNext {h h' : Bytes} {o : Discriminant} (whole : dissector.Whole h)
    (ok : dissector.setNext h o = .ok h') :
    ∃ h'', dissector.fit h' = .ok h'' ∧ dissector.Whole h'' ∧ dissector.setNext h'' o = .ok h'' :=
  fitted_setNext (headerLength?_ge (whole_iff.1 whole)) ok

theorem lawful : dissector.Lawful :=
  .of_nothing_derived total (fun _ _ => rfl) setNext_again (fun leads => leads) whole_fits whole_setNext

end PacketLayers.Wireless
