/-
  PacketLayers.Proofs.Lawful.Network
  ────────────────────────────────
  **THE NETWORK LAYERS ARE LAWFUL.**

  Every one of them decides the length of its header in another way: by the
  lengths of addresses, by a count of words, by flags, or not at all.  What
  they derive is written apart from what they announce and from what decides
  the length, with one exception: IPv4 writes the length back, rounded down to
  words, and a header that decoding cut off has a length of whole words.
-/
import PacketLayers.Network.Arp
import PacketLayers.Network.Gre
import PacketLayers.Network.Ipv4
import PacketLayers.Network.Ipv6
import PacketLayers.Proofs.Dissector

namespace PacketLayers

/-! ## §1. Address resolution. -/

namespace Arp

theorem messageLength_eq {h : Bytes} (long : 8 ≤ h.length) :
    messageLength h = .ok (messageLengthValue h) := by
  have hhardware : Layout.hardwareLength.stop ≤ h.length := Nat.le_trans (by decide) long
  have hprotocol : Layout.protocolLength.stop ≤ h.length := Nat.le_trans (by decide) long
  unfold messageLength
  rw [Field.get_eq_value hhardware, Field.get_eq_value hprotocol]
  rfl

theorem messageLengthValue_append {h : Bytes} (long : 8 ≤ h.length) (rest : Bytes) :
    messageLengthValue (h ++ rest) = messageLengthValue h := by
  have hhardware : Layout.hardwareLength.stop ≤ h.length := Nat.le_trans (by decide) long
  have hprotocol : Layout.protocolLength.stop ≤ h.length := Nat.le_trans (by decide) long
  rw [messageLengthValue, messageLengthValue, Field.value_append hhardware,
    Field.value_append hprotocol]

theorem addressRange_eq (role : AddressRole) {h : Bytes} (long : 8 ≤ h.length) :
    addressRange role h = .ok (role.range (Layout.hardwareLength.value h).toNat
      (Layout.protocolLength.value h).toNat) := by
  have hhardware : Layout.hardwareLength.stop ≤ h.length := Nat.le_trans (by decide) long
  have hprotocol : Layout.protocolLength.stop ≤ h.length := Nat.le_trans (by decide) long
  unfold addressRange
  rw [Field.get_eq_value hhardware, Field.get_eq_value hprotocol]
  rfl

/-- The addresses follow the fixed part, up to the end of the message. -/
theorem AddressRole.range_within (role : AddressRole) (hardware protocol : Nat) :
    fixedLength ≤ (role.range hardware protocol).1
      ∧ (role.range hardware protocol).1 + (role.range hardware protocol).2
        ≤ fixedLength + 2 * hardware + 2 * protocol := by
  cases role <;> simp only [range] <;> omega

theorem fixedLength_le (h : Bytes) : 8 ≤ messageLengthValue h := by
  unfold messageLengthValue lengthOf fixedLength
  omega

theorem requiredLength_eq {h : Bytes} (long : 8 ≤ h.length) :
    requiredLength h = .ok (some (messageLengthValue h)) := by
  have hlong : ¬ h.length < fixedLength := Nat.not_lt.2 long
  unfold requiredLength
  rw [if_neg hlong, messageLength_eq long]
  rfl

theorem total : dissector.Total where
  payloadLength _ _ := ⟨_, rfl⟩
  next _ _ := ⟨_, rfl⟩
  isSealed _ := ⟨_, rfl⟩
  setNext h _ := ⟨h, rfl, rfl⟩
  pseudoHeader _ := ⟨_, rfl⟩
  requiredLength h := by
    by_cases long : 8 ≤ h.length
    · exact ⟨_, requiredLength_eq long⟩
    · exact ⟨_, if_pos (Nat.lt_of_not_le long)⟩
  recompute h _ := ⟨h, rfl, rfl⟩
  checksumValid _ _ := ⟨_, rfl⟩

theorem sized : dissector.Sized format messageLengthValue 8 where
  accepts := by
    intro h
    have hmin := fixedLength_le h
    have hlength : fixedLength = 8 := rfl
    rw [HeaderFormat.accepts_iff, format, hlength]
    simp only
    split
    · simp only [reduceCtorEq, false_iff]
      omega
    · split
      · simp only [reduceCtorEq, false_iff]
        omega
      · simp only [true_iff]
        omega
  length _ := rfl
  append := messageLengthValue_append

theorem whole_iff {h : Bytes} :
    dissector.Whole h ↔ 8 ≤ h.length ∧ messageLengthValue h = h.length := sized.whole_iff

theorem whole_fits {h : Bytes} (whole : dissector.Whole h) : dissector.fit h = .ok h := by
  obtain ⟨long, hlength⟩ := whole_iff.1 whole
  refine Dissector.fit_of_required ((requiredLength_eq long).trans ?_)
  rw [hlength]

theorem lawful : dissector.Lawful :=
  .of_nothing_derived total (fun _ _ => rfl) (fun _ => rfl) (fun _ => .inr rfl) whole_fits (by
    intro h h' o whole ok
    injection ok with ok
    subst ok
    exact ⟨h, whole_fits whole, whole, rfl⟩)

end Arp

/-! ## §2. IPv6. -/

namespace Ipv6

theorem accepts_iff {h : Bytes} : format.accepts h = true ↔ 40 ≤ h.length :=
  HeaderFormat.accepts_fixed

/-- A protocol of one byte is written as the number that was read. -/
theorem toNat_ipProtocol (n : Nat) (small : n < 256 ^ 1) :
    Coded.toNat (Coded.ofNat n : IpProtocol) = n :=
  (Field.toNat_assigned n).trans
    ((UInt8.toNat_ofNat' (n := n)).trans (Nat.mod_eq_of_lt small))

theorem lawful_nextHeader : Layout.nextHeader.Lawful := Field.lawful_word IpProtocol 6 1

theorem lawful_payloadLength : Layout.payloadLength.Lawful := Field.lawful_word UInt16 4 2

theorem names : dissector.Names (Layout.nextHeader.stop ≤ ·.length) Layout.nextHeader .ip :=
  .of_room lawful_nextHeader (fun _ _ => rfl) fun h {o} other => by
    cases o with
    | ip p => exact absurd rfl (other p)
    | _ => rfl

/-- The payload length that is written; zero where the field has no room. -/
def lengthOf (payload : Bytes) : UInt16 :=
  if 65535 < payload.length then 0 else UInt16.ofNat payload.length

/-- The header with its payload length up to date. -/
def work (cx : Context) (h : Bytes) : Bytes := Layout.payloadLength.put (lengthOf cx.payload) h

theorem covers_payloadLength {h : Bytes} (long : 40 ≤ h.length) :
    Layout.payloadLength.stop ≤ h.length := Nat.le_trans (by decide) long

theorem length_work {h : Bytes} (long : 40 ≤ h.length) (cx : Context) :
    (work cx h).length = h.length :=
  Field.length_put lawful_payloadLength (covers_payloadLength long) _

theorem derives : dissector.Derives (40 ≤ ·.length) work where
  works cx long := by
    show format.guarded _ _ _ = _
    rw [HeaderFormat.guarded_of_accepts (accepts_iff.2 long),
      Field.set_eq_put lawful_payloadLength (covers_payloadLength long)]
    rfl
  refuses cx short := HeaderFormat.guarded_of_refused (fun h => short (accepts_iff.1 h)) _ _
  length cx long := length_work long cx
  stable cx long := (length_work long cx).symm ▸ long
  again cx long := Field.put_put lawful_payloadLength (covers_payloadLength long) _ _

theorem next_eq {h : Bytes} (long : 40 ≤ h.length) :
    next h = .ok (some (.ip (Layout.nextHeader.value h))) := by
  have hcovers : Layout.nextHeader.stop ≤ h.length := Nat.le_trans (by decide) long
  unfold next
  rw [HeaderFormat.guarded_of_accepts (accepts_iff.2 long), Field.get_eq_value hcovers]
  rfl

theorem pseudoHeader_eq {h : Bytes} (long : 40 ≤ h.length) :
    pseudoHeader h = .ok (some (.v6 (Layout.source.value h) (Layout.destination.value h))) := by
  have hsource : Layout.source.stop ≤ h.length := Nat.le_trans (by decide) long
  have hdestination : Layout.destination.stop ≤ h.length := long
  unfold pseudoHeader
  rw [HeaderFormat.guarded_of_accepts (accepts_iff.2 long), Field.get_eq_value hsource,
    Field.get_eq_value hdestination]
  rfl

theorem total : dissector.Total where
  payloadLength h available := HeaderFormat.guarded_succeeds fun accepted => by
    rw [Field.get_eq_value (covers_payloadLength (accepts_iff.1 accepted))]
    exact ⟨_, rfl⟩
  next h _ := by
    by_cases long : 40 ≤ h.length
    · exact ⟨_, next_eq long⟩
    · exact ⟨_, HeaderFormat.guarded_of_refused (fun h => long (accepts_iff.1 h)) _ _⟩
  isSealed _ := ⟨_, rfl⟩
  setNext := names.succeeds
  pseudoHeader h := by
    by_cases long : 40 ≤ h.length
    · exact ⟨_, pseudoHeader_eq long⟩
    · exact ⟨_, HeaderFormat.guarded_of_refused (fun h => long (accepts_iff.1 h)) _ _⟩
  requiredLength _ := ⟨_, rfl⟩
  recompute := derives.succeeds
  checksumValid _ _ := ⟨_, rfl⟩

theorem sized : dissector.Sized format (fun _ => 40) 40 := Dissector.sized_fixed rfl

theorem whole_iff {h : Bytes} : dissector.Whole h ↔ h.length = 40 :=
  Dissector.whole_fixed rfl

theorem whole_fits {h : Bytes} (whole : dissector.Whole h) : dissector.fit h = .ok h :=
  Dissector.fit_of_required (by rw [whole_iff.1 whole]; rfl)

theorem whole_put_nextHeader {h : Bytes} (p : IpProtocol)
    (covers : Layout.nextHeader.stop ≤ h.length) (whole : dissector.Whole h) :
    dissector.Whole (Layout.nextHeader.put p h) :=
  names.whole_put whole_iff p covers whole

theorem lawful : dissector.Lawful where
  total := total
  setNext_again := names.again
  recompute_again := derives.recompute_again
  recompute_leads := by
    intro h h' payload cx o _ ok leads
    rcases derives.cases ok with ⟨long, rfl⟩ | ⟨_, rfl⟩
    · have hcovers := covers_payloadLength long
      have hwindow : Layout.nextHeader.window (work cx h) = Layout.nextHeader.window h :=
        Field.window_put_of_apart lawful_payloadLength hcovers (by decide) _
      have long' : 40 ≤ (work cx h).length := by rw [length_work long]; exact long
      exact names.leads_of_window (by rw [length_work long]) hwindow (next_eq long) (next_eq long')
        leads
    · exact leads
  leads_payload := fun leads => leads
  whole_fits := whole_fits
  whole_setNext := names.whole_setNext whole_fits whole_put_nextHeader
  whole_recompute := by
    intro h h' cx whole ok
    have hlength := whole_iff.1 whole
    have long : 40 ≤ h.length := by omega
    have hcovers := covers_payloadLength long
    rcases derives.cases ok with ⟨_, rfl⟩ | ⟨_, rfl⟩
    · refine ⟨whole_iff.2 (by rw [length_work long, hlength]), ?_⟩
      have long' : 40 ≤ (work cx h).length := by rw [length_work long]; exact long
      have hsource : Layout.source.value (work cx h) = Layout.source.value h :=
        Field.value_put_of_apart lawful_payloadLength hcovers (by decide) _
      have hdestination : Layout.destination.value (work cx h) = Layout.destination.value h :=
        Field.value_put_of_apart lawful_payloadLength hcovers (by decide) _
      show pseudoHeader _ = pseudoHeader _
      rw [pseudoHeader_eq long', pseudoHeader_eq long, hsource, hdestination]
    · exact ⟨whole, rfl⟩

end Ipv6

/-! ## §3. IPv4. -/

namespace Ipv4

theorem headerLength_eq : Layout.headerLength = Field.words 0 1 0 := rfl

theorem lawful_headerLength : Layout.headerLength.Lawful := Field.lawful_words (by decide)

theorem lawful_totalLength : Layout.totalLength.Lawful := Field.lawful_word UInt16 2 2

theorem lawful_protocol : Layout.protocol.Lawful := Field.lawful_word IpProtocol 9 1

theorem lawful_checksum : Layout.checksum.Lawful := Field.lawful_word UInt16 10 2

theorem accepts_iff {h : Bytes} :
    format.accepts h = true ↔ 20 ≤ h.length ∧ 20 ≤ (Layout.headerLength.value h).toNat
      ∧ (Layout.headerLength.value h).toNat ≤ h.length :=
  HeaderFormat.accepts_checked rfl

theorem names : dissector.Names (Layout.protocol.stop ≤ ·.length) Layout.protocol .ip :=
  .of_room lawful_protocol (fun _ _ => rfl) fun h {o} other => by
    cases o with
    | ip p => exact absurd rfl (other p)
    | _ => rfl

/-- The total length that is written; zero where the field has no room. -/
def totalOf (h payload : Bytes) : UInt16 :=
  if 65535 < h.length + payload.length then 0 else UInt16.ofNat (h.length + payload.length)

/-- The header with both lengths up to date. -/
def measured (payload h : Bytes) : Bytes :=
  Layout.totalLength.put (totalOf h payload)
    (Layout.headerLength.put (UInt8.ofNat h.length) h)

/-- What the checksum is filled with. -/
def checksum? (cx : Context) : Option (Bytes → UInt16) :=
  match cx.mode with
  | .fill => some fun h => Checksum.compute (h.take (Layout.headerLength.value h).toNat)
  | .keep => none

/-- The header with lengths and checksum up to date. -/
def work (cx : Context) (h : Bytes) : Bytes :=
  Layout.checksum.refill 0 (checksum? cx) (measured cx.payload h)

/-- The checksum covers no more than there is. -/
theorem fillChecksum_eq {h : Bytes} (covers : Layout.checksum.stop ≤ h.length)
    (room : (Layout.headerLength.value h).toNat ≤ h.length) :
    fillChecksum h
      = .ok (Layout.checksum.fill 0
          (fun h => Checksum.compute (h.take (Layout.headerLength.value h).toNat)) h) := by
  have hlength := Field.length_put lawful_checksum covers 0
  have hvalue := Field.value_put_of_apart (f := Layout.headerLength) lawful_checksum covers
    (by decide) 0
  have hheader : Layout.headerLength.stop ≤ (Layout.checksum.put 0 h).length := by
    rw [hlength]
    exact Nat.le_trans (by decide) covers
  -- blanking the checksum leaves the length field, so the same bytes are summed
  have hslice : checksummed (Layout.checksum.put 0 h)
      = .ok ((Layout.checksum.put 0 h).take
          (Layout.headerLength.value (Layout.checksum.put 0 h)).toNat) := by
    have hroom : 0 + (Layout.headerLength.value (Layout.checksum.put 0 h)).toNat
        ≤ (Layout.checksum.put 0 h).length := by
      rw [hlength, hvalue]
      omega
    unfold checksummed
    rw [Field.get_eq_value hheader, ok_bind, Bytes.slice, if_pos hroom, List.drop_zero]
  unfold fillChecksum
  rw [Field.set_eq_put lawful_checksum covers, ok_bind, hslice, ok_bind,
    Field.set_eq_put lawful_checksum (by rw [hlength]; exact covers),
    Field.put_put lawful_checksum covers]
  rfl

section Options

variable {h : Bytes} (least : 20 ≤ (Layout.headerLength.value h).toNat)
  (room : (Layout.headerLength.value h).toNat ≤ h.length)

include least room

theorem optionsRange_eq :
    optionsRange h = .ok (20, (Layout.headerLength.value h).toNat - 20) := by
  have hcovers : Layout.headerLength.stop ≤ h.length :=
    Nat.le_trans (by decide) (Nat.le_trans least room)
  unfold optionsRange
  rw [Field.get_eq_value hcovers, ok_bind]
  exact if_neg (Nat.not_lt.2 least)

/-- The options are what is behind the fixed part, up to the stated length. -/
theorem getOptions_eq :
    getOptions h = .ok ((h.drop 20).take ((Layout.headerLength.value h).toNat - 20)) := by
  have hroom : 20 + ((Layout.headerLength.value h).toNat - 20) ≤ h.length := by omega
  unfold getOptions
  rw [optionsRange_eq least room, ok_bind]
  exact if_pos hroom

/-- Options of the right length are written there. -/
theorem setOptions_eq {new : Bytes}
    (length : new.length = (Layout.headerLength.value h).toNat - 20) :
    setOptions new h
      = .ok (h.take 20 ++ new ++ h.drop (20 + ((Layout.headerLength.value h).toNat - 20))) := by
  have hroom : 20 + ((Layout.headerLength.value h).toNat - 20) ≤ h.length := by omega
  unfold setOptions
  rw [optionsRange_eq least room, ok_bind]
  exact Bytes.replace_eq hroom length

end Options

section Long

variable {h : Bytes} (long : 20 ≤ h.length)

include long

theorem covers_headerLength : Layout.headerLength.stop ≤ h.length := Nat.le_trans (by decide) long

theorem covers_totalLength (n : UInt8) :
    Layout.totalLength.stop ≤ (Layout.headerLength.put n h).length := by
  rw [Field.length_put lawful_headerLength (covers_headerLength long)]
  exact Nat.le_trans (by decide) long

theorem length_measured (payload : Bytes) : (measured payload h).length = h.length := by
  rw [measured, Field.length_put lawful_totalLength (covers_totalLength long _),
    Field.length_put lawful_headerLength (covers_headerLength long)]

theorem covers_checksum (payload : Bytes) :
    Layout.checksum.stop ≤ (measured payload h).length := by
  rw [length_measured long]
  exact Nat.le_trans (by decide) long

theorem length_work (cx : Context) : (work cx h).length = h.length := by
  rw [work, Field.length_refill lawful_checksum (covers_checksum long _), length_measured long]

/-- Fields apart from the three that are derived. -/
theorem window_work {α : Type} {f : Field α} (cx : Context)
    (apart : f.Apart Layout.headerLength ∧ f.Apart Layout.totalLength ∧ f.Apart Layout.checksum) :
    f.window (work cx h) = f.window h := by
  rw [work, Field.window_refill lawful_checksum (covers_checksum long _) apart.2.2, measured,
    Field.window_put_of_apart lawful_totalLength (covers_totalLength long _) apart.2.1,
    Field.window_put_of_apart lawful_headerLength (covers_headerLength long) apart.1]

theorem toNat_headerLength_measured (payload : Bytes) :
    (Layout.headerLength.value (measured payload h)).toNat = h.length % 256 / 4 % 16 * 4 := by
  rw [measured, Field.value_put_of_apart lawful_totalLength (covers_totalLength long _) (by decide)]
  exact Field.toNat_value_put_words (by decide) (covers_headerLength long) h.length

theorem toNat_headerLength_work (cx : Context) :
    (Layout.headerLength.value (work cx h)).toNat = h.length % 256 / 4 % 16 * 4 := by
  rw [work, Field.value_refill lawful_checksum (covers_checksum long _) (by decide),
    toNat_headerLength_measured long]

theorem fillChecksum_measured (payload : Bytes) :
    fillChecksum (measured payload h)
      = .ok (Layout.checksum.fill 0
          (fun h => Checksum.compute (h.take (Layout.headerLength.value h).toNat))
          (measured payload h)) := by
  refine fillChecksum_eq (covers_checksum long payload) ?_
  rw [toNat_headerLength_measured long, length_measured long]
  omega

theorem work_again (cx : Context) : work cx (work cx h) = work cx h := by
  have hheader : Layout.headerLength.Holds (UInt8.ofNat h.length) (work cx h) := by
    refine Field.Holds.refill lawful_headerLength lawful_checksum
      (by rw [length_measured long]; exact covers_headerLength long) (covers_checksum long _)
      (by decide) ?_
    refine (Field.holds_put lawful_headerLength (covers_headerLength long) _).put_apart
      lawful_headerLength lawful_totalLength
      (by
        rw [Field.length_put lawful_headerLength (covers_headerLength long)]
        exact covers_headerLength long)
      (covers_totalLength long _) (by decide) _
  have htotal : Layout.totalLength.Holds (totalOf h cx.payload) (work cx h) :=
    (Field.holds_put lawful_totalLength (covers_totalLength long _) _).refill lawful_totalLength
      lawful_checksum
      (by
        show Layout.totalLength.stop ≤ (measured cx.payload h).length
        rw [length_measured long]
        exact Nat.le_trans (by decide) long)
      (covers_checksum long _) (by decide)
  -- both lengths are what they would be written as, so writing them changes nothing
  have hmeasured : measured cx.payload (work cx h) = work cx h := by
    have hsame : totalOf (work cx h) cx.payload = totalOf h cx.payload := by
      rw [totalOf, totalOf, length_work long]
    rw [measured, length_work long, hsame, show Layout.headerLength.put _ _ = _ from hheader]
    exact htotal
  rw [work, hmeasured, work]
  exact Field.refill_refill lawful_checksum (covers_checksum long _)

end Long

theorem derives : dissector.Derives (20 ≤ ·.length) work where
  works {h} cx long := by
    have hlong : ¬ h.length < minHeaderLength := Nat.not_lt.2 long
    show (if h.length < minHeaderLength then pure h else _) = _
    rw [if_neg hlong, Field.set_eq_put lawful_headerLength (covers_headerLength long), ok_bind,
      Field.set_eq_put lawful_totalLength (covers_totalLength long _), ok_bind]
    rcases cx with ⟨payload, pseudo, _ | _⟩
    · exact fillChecksum_measured long payload
    · rfl
  refuses {h} cx short := if_pos (Nat.lt_of_not_le short)
  length cx long := length_work long cx
  stable cx long := (length_work long cx).symm ▸ long
  again cx long := work_again long cx

theorem next_eq {h : Bytes} (accepted : format.accepts h = true) :
    next h = .ok (some (.ip (Layout.protocol.value h))) := by
  have hcovers : Layout.protocol.stop ≤ h.length :=
    Nat.le_trans (by decide) (accepts_iff.1 accepted).1
  unfold next
  rw [HeaderFormat.guarded_of_accepts accepted, Field.get_eq_value hcovers]
  rfl

/-- What a header leads to is what it names. -/
theorem setNext_of_next {h : Bytes} {o : Discriminant} (leads : next h = .ok (some o)) :
    setNext h o = .ok h := by
  have accepted := (HeaderFormat.accepts_of_guarded leads).1
  have hcovers : Layout.protocol.stop ≤ h.length :=
    Nat.le_trans (by decide) (accepts_iff.1 accepted).1
  rw [next_eq accepted] at leads
  injection leads with leads
  injection leads with leads
  subst leads
  have hholds : Layout.protocol.Holds (Layout.protocol.value h) h :=
    Field.holds_value_word Ipv6.toNat_ipProtocol hcovers
  exact (names.writes _ hcovers).trans (congrArg Except.ok hholds)

theorem pseudoHeader_eq {h : Bytes} (accepted : format.accepts h = true) :
    pseudoHeader h = .ok (some (.v4 (Layout.source.value h) (Layout.destination.value h))) := by
  have long := (accepts_iff.1 accepted).1
  have hsource : Layout.source.stop ≤ h.length := Nat.le_trans (by decide) long
  have hdestination : Layout.destination.stop ≤ h.length := long
  unfold pseudoHeader
  rw [HeaderFormat.guarded_of_accepts accepted, Field.get_eq_value hsource,
    Field.get_eq_value hdestination]
  rfl

theorem total : dissector.Total where
  payloadLength h available := HeaderFormat.guarded_succeeds fun accepted => by
    have hcovers : Layout.totalLength.stop ≤ h.length :=
      Nat.le_trans (by decide) (accepts_iff.1 accepted).1
    rw [Field.get_eq_value hcovers]
    exact ⟨_, rfl⟩
  next h _ := HeaderFormat.guarded_succeeds fun accepted => by
    have hnext := next_eq accepted
    rw [next, HeaderFormat.guarded_of_accepts accepted] at hnext
    exact ⟨_, hnext⟩
  isSealed h := HeaderFormat.guarded_succeeds fun accepted => by
    have hcovers : Layout.fragmentOffset.stop ≤ h.length :=
      Nat.le_trans (by decide) (accepts_iff.1 accepted).1
    rw [Field.get_eq_value hcovers]
    exact ⟨_, rfl⟩
  setNext := names.succeeds
  pseudoHeader h := HeaderFormat.guarded_succeeds fun accepted => by
    have hlent := pseudoHeader_eq accepted
    rw [pseudoHeader, HeaderFormat.guarded_of_accepts accepted] at hlent
    exact ⟨_, hlent⟩
  requiredLength _ := ⟨_, rfl⟩
  recompute := derives.succeeds
  checksumValid h _ := HeaderFormat.guarded_succeeds fun accepted => by
    obtain ⟨long, _, hle⟩ := accepts_iff.1 accepted
    -- the check reads as many bytes as the header says that it has
    have hroom : 0 + (Layout.headerLength.value h).toNat ≤ h.length := by omega
    unfold verifyChecksum checksummed
    rw [Field.get_eq_value (covers_headerLength long), ok_bind, Bytes.slice, if_pos hroom]
    exact ⟨_, rfl⟩

theorem sized : dissector.Sized format (fun h => (Layout.headerLength.value h).toNat) 20 where
  accepts := by
    intro h
    rw [accepts_iff]
    omega
  length _ := rfl
  append long rest := by rw [Field.value_append (covers_headerLength long)]

theorem whole_iff {h : Bytes} :
    dissector.Whole h ↔ 20 ≤ h.length ∧ (Layout.headerLength.value h).toNat = h.length :=
  sized.whole_iff

/-- The low four bits of the first byte, read in two ways. -/
theorem toNat_headerLength_cons (x : UInt8) (rest : Bytes) :
    (Layout.headerLength.value (x :: rest)).toNat = (x &&& 0x0f).toNat * 4 := by
  have hlow : x.toNat &&& (0x0f : UInt8).toNat = x.toNat % 16 :=
    Nat.and_two_pow_sub_one_eq_mod _ 4
  rw [headerLength_eq, Field.toNat_value_words, UInt8.toNat_and, hlow]
  have hwindow : (Field.words 0 1 0).window (x :: rest) = [x] := rfl
  rw [hwindow, Field.bitsOf_eq, Bytes.toNat_cons]
  simp [Bytes.toNat]

/-- A whole header asks for its own length. -/
theorem requiredLength_of_whole {h : Bytes} (whole : dissector.Whole h) :
    requiredLength h = h.length := by
  obtain ⟨long, hlength⟩ := whole_iff.1 whole
  cases h with
  | nil => simp at long
  | cons x rest =>
    rw [toNat_headerLength_cons] at hlength
    rw [requiredLength, ← hlength]
    omega

theorem whole_fits {h : Bytes} (whole : dissector.Whole h) : dissector.fit h = .ok h :=
  Dissector.fit_of_required
    (congrArg (fun n => Except.ok (some n)) (requiredLength_of_whole whole))

theorem whole_put_protocol {h : Bytes} (p : IpProtocol) (covers : Layout.protocol.stop ≤ h.length)
    (whole : dissector.Whole h) : dissector.Whole (Layout.protocol.put p h) := by
  rw [whole_iff] at whole ⊢
  rw [Field.length_put lawful_protocol covers,
    Field.value_put_of_apart lawful_protocol covers (by decide)]
  exact whole

/-- A length of whole words is written as it is. -/
theorem whole_work {h : Bytes} (whole : dissector.Whole h) (cx : Context) :
    dissector.Whole (work cx h) := by
  obtain ⟨long, hlength⟩ := whole_iff.1 whole
  obtain ⟨n, hn, hwords⟩ := Field.toNat_value_words_shape h 0 1 0
  rw [headerLength_eq, hwords] at hlength
  rw [whole_iff, length_work long, toNat_headerLength_work long]
  omega

theorem lawful : dissector.Lawful where
  total := total
  setNext_again := names.again
  recompute_again := derives.recompute_again
  recompute_leads := by
    intro h h' payload cx o _ ok leads
    rcases derives.cases ok with ⟨long, rfl⟩ | ⟨_, rfl⟩
    · have hwindow : Layout.protocol.window (work cx h) = Layout.protocol.window h :=
        window_work long cx (by decide)
      -- a header that is too long for its length field is not read any more,
      -- but it still names the payload
      right
      refine names.setNext_of_window (by rw [length_work long]) (fun _ => hwindow) ?_
      rcases leads with hnext | hset
      · exact setNext_of_next hnext
      · exact hset
    · exact leads
  leads_payload := fun leads => leads
  whole_fits := whole_fits
  whole_setNext := names.whole_setNext whole_fits whole_put_protocol
  whole_recompute := by
    intro h h' cx whole ok
    have long := (whole_iff.1 whole).1
    rcases derives.cases ok with ⟨_, rfl⟩ | ⟨_, rfl⟩
    · have whole' := whole_work whole cx
      have hsource : Layout.source.window (work cx h) = Layout.source.window h :=
        window_work long cx (by decide)
      have hdestination : Layout.destination.window (work cx h) = Layout.destination.window h :=
        window_work long cx (by decide)
      refine ⟨whole', ?_⟩
      show pseudoHeader _ = pseudoHeader _
      rw [pseudoHeader_eq (sized.accepts_of_whole whole'), pseudoHeader_eq (sized.accepts_of_whole whole),
        Field.value_eq, Field.value_eq, hsource, hdestination]
      rfl
    · exact ⟨whole, rfl⟩

end Ipv4

/-! ## §4. Generic routing encapsulation. -/

namespace Gre

theorem lawful_protocol : Layout.protocol.Lawful := Field.lawful_word EtherType 2 2

/-- Where a checksum lives, in headers that have one. -/
def checksum : Field UInt16 := .word UInt16 4 2

theorem lawful_checksum : checksum.Lawful := Field.lawful_word UInt16 4 2

/-- The length is decided by the first byte. -/
theorem headerLength?_take (h : Bytes) : headerLength? (h.take 1) = headerLength? h := by
  match h with
  | [] => rfl
  | _ :: _ => rfl

theorem headerLength?_eq {h : Bytes} (long : 1 ≤ h.length) :
    headerLength? h = some (lengthOf (Layout.flags.value h)) := by
  -- the flags are the first byte itself
  cases h with
  | nil => simp at long
  | cons x rest =>
    have hflags : Layout.flags.value (x :: rest) = x := by
      show UInt8.ofNat (Bytes.toNat [x]) = x
      simp [Bytes.toNat]
    rw [hflags]
    rfl

theorem minHeaderLength_le_lengthOf (flags : UInt8) : 4 ≤ lengthOf flags := by
  unfold lengthOf minHeaderLength
  omega

theorem accepts_iff {h : Bytes} :
    format.accepts h = true ↔ 4 ≤ h.length ∧ lengthOf (Layout.flags.value h) ≤ h.length := by
  have hlength : minHeaderLength = 4 := rfl
  rw [HeaderFormat.accepts_iff, format, hlength]
  simp only
  by_cases short : h.length < 4
  · rw [if_pos short]
    simp only [reduceCtorEq, false_iff]
    omega
  · rw [if_neg short, headerLength?_eq (by omega), Option.getD_some]
    split
    · simp only [reduceCtorEq, false_iff]
      omega
    · simp only [true_iff]
      omega

section Accepted

variable {h : Bytes} (accepted : format.accepts h = true)

include accepted

theorem covers_flags : Layout.flags.stop ≤ h.length :=
  Nat.le_trans (by decide) (accepts_iff.1 accepted).1

theorem covers_protocol : Layout.protocol.stop ≤ h.length := (accepts_iff.1 accepted).1

/-- Headers with the same flags and the same length are accepted alike. -/
theorem accepts_of_flags {h' : Bytes} (length : h'.length = h.length)
    (flags : Layout.flags.value h' = Layout.flags.value h) : format.accepts h' = true := by
  rw [accepts_iff, length, flags]
  exact accepts_iff.1 accepted

theorem next_eq : next h = .ok (some (.etherType (Layout.protocol.value h))) := by
  unfold next
  rw [HeaderFormat.guarded_of_accepts accepted, Field.get_eq_value (covers_protocol accepted)]
  rfl

end Accepted

theorem names : dissector.Names (format.accepts · = true) Layout.protocol .etherType :=
  .of_guarded lawful_protocol covers_protocol
    (fun t accepted => accepts_of_flags accepted
      (Field.length_put lawful_protocol (covers_protocol accepted) t)
      (Field.value_put_of_apart lawful_protocol (covers_protocol accepted) (by decide) t))
    (fun _ _ => rfl) fun h {o} other => by
      cases o with
      | etherType t => exact absurd rfl (other t)
      | _ => rfl

/-- The checksum flag, read in two ways. -/
theorem hasChecksum_eq {h : Bytes} (long : 1 ≤ h.length) :
    Layout.hasChecksum.value h = OptionalWord.checksum.isIn (Layout.flags.value h) := by
  cases h with
  | nil => simp at long
  | cons x rest =>
    have hbyte : Bytes.toNat [x] = x.toNat := by simp [Bytes.toNat]
    have hflags : Layout.flags.value (x :: rest) = x := by
      show UInt8.ofNat (Bytes.toNat [x]) = x
      rw [hbyte, UInt8.ofNat_toNat]
    have hbit : x.toNat / 2 ^ 7 % 2 ^ 1 = (x.toNat.testBit 7).toNat :=
      (Nat.toNat_testBit x.toNat 7).symm
    have hread : Layout.hasChecksum.value (x :: rest) = x.toNat.testBit 7 := by
      show (Field.bitsOf (Bytes.toNat [x]) 7 1 != 0) = _
      rw [hbyte, Field.bitsOf_eq, hbit]
      cases x.toNat.testBit 7 <;> rfl
    -- masking leaves the bit where it is, reading a run of bits moves it down
    have hmask : (x &&& OptionalWord.checksum.flag).toNat = (x.toNat.testBit 7).toNat * 2 ^ 7 := by
      rw [UInt8.toNat_and]
      exact Nat.and_two_pow _ 7
    rw [hread, hflags, OptionalWord.isIn]
    cases hx : x.toNat.testBit 7 with
    | false =>
      rw [hx] at hmask
      have hzero : x &&& OptionalWord.checksum.flag = 0 := UInt8.toNat_inj.1 hmask
      simp [hzero]
    | true =>
      rw [hx] at hmask
      have hset : x &&& OptionalWord.checksum.flag ≠ 0 := by
        intro hzero
        rw [hzero] at hmask
        cases hmask
      simpa using hset

/-- Whether a header has a checksum. -/
def hasChecksum (h : Bytes) : Bool := OptionalWord.checksum.isIn (Layout.flags.value h)

/-- What the checksum is filled with, in headers that have one. -/
def fill? (cx : Context) (h : Bytes) : Option (Bytes → UInt16) :=
  match cx.mode, hasChecksum h with
  | .fill, true => some fun h => ~~~ sum h cx.payload
  | _, _ => none

/-- The header with its checksum up to date. -/
def work (cx : Context) (h : Bytes) : Bytes := checksum.refill 0 (fill? cx h) h

section Accepted

variable {h : Bytes} (accepted : format.accepts h = true)

include accepted

theorem covers_checksum (present : hasChecksum h = true) : checksum.stop ≤ h.length := by
  have hle := (accepts_iff.1 accepted).2
  have hstop : checksum.stop = 6 := rfl
  have hpresent : OptionalWord.checksum.isIn (Layout.flags.value h) = true := present
  unfold lengthOf roomFor minHeaderLength at hle
  rw [if_pos hpresent] at hle
  omega

theorem setChecksum_eq (present : hasChecksum h = true) (value : UInt16) :
    setChecksum value h = .ok (checksum.put value h) := by
  have hpresent : OptionalWord.checksum.isIn (Layout.flags.value h) = true := present
  unfold setChecksum setWord wordField?
  rw [Field.get_eq_value (covers_flags accepted)]
  simp only [ok_bind, pure_eq_ok, hpresent, if_true]
  exact Field.set_eq_put lawful_checksum (covers_checksum accepted present) value

/-- Writing the checksum does not touch the windows in front of it. -/
theorem window_work {α : Type} {f : Field α} (cx : Context) (apart : f.Apart checksum) :
    f.window (work cx h) = f.window h := by
  unfold work fill?
  split
  · next _ _ _ hpresent =>
    exact Field.window_refill lawful_checksum (covers_checksum accepted hpresent) apart
  · rfl

theorem length_work (cx : Context) : (work cx h).length = h.length := by
  unfold work fill?
  split
  · next _ _ _ hpresent =>
    exact Field.length_refill lawful_checksum (covers_checksum accepted hpresent)
  · rfl

theorem value_flags_work (cx : Context) : Layout.flags.value (work cx h) = Layout.flags.value h := by
  rw [Field.value_eq, window_work accepted cx (by decide), Field.value_eq]

theorem accepts_work (cx : Context) : format.accepts (work cx h) = true :=
  accepts_of_flags accepted (length_work accepted cx) (value_flags_work accepted cx)

theorem work_again (cx : Context) : work cx (work cx h) = work cx h := by
  have hsame : fill? cx (work cx h) = fill? cx h := by
    rw [fill?, fill?, hasChecksum, value_flags_work accepted, hasChecksum]
  rw [work, hsame, work]
  unfold fill?
  split
  · next _ _ _ hpresent =>
    exact Field.refill_refill lawful_checksum (covers_checksum accepted hpresent)
  · rfl

end Accepted

theorem derives : dissector.Derives (format.accepts · = true) work where
  works {h} cx accepted := by
    have hflag : Layout.hasChecksum.value h = hasChecksum h :=
      hasChecksum_eq (Nat.le_trans (by decide) (accepts_iff.1 accepted).1)
    have hcovers : Layout.hasChecksum.stop ≤ h.length := covers_flags accepted
    show format.guarded _ _ _ = _
    rw [HeaderFormat.guarded_of_accepts accepted, Field.get_eq_value hcovers, ok_bind, hflag, work,
      fill?]
    rcases cx with ⟨payload, pseudo, _ | _⟩
    · cases hpresent : hasChecksum h with
      | true =>
        -- a blank checksum leaves the flag that calls for it
        have hblank : hasChecksum (checksum.put 0 h) = true := by
          rw [hasChecksum, Field.value_put_of_apart lawful_checksum
            (covers_checksum accepted hpresent) (by decide)]
          exact hpresent
        have haccepted : format.accepts (checksum.put 0 h) = true :=
          accepts_of_flags accepted
            (Field.length_put lawful_checksum (covers_checksum accepted hpresent) 0)
            (Field.value_put_of_apart lawful_checksum (covers_checksum accepted hpresent)
              (by decide) 0)
        simp only [decide_true, Bool.and_self, if_true]
        rw [setChecksum_eq accepted hpresent, ok_bind, setChecksum_eq haccepted hblank,
          Field.put_put lawful_checksum (covers_checksum accepted hpresent)]
        rfl
      | false => rfl
    · rfl
  refuses cx refused := HeaderFormat.guarded_of_refused refused _ _
  length cx accepted := length_work accepted cx
  stable cx accepted := accepts_work accepted cx
  again cx accepted := work_again accepted cx

theorem sized : dissector.Sized format (fun h => lengthOf (Layout.flags.value h)) 4 where
  accepts := by
    intro h
    have hmin := minHeaderLength_le_lengthOf (Layout.flags.value h)
    rw [accepts_iff]
    omega
  length h := by
    show dissectedLength h = _
    unfold dissectedLength
    cases h with
    | nil => rfl
    | cons x rest =>
      rw [headerLength?_eq (by simp), Option.getD_some]
      cases format.check (x :: rest) <;> rfl
  append long rest := by
    have hflags : Layout.flags.stop ≤ _ := Nat.le_trans (by decide) long
    rw [Field.value_append hflags]

theorem whole_iff {h : Bytes} :
    dissector.Whole h ↔ 4 ≤ h.length ∧ lengthOf (Layout.flags.value h) = h.length :=
  sized.whole_iff

theorem whole_fits {h : Bytes} (whole : dissector.Whole h) : dissector.fit h = .ok h := by
  obtain ⟨long, hlength⟩ := whole_iff.1 whole
  refine Dissector.fit_of_required (congrArg (fun n => Except.ok (some n)) ?_)
  rw [headerLength?_eq (by omega), Option.getD_some, hlength]

theorem whole_put_protocol {h : Bytes} (t : EtherType) (accepted : format.accepts h = true)
    (whole : dissector.Whole h) : dissector.Whole (Layout.protocol.put t h) := by
  have hcovers := covers_protocol accepted
  rw [whole_iff, Field.length_put lawful_protocol hcovers,
    Field.value_put_of_apart lawful_protocol hcovers (by decide)]
  exact whole_iff.1 whole

theorem total : dissector.Total where
  payloadLength _ _ := ⟨_, rfl⟩
  next h _ := HeaderFormat.guarded_succeeds fun accepted => by
    rw [Field.get_eq_value (covers_protocol accepted)]
    exact ⟨_, rfl⟩
  isSealed _ := ⟨_, rfl⟩
  setNext := names.succeeds
  pseudoHeader _ := ⟨_, rfl⟩
  requiredLength _ := ⟨_, rfl⟩
  recompute := derives.succeeds
  checksumValid h cx := HeaderFormat.guarded_succeeds fun accepted => by
    have hcovers : Layout.hasChecksum.stop ≤ h.length := covers_flags accepted
    rw [Field.get_eq_value hcovers]
    exact ⟨_, rfl⟩

theorem lawful : dissector.Lawful where
  total := total
  setNext_again := names.again
  recompute_again := derives.recompute_again
  recompute_leads := by
    intro h h' payload cx o _ ok leads
    rcases derives.cases ok with ⟨accepted, rfl⟩ | ⟨_, rfl⟩
    · have accepted' := accepts_work accepted cx
      have hwindow : Layout.protocol.window (work cx h) = Layout.protocol.window h :=
        window_work accepted cx (by decide)
      exact names.leads_of_window (iff_of_true accepted' accepted) hwindow (next_eq accepted)
        (next_eq accepted') leads
    · exact leads
  leads_payload := fun leads => leads
  whole_fits := whole_fits
  whole_setNext := names.whole_setNext whole_fits whole_put_protocol
  whole_recompute := by
    intro h h' cx whole ok
    have accepted := sized.accepts_of_whole whole
    rcases derives.cases ok with ⟨_, rfl⟩ | ⟨_, rfl⟩
    · -- the flags decide the length, and nothing writes them
      refine ⟨?_, rfl⟩
      rw [whole_iff, length_work accepted, value_flags_work accepted]
      exact whole_iff.1 whole
    · exact ⟨whole, rfl⟩

end Gre

end PacketLayers
