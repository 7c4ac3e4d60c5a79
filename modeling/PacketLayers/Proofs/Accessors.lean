/-
  PacketLayers.Proofs.Accessors
  ────────────────────────────────
  **WHAT A CHECKED HEADER ANSWERS.**

  A header that its format accepts is read without a fault, every field of it,
  and a field is written over as many bytes as there were.  Fields that only
  some headers have are looked for before they are read.  Most of them are
  looked for before they are written as well; the setters in `blind` are not,
  and fault on headers that end in front of the field:

    • `Answers` — what the accessors of one field do on one header;
    • `Table.Answers` — and all accessors of a protocol, on accepted headers;
    • `accessors_answer` — the protocols of the library.
-/
import PacketLayers.Proofs.Emission.Transport
import PacketLayers.Proofs.Safety

namespace PacketLayers

/-! ## §1. What accessors do. -/

/-- The setters that do not look whether the header has their field, and where
the field ends. -/
def LayerKind.blind : LayerKind → List (String × Nat)
  | wireless => [("addr2", Wireless.Layout.addr2.stop), ("addr3", Wireless.Layout.addr3.stop),
      ("sequence_control", Wireless.Layout.sequenceControl.stop),
      ("addr4", Wireless.Layout.addr4.stop)]
  | llc => [("oui", Llc.Layout.organization.stop), ("ethertype", Llc.Layout.etherType.stop)]
  | _ => []

/-- How many bytes the setter of a field takes for granted. -/
def LayerKind.reach (kind : LayerKind) (name : String) : Nat := (kind.blind.lookup name).getD 0

namespace Listing

/-- Octets are of the length that the header gives them. -/
def NamedField.Fits (f : NamedField) (v : Value) (h : Bytes) : Prop :=
  ∀ old new : Bytes, f.get h = .ok (.octets old) → ofValue? v = some new →
    new.length = old.length

/-- **The accessors of a field on a header:** it is read, and every value is
written over as many bytes, if the header reaches as far as the setter takes
for granted, and else not at all.  It does wherever there is something to be
read. -/
structure NamedField.Answers (f : NamedField) (reach : Nat) (h : Bytes) : Prop where
  reads : ∃ v, f.get h = .ok v
  writes : ∀ v x, f.set v h = some x → f.Fits v h → reach ≤ h.length →
    ∃ h', x = .ok h' ∧ h'.length = h.length
  faults : ∀ v x, f.set v h = some x → h.length < reach → x = .error .outOfRange
  reaches : ∀ v, f.get h = .ok v → v ≠ .absent → reach ≤ h.length

/-- The accessors of a protocol, on the headers that its format accepts. -/
def Table.Answers (t : Table) : Prop :=
  ∀ h, t.format.accepts h = true → ∀ f ∈ t.fields, f.Answers (t.format.kind.reach f.name) h

end Listing

/-! ## §2. Kinds of fields. -/

/-- A read of a field that some headers lack: nothing is found where the window
of the field is not there. -/
def Field.LooksFor {α β : Type} (f : Field β) (h : Bytes) (read : Access (Option α)) : Prop :=
  ∃ found, read = .ok found ∧ (found.isSome = true → f.stop ≤ h.length)

/-- Where its window is covered, a field is written over as many bytes. -/
theorem Field.set_succeeds {α : Type} {f : Field α} {h : Bytes} (law : f.Lawful)
    (covers : f.stop ≤ h.length) (v : α) : ∃ h', f.set v h = .ok h' ∧ h'.length = h.length :=
  ⟨_, set_eq_put law covers v, length_put law covers v⟩

namespace Listing.NamedField.Answers

variable {α β : Type} [Listable α] [Listable β] {h : Bytes} {name : String}

theorem get_both {get : Bytes → Access α} {set : β → Bytes → Access Bytes} {a : α}
    (reads : get h = .ok a) : (NamedField.both name get set).get h = .ok (toValue a) := by
  show (get h >>= fun a => pure (toValue a)) = _
  rw [reads]
  rfl

theorem both {get : Bytes → Access α} {set : β → Bytes → Access Bytes}
    (reads : ∃ a, get h = .ok a) (writes : ∀ b, ∃ h', set b h = .ok h' ∧ h'.length = h.length) :
    (NamedField.both name get set).Answers 0 h where
  reads := by
    obtain ⟨a, ha⟩ := reads
    exact ⟨_, get_both ha⟩
  writes v x hx _ _ := by
    obtain ⟨b, _, rfl⟩ := Option.map_eq_some_iff.1 hx
    exact writes b
  faults _ _ _ short := by cases short
  reaches _ _ _ := Nat.zero_le _

theorem derived {get : Bytes → Access α} (reads : ∃ a, get h = .ok a) :
    (NamedField.derived name get).Answers 0 h where
  reads := by
    obtain ⟨a, ha⟩ := reads
    refine ⟨toValue a, ?_⟩
    show (get h >>= fun a => pure (toValue a)) = _
    rw [ha]
    rfl
  writes _ _ hx := by cases hx
  faults _ _ _ short := by cases short
  reaches _ _ _ := Nat.zero_le _

/-- A field of the first bytes of a header. -/
theorem of {f : Field α} {n : Nat} (long : n ≤ h.length) (law : f.Lawful) (inside : f.stop ≤ n) :
    (NamedField.of name f).Answers 0 h :=
  both ⟨_, Field.get_eq_value (Nat.le_trans inside long)⟩
    (Field.set_succeeds law (Nat.le_trans inside long))

/-- Octets of a length that the header states. -/
theorem octets {get : Bytes → Access Bytes} {set : Bytes → Bytes → Access Bytes} {old : Bytes}
    (reads : get h = .ok old) (writes : ∀ new : Bytes, new.length = old.length →
      ∃ h', set new h = .ok h' ∧ h'.length = h.length) :
    (NamedField.both name get set).Answers 0 h where
  reads := ⟨_, get_both reads⟩
  writes v x hx fits _ := by
    obtain ⟨new, hnew, rfl⟩ := Option.map_eq_some_iff.1 hx
    exact writes new (fits old new (get_both reads) hnew)
  faults _ _ _ short := by cases short
  reaches _ _ _ := Nat.zero_le _

/-- A field that is looked for where it is read, and not where it is written. -/
theorem blind {get : Bytes → Access (Option α)} {f : Field β} (law : f.Lawful)
    (reads : f.LooksFor h (get h)) : (NamedField.both name get f.set).Answers f.stop h where
  reads := by
    obtain ⟨a, ha, _⟩ := reads
    exact ⟨_, get_both ha⟩
  writes v x hx _ room := by
    obtain ⟨b, _, rfl⟩ := Option.map_eq_some_iff.1 hx
    exact Field.set_succeeds law room b
  faults v x hx short := by
    obtain ⟨b, _, rfl⟩ := Option.map_eq_some_iff.1 hx
    have hroom : ¬ f.first + f.size ≤ h.length := Nat.not_le.2 short
    show f.set b h = _
    rw [Field.set, Bytes.slice, if_neg hroom, error_bind]
  reaches v hv there := by
    obtain ⟨a, ha, hcovers⟩ := reads
    obtain rfl := Except.ok.inj ((get_both ha).symm.trans hv)
    cases a with
    | none => exact absurd rfl there
    | some a => exact hcovers rfl

end Listing.NamedField.Answers

open Listing

/-! ## §3. Protocols with the same fields in every header. -/

theorem Ethernet.table_answers : Ethernet.table.Answers := by
  intro h accepted
  have long : 14 ≤ h.length := accepts_iff.1 accepted
  simp only [table, Table.of, List.forall_mem_cons]
  exact ⟨.of long (Field.lawful_octets 0 6) (by decide),
    .of long (Field.lawful_octets 6 6) (by decide),
    .of long (Field.lawful_word EtherType 12 2) (by decide), List.forall_mem_nil _⟩

theorem Vlan.table_answers : Vlan.table.Answers := by
  intro h accepted
  have long : 4 ≤ h.length := HeaderFormat.accepts_fixed.1 accepted
  simp only [table, Table.of, List.forall_mem_cons]
  exact ⟨.of long (Field.lawful_bits UInt8 0 (by decide)) (by decide),
    .of long (Field.lawful_bits Bool 0 (by decide)) (by decide),
    .of long (Field.lawful_bits UInt16 0 (by decide)) (by decide),
    .of long (Field.lawful_word EtherType 2 2) (by decide), List.forall_mem_nil _⟩

theorem Ipv6.table_answers : Ipv6.table.Answers := by
  intro h accepted
  have long : 40 ≤ h.length := accepts_iff.1 accepted
  simp only [table, Table.of, List.forall_mem_cons]
  exact ⟨.of long (Field.lawful_bits UInt8 0 (by decide)) (by decide),
    .of long (Field.lawful_bits UInt8 0 (by decide)) (by decide),
    .of long (Field.lawful_bits UInt32 1 (by decide)) (by decide),
    .of long (Field.lawful_word UInt16 4 2) (by decide),
    .of long (Field.lawful_word IpProtocol 6 1) (by decide),
    .of long (Field.lawful_word UInt8 7 1) (by decide),
    .of long (Field.lawful_octets 8 16) (by decide),
    .of long (Field.lawful_octets 24 16) (by decide), List.forall_mem_nil _⟩

theorem Udp.table_answers : Udp.table.Answers := by
  intro h accepted
  have long : 8 ≤ h.length := (accepts_iff.1 accepted).1
  simp only [table, Table.of, List.forall_mem_cons]
  exact ⟨.of long (Field.lawful_word UInt16 0 2) (by decide),
    .of long (Field.lawful_word UInt16 2 2) (by decide),
    .of long (Field.lawful_word UInt16 4 2) (by decide),
    .of long (Field.lawful_word UInt16 6 2) (by decide), List.forall_mem_nil _⟩

theorem Icmpv4.table_answers : Icmpv4.table.Answers := by
  intro h accepted
  have long : 8 ≤ h.length := HeaderFormat.accepts_fixed.1 accepted
  have hrest : Layout.restOfHeader.stop ≤ h.length := long
  simp only [table, Table.of, List.forall_mem_cons]
  exact ⟨.of long (Field.lawful_word MessageType 0 1) (by decide),
    .of long (Field.lawful_word UInt8 1 1) (by decide),
    .of long (Field.lawful_word UInt16 2 2) (by decide),
    .of long (Field.lawful_word UInt16 4 2) (by decide),
    .of long (Field.lawful_word UInt16 6 2) (by decide),
    .derived ⟨_, by rw [Field.get_eq_value hrest]; rfl⟩, List.forall_mem_nil _⟩

theorem Icmpv6.table_answers : Icmpv6.table.Answers := by
  intro h accepted
  have long : 8 ≤ h.length := HeaderFormat.accepts_fixed.1 accepted
  simp only [table, Table.of, List.forall_mem_cons]
  exact ⟨.of long (Field.lawful_word MessageType 0 1) (by decide),
    .of long (Field.lawful_word UInt8 1 1) (by decide),
    .of long (Field.lawful_word UInt16 2 2) (by decide),
    .of long (Field.lawful_word UInt16 4 2) (by decide),
    .of long (Field.lawful_word UInt16 6 2) (by decide),
    .of long (Field.lawful_word UInt32 4 4) (by decide), List.forall_mem_nil _⟩

theorem Igmp.table_answers : Igmp.table.Answers := by
  intro h accepted
  have long : 8 ≤ h.length := HeaderFormat.accepts_fixed.1 accepted
  simp only [table, Table.of, List.forall_mem_cons]
  exact ⟨.of long (Field.lawful_word MessageType 0 1) (by decide),
    .of long (Field.lawful_word UInt8 1 1) (by decide),
    .of long (Field.lawful_word UInt16 2 2) (by decide),
    .of long (Field.lawful_octets 4 4) (by decide), List.forall_mem_nil _⟩

/-! ## §4. Parts of a length that the header states. -/

/-- A range of bytes that is there is read. -/
theorem Bytes.slice_succeeds {b : Bytes} {first size : Nat} (room : first + size ≤ b.length) :
    ∃ part, b.slice first size = .ok part ∧ part.length = size := by
  have hslice : b.slice first size = .ok ((b.drop first).take size) := if_pos room
  exact ⟨_, hslice, length_slice hslice⟩

namespace Arp

theorem table_answers : table.Answers := by
  intro h accepted
  obtain ⟨hleast, hlength⟩ := sized.accepts.1 accepted
  have long : 8 ≤ h.length := Nat.le_trans hleast hlength
  have hmessage : messageLength h = .ok _ := messageLength_eq long
  have haddress (role : AddressRole) (name : String) : (addressField name role).Answers 0 h := by
    have hroom := Nat.le_trans (role.range_within (Layout.hardwareLength.value h).toNat
      (Layout.protocolLength.value h).toNat).2 hlength
    obtain ⟨old, hold, hsize⟩ := Bytes.slice_succeeds hroom
    have hget : getAddress role h = .ok old := by
      rw [getAddress, addressRange_eq role long]
      exact hold
    refine .octets hget fun new hnew => ?_
    rw [setAddress, addressRange_eq role long]
    exact Bytes.replace_succeeds hroom (hnew.trans hsize)
  simp only [table, Table.of, List.forall_mem_cons]
  exact ⟨.of long (Field.lawful_word Hardware 0 2) (by decide),
    .of long (Field.lawful_word EtherType 2 2) (by decide),
    .of long (Field.lawful_word UInt8 4 1) (by decide),
    .of long (Field.lawful_word UInt8 5 1) (by decide),
    .of long (Field.lawful_word Operation 6 2) (by decide), .derived ⟨_, hmessage⟩,
    haddress _ _, haddress _ _, haddress _ _, haddress _ _, List.forall_mem_nil _⟩

end Arp

namespace Ipv4

theorem table_answers : table.Answers := by
  intro h accepted
  obtain ⟨long, hleast, hroom⟩ := accepts_iff.1 accepted
  have hsum : 0 + (Layout.headerLength.value h).toNat ≤ h.length := by omega
  obtain ⟨summed, hsummed, _⟩ := Bytes.slice_succeeds hsum
  have hverify : verifyChecksum h = .ok (Checksum.verify summed) := by
    unfold verifyChecksum checksummed
    rw [Field.get_eq_value (covers_headerLength long), ok_bind, hsummed]
    rfl
  simp only [table, Table.of, List.forall_mem_cons]
  refine ⟨.of long (Field.lawful_bits UInt8 0 (by decide)) (by decide),
    .of long lawful_headerLength (by decide),
    .of long (Field.lawful_bits UInt8 1 (by decide)) (by decide),
    .of long (Field.lawful_bits UInt8 1 (by decide)) (by decide),
    .of long lawful_totalLength (by decide), .of long (Field.lawful_word UInt16 4 2) (by decide),
    .of long (Field.lawful_bits Bool 6 (by decide)) (by decide),
    .of long (Field.lawful_bits Bool 6 (by decide)) (by decide),
    .of long ((Field.lawful_bits UInt16 6 (by decide)).map _ _) (by decide),
    .of long (Field.lawful_word UInt8 8 1) (by decide), .of long lawful_protocol (by decide),
    .of long lawful_checksum (by decide), .of long (Field.lawful_octets 12 4) (by decide),
    .of long (Field.lawful_octets 16 4) (by decide),
    .octets (getOptions_eq hleast hroom) fun new hnew => ?_, .derived ⟨_, hverify⟩,
    List.forall_mem_nil _⟩
  have hsize : new.length = (Layout.headerLength.value h).toNat - 20 := by
    rw [hnew, List.length_take_of_le (by rw [List.length_drop]; omega)]
  exact ⟨_, setOptions_eq hleast hroom hsize, Bytes.length_replaced (by omega) hsize⟩

end Ipv4

namespace Tcp

theorem table_answers : table.Answers := by
  intro h accepted
  obtain ⟨long, hleast, hroom⟩ := accepts_iff.1 accepted
  simp only [table, Table.of, List.forall_mem_cons]
  refine ⟨.of long (Field.lawful_word UInt16 0 2) (by decide),
    .of long (Field.lawful_word UInt16 2 2) (by decide),
    .of long (Field.lawful_word SequenceNumber 4 4) (by decide),
    .of long (Field.lawful_word SequenceNumber 8 4) (by decide),
    .of long ((Field.lawful_bits UInt16 12 (by decide)).map _ _) (by decide),
    .of long lawful_headerLength (by decide), .of long (Field.lawful_word UInt16 14 2) (by decide),
    .of long lawful_checksum (by decide), .of long (Field.lawful_word UInt16 18 2) (by decide),
    .octets (getOptions_eq long) fun new hnew => ⟨_, setOptions_eq long hnew, ?_⟩,
    List.forall_mem_nil _⟩
  rw [List.length_drop, List.length_take_of_le hroom] at hnew
  exact Bytes.length_replaced (by omega) rfl

end Tcp

/-! ## §5. Fields that only some headers have. -/

namespace Gre

section Accepted

variable {h : Bytes} (accepted : format.accepts h = true)

include accepted

/-- A word that the flags say is there lies inside the header. -/
theorem wordField?_inside {α : Type} [Coded α] (w : OptionalWord) {size : Nat} (small : size ≤ 4) :
    ∃ found, wordField? (α := α) w size h = .ok found
      ∧ ∀ f, found = some f → f.Lawful ∧ f.stop ≤ h.length := by
  have hlength := (accepts_iff.1 accepted).2
  refine ⟨_, by rw [wordField?, Field.get_eq_value (covers_flags accepted)]; rfl, fun f hf => ?_⟩
  split at hf
  · next present =>
    obtain rfl := Option.some.inj hf
    refine ⟨Field.lawful_word α _ size, ?_⟩
    have hfour : roomFor (w.isIn (Layout.flags.value h)) = 4 := if_pos present
    show w.start (Layout.flags.value h) + size ≤ h.length
    -- the words behind it only add to the length
    cases w <;> simp only [OptionalWord.start, lengthOf] at hlength ⊢ <;> omega
  · cases hf

theorem word_answers {α : Type} [Coded α] [Listable α] (w : OptionalWord) {size : Nat}
    (small : size ≤ 4) (name : String) :
    (NamedField.both name (getWord? (α := α) w size) (setWord (α := α) w size)).Answers 0 h := by
  obtain ⟨found, hfound, hinside⟩ := wordField?_inside (α := α) accepted w small
  refine .both ?_ fun v => ?_
  · unfold getWord?
    rw [hfound, ok_bind]
    cases found with
    | none => exact ⟨none, rfl⟩
    | some f => exact ⟨_, bind_eq_ok.2 ⟨_, Field.get_eq_value (hinside f rfl).2, rfl⟩⟩
  · unfold setWord
    rw [hfound, ok_bind]
    cases found with
    | none => exact ⟨h, rfl, rfl⟩
    | some f => exact Field.set_succeeds (hinside f rfl).1 (hinside f rfl).2 v

end Accepted

theorem table_answers : table.Answers := by
  intro h accepted
  have long : 4 ≤ h.length := (accepts_iff.1 accepted).1
  have hflag {low : Nat} : (Field.bits Bool 0 1 low 1).stop ≤ h.length :=
    Nat.le_trans (by decide : 1 ≤ 4) long
  have hasks : headerLength h = .ok (lengthOf (Layout.flags.value h)) := by
    unfold headerLength
    rw [Field.get_eq_value (covers_flags accepted)]
    rfl
  simp only [table, Table.of, List.forall_mem_cons]
  exact ⟨.derived ⟨_, hasks⟩, .derived ⟨_, Field.get_eq_value hflag⟩,
    .derived ⟨_, Field.get_eq_value hflag⟩, .derived ⟨_, Field.get_eq_value hflag⟩,
    .of long ((Field.lawful_word UInt8 1 1).map _ _) (by decide),
    .of long lawful_protocol (by decide), word_answers accepted .checksum (by decide) _,
    word_answers accepted .key (by decide) _, word_answers accepted .sequence (by decide) _,
    List.forall_mem_nil _⟩

end Gre

namespace Wireless

theorem covers_of_held {α : Type} {f : Field α} {h : Bytes} (found : (held? f h).isSome = true) :
    f.stop ≤ h.length := by
  unfold held? at found
  split at found
  · assumption
  · cases found

section Accepted

variable {h : Bytes} (accepted : format.accepts h = true)

include accepted

theorem address?_looks (f : Field EthernetAddress) : f.LooksFor h (address? f h) := by
  refine ⟨_, address?_eq accepted f, fun found => ?_⟩
  split at found
  · cases found
  · next hroom => exact Nat.le_trans (Nat.not_lt.1 hroom) (lengthOf_le accepted)

theorem addr3?_looks : Layout.addr3.LooksFor h (addr3? h) := by
  unfold addr3?
  rw [get_front accepted (f := Layout.frameType) (by decide), ok_bind]
  split
  · exact ⟨none, rfl, fun found => by cases found⟩
  · exact address?_looks accepted _

theorem sequenceControl?_looks : Layout.sequenceControl.LooksFor h (sequenceControl? h) := by
  unfold sequenceControl?
  rw [get_front accepted (f := Layout.frameType) (by decide)]
  refine ⟨_, rfl, fun found => ?_⟩
  split at found
  · cases found
  · exact covers_of_held found

theorem addr4?_looks : Layout.addr4.LooksFor h (addr4? h) := by
  unfold addr4?
  rw [get_front accepted (f := Layout.frameType) (by decide),
    get_front accepted (f := Layout.flags) (by decide), ok_bind, ok_bind]
  split
  · exact address?_looks accepted _
  · exact ⟨none, rfl, fun found => by cases found⟩

theorem qosControl_answers (name : String) :
    (NamedField.both name qosControl? setQosControl).Answers 0 h := by
  obtain ⟨found, hfound, hinside⟩ := qosField?_inside accepted
  refine .both ?_ fun v => ?_
  · unfold qosControl?
    rw [hfound]
    exact ⟨_, rfl⟩
  · unfold setQosControl
    rw [hfound, ok_bind]
    cases found with
    | none => exact ⟨h, rfl, rfl⟩
    | some f =>
      obtain ⟨first, rfl, _, hroom⟩ := hinside f rfl
      exact Field.set_succeeds (Field.lawful_wordLittle UInt16 first 2) hroom v

end Accepted

theorem table_answers : table.Answers := by
  intro h accepted
  have long : 10 ≤ h.length := ten_le_of_accepts accepted
  have htype := get_front accepted (f := Layout.frameType) (by decide)
  have hsubtype := get_front accepted (f := Layout.subtype) (by decide)
  have hflags := get_front accepted (f := Layout.flags) (by decide)
  simp only [table, Table.of, List.forall_mem_cons]
  exact ⟨.derived ⟨_, headerLength_eq accepted⟩, .derived ⟨_, get_front accepted (by decide)⟩,
    .derived ⟨_, htype⟩, .derived ⟨_, hsubtype⟩,
    .derived ⟨_, by rw [typeAndSubtype, htype, hsubtype]; rfl⟩,
    .of long (Field.lawful_word FrameFlags 1 1) (by decide),
    .derived ⟨_, by rw [hflags]; rfl⟩,
    .of long (Field.lawful_wordLittle UInt16 2 2) (by decide),
    .of long (Field.lawful_octets 4 6) (by decide),
    .blind (Field.lawful_octets 10 6) (address?_looks accepted _),
    .blind (Field.lawful_octets 16 6) (addr3?_looks accepted),
    .blind (Field.lawful_wordLittle UInt16 22 2) (sequenceControl?_looks accepted),
    .blind (Field.lawful_octets 24 6) (addr4?_looks accepted), qosControl_answers accepted _,
    List.forall_mem_nil _⟩

end Wireless

namespace Llc

theorem snapField?_looks {α : Type} {h : Bytes} (long : 3 ≤ h.length) (f : Field α) :
    f.LooksFor h (snapField? f h) := by
  unfold snapField?
  rw [isSnap_eq long]
  refine ⟨_, rfl, fun found => ?_⟩
  split at found
  · next both => exact of_decide_eq_true (Bool.and_eq_true_iff.1 both).2
  · cases found

/-- An accepted header is there as far as its first three bytes say. -/
theorem lengthOf_le {h : Bytes} (accepted : format.accepts h = true) :
    lengthOf (Layout.dsap.value h) (Layout.ssap.value h) (Layout.control.value h)
      ≤ h.length := by
  obtain ⟨n, hasks, hn⟩ := accepts_iff.1 accepted
  match h with
  | [] => cases hasks
  | [_] => cases hasks
  | [_, _] => cases hasks
  | x :: y :: z :: rest =>
    obtain ⟨hdsap, hssap, hcontrol⟩ := value_bytes x y z rest
    rw [hdsap, hssap, hcontrol]
    exact Nat.le_trans (Nat.le_of_eq (Option.some.inj hasks)) hn

theorem table_answers : table.Answers := by
  intro h accepted
  have long : 3 ≤ h.length := three_le_of_accepts accepted
  have hcontrol : Layout.control.get h = .ok _ := Field.get_eq_value long
  have hasks := headerLength_eq long
  have hread : ∃ n, control h = .ok n := by
    unfold control
    rw [hasks, ok_bind]
    split
    · next hfour =>
      have hlong : Layout.longControl.stop ≤ h.length :=
        Nat.le_trans (Nat.le_of_eq hfour.symm) (lengthOf_le accepted)
      exact ⟨_, Field.get_eq_value hlong⟩
    · exact ⟨_, by rw [hcontrol]; rfl⟩
  simp only [table, Table.of, List.forall_mem_cons]
  exact ⟨.derived ⟨_, hasks⟩, .of long (Field.lawful_word UInt8 0 1) (by decide),
    .of long (Field.lawful_word UInt8 1 1) (by decide), .derived hread,
    .derived ⟨_, isSnap_eq long⟩,
    .blind (Field.lawful_octets 3 3) (snapField?_looks long _),
    .blind lawful_etherType (snapField?_looks long _), List.forall_mem_nil _⟩

end Llc

/-! ## §6. All of them. -/

/-- The setters that are not those of one field: they write several fields, or
one that is derived. -/
inductive JointSetter : HeaderFormat → (Bytes → Access Bytes) → Prop where
  | clearFlags : JointSetter Ipv4.format (Ipv4.Layout.flags.set 0)
  | fillIpv4 : JointSetter Ipv4.format Ipv4.fillChecksum
  | fillTcp (pseudo : PseudoHeader) (payload : Bytes) :
      JointSetter Tcp.format (Tcp.fillChecksum pseudo payload)
  | fillUdp (pseudo : PseudoHeader) (payload : Bytes) :
      JointSetter Udp.format (Udp.fillChecksum pseudo payload)
  | fillIcmpv4 (payload : Bytes) : JointSetter Icmpv4.format (Icmpv4.fillChecksum payload)
  | fillIcmpv6 (pseudo : PseudoHeader) (payload : Bytes) :
      JointSetter Icmpv6.format (Icmpv6.fillChecksum pseudo payload)
  | fillIgmp (payload : Bytes) : JointSetter Igmp.format (Igmp.fillChecksum payload)
  | present (checksum key sequence : Bool) :
      JointSetter Gre.format (Gre.setPresent checksum key sequence)
  | typeAndSubtype (type : FrameType) (subtype : UInt8) :
      JointSetter Wireless.format (Wireless.setTypeAndSubtype type subtype)

/-- A write, and a second one of a value computed from what was written. -/
theorem Field.set_set_succeeds {α β : Type} {f : Field α} {g : Field β} {h : Bytes}
    (lawf : f.Lawful) (lawg : g.Lawful) (coversf : f.stop ≤ h.length)
    (coversg : g.stop ≤ h.length) (v : α) (value : Bytes → β) :
    ∃ h', (f.set v h >>= fun h => g.set (value h) h) = .ok h' ∧ h'.length = h.length := by
  obtain ⟨h₁, hset, hlength⟩ := Field.set_succeeds lawf coversf v
  obtain ⟨h₂, hset', hlength'⟩ := Field.set_succeeds lawg (hlength ▸ coversg) (value h₁)
  exact ⟨h₂, bind_eq_ok.2 ⟨h₁, hset, hset'⟩, hlength'.trans hlength⟩

/-- **Setters of more than one field** write as many bytes as there were. -/
theorem JointSetter.succeeds {f : HeaderFormat} {set : Bytes → Access Bytes}
    (setter : JointSetter f set) {h : Bytes} (accepted : f.accepts h = true) :
    ∃ h', set h = .ok h' ∧ h'.length = h.length := by
  -- a checksum is blanked, and then computed with the blank in its place
  have filled {size : Nat} (long : size ≤ h.length) {first : Nat} (inside : first + 2 ≤ size)
      (value : Bytes → UInt16) := Field.set_set_succeeds (f := .word UInt16 first 2)
    (g := .word UInt16 first 2) (Field.lawful_word UInt16 first 2)
    (Field.lawful_word UInt16 first 2) (Nat.le_trans inside long) (Nat.le_trans inside long) 0 value
  cases setter with
  | clearFlags =>
    exact Field.set_succeeds (Field.lawful_bits UInt8 6 (by decide))
      (Nat.le_trans (by decide) (Ipv4.accepts_iff.1 accepted).1) 0
  | fillIpv4 =>
    obtain ⟨long, _, hroom⟩ := Ipv4.accepts_iff.1 accepted
    have hcovers : Ipv4.Layout.checksum.stop ≤ h.length := Nat.le_trans (by decide) long
    exact ⟨_, Ipv4.fillChecksum_eq hcovers hroom, Field.length_fill Ipv4.lawful_checksum hcovers⟩
  | fillTcp => exact filled (Tcp.accepts_iff.1 accepted).1 (by decide) _
  | fillUdp => exact filled (Udp.accepts_iff.1 accepted).1 (by decide) _
  | fillIcmpv4 | fillIcmpv6 | fillIgmp =>
    exact filled (HeaderFormat.accepts_fixed.1 accepted) (by decide) _
  | present =>
    exact Field.set_succeeds (Field.lawful_word UInt8 0 1) (Gre.covers_flags accepted) _
  | typeAndSubtype =>
    exact Field.set_set_succeeds Wireless.lawful_frameType Wireless.lawful_subtype
      (Wireless.covers_front accepted (by decide)) (Wireless.covers_front accepted (by decide)) _
      fun _ => _

/-- The accessors of every protocol of the library answer. -/
theorem Listing.Table.answers_of_mem_all {t : Table} (known : t ∈ Table.all) : t.Answers := by
  cases known using Table.all_cases with
  | ethernet => exact Ethernet.table_answers
  | vlan => exact Vlan.table_answers
  | arp => exact Arp.table_answers
  | ipv4 => exact Ipv4.table_answers
  | ipv6 => exact Ipv6.table_answers
  | tcp => exact Tcp.table_answers
  | udp => exact Udp.table_answers
  | icmpv4 => exact Icmpv4.table_answers
  | icmpv6 => exact Icmpv6.table_answers
  | igmp => exact Igmp.table_answers
  | gre => exact Gre.table_answers
  | loopback => exact fun _ _ => List.forall_mem_nil _
  | wireless => exact Wireless.table_answers
  | llc => exact Llc.table_answers

/-- **A checked header answers.**  Of every protocol and every header that its
format accepts, every field is read, the options of TCP one by one and the
verdict on the checksum included; every setter writes over as many bytes as
there were, whatever the value, as long as octets are of the length that the
header gives them — except for the setters that do not look whether the header
has their field: these fault on the headers that end in front of it, in which
the getter finds nothing either. -/
theorem accessors_answer {t : Table} (known : t ∈ Table.all) (h : Bytes)
    (accepted : t.format.accepts h = true) :
    (∀ f ∈ t.fields, f.Answers (t.format.kind.reach f.name) h)
    ∧ (t.format = Tcp.format → ∃ items, Tcp.options h = .ok items)
    ∧ (t.format = Udp.format → ∀ pseudo payload,
        ∃ valid, Udp.verifyChecksum pseudo payload h = .ok valid)
    ∧ ∀ set, JointSetter t.format set → ∃ h', set h = .ok h' ∧ h'.length = h.length := by
  refine ⟨Table.answers_of_mem_all known h accepted, fun tcp => ?_, fun udp pseudo payload => ?_,
    fun set setter => setter.succeeds accepted⟩
  · rw [tcp] at accepted
    rw [Tcp.options, Tcp.getOptions_eq (Tcp.accepts_iff.1 accepted).1]
    exact ⟨_, rfl⟩
  · rw [udp] at accepted
    have hchecksum : Udp.Layout.checksum.stop ≤ h.length := (Udp.accepts_iff.1 accepted).1
    unfold Udp.verifyChecksum
    rw [Field.get_eq_value hchecksum, ok_bind]
    split <;> exact ⟨_, rfl⟩

/-- A SNAP header, which has every field of its protocol, and a TCP header with
four bytes of options, a datagram and a header of routing encapsulation. -/
theorem accessors_answer_snap :
    (Llc.format.accepts [0xaa, 0xaa, 3, 0, 0, 0, 8, 0] = true
      ∧ ∀ f ∈ Llc.table.fields,
        f.Answers (LayerKind.llc.reach f.name) [0xaa, 0xaa, 3, 0, 0, 0, 8, 0])
    ∧ (Tcp.format.accepts (List.replicate 12 0 ++ 0x60 :: List.replicate 11 0) = true
      ∧ ∃ items, Tcp.options (List.replicate 12 0 ++ 0x60 :: List.replicate 11 0) = .ok items)
    ∧ (Udp.format.accepts [0, 53, 0, 53, 0, 8, 0, 0] = true
      ∧ ∃ valid, Udp.verifyChecksum (.v4 (.fit 4 []) (.fit 4 [])) [] [0, 53, 0, 53, 0, 8, 0, 0]
        = .ok valid)
    ∧ Gre.format.accepts [0, 0, 8, 0] = true
    ∧ ∃ h', Gre.setPresent true false true [0, 0, 8, 0] = .ok h' ∧ h'.length = 4 := by
  have hsnap : Llc.format.accepts [0xaa, 0xaa, 3, 0, 0, 0, 8, 0] = true := by decide
  have htcp : Tcp.format.accepts (List.replicate 12 0 ++ 0x60 :: List.replicate 11 0) = true := by
    decide
  have hudp : Udp.format.accepts [0, 53, 0, 53, 0, 8, 0, 0] = true := by decide
  have hgre : Gre.format.accepts [0, 0, 8, 0] = true := by decide
  obtain ⟨fields, _⟩ := accessors_answer (t := Llc.table) (by simp [Table.all]) _ hsnap
  obtain ⟨_, options, _⟩ := accessors_answer (t := Tcp.table) (by simp [Table.all]) _ htcp
  obtain ⟨_, _, verdict, _⟩ := accessors_answer (t := Udp.table) (by simp [Table.all]) _ hudp
  obtain ⟨_, _, _, setters⟩ := accessors_answer (t := Gre.table) (by simp [Table.all]) _ hgre
  exact ⟨⟨hsnap, fields⟩, ⟨htcp, options rfl⟩, ⟨hudp, verdict rfl _ _⟩, hgre,
    setters _ (.present true false true)⟩

/-- Accepted headers on which setters fault: one of logical link control with a
control byte and nothing behind it, and the shortest frame of 802.11. -/
theorem accessors_answer_blind :
    (Llc.format.accepts [0x42, 0x42, 3] = true
      ∧ Llc.table.set? "oui" (.octets [0, 0, 0]) [0x42, 0x42, 3] = some (.error .outOfRange)
      ∧ Llc.table.set? "ethertype" (.number 0x800) [0x42, 0x42, 3] = some (.error .outOfRange))
    ∧ Wireless.format.accepts [0xc4, 0, 0, 0, 2, 0, 0, 0, 0, 1] = true
      ∧ Wireless.table.set? "addr2" (.octets [2, 0, 0, 0, 0, 2]) [0xc4, 0, 0, 0, 2, 0, 0, 0, 0, 1]
        = some (.error .outOfRange)
      ∧ Wireless.table.set? "sequence_control" (.number 1) [0xc4, 0, 0, 0, 2, 0, 0, 0, 0, 1]
        = some (.error .outOfRange) :=
  ⟨⟨by decide, rfl, rfl⟩, by decide, rfl, rfl⟩

end PacketLayers
