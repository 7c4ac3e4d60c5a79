/-
  PacketLayers.Proofs.RoundTrip.Link
  ────────────────────────────────
  **LINK HEADERS ARE READ BACK.**

  An Ethernet header is written from its middle, and three fields of a VLAN tag
  share two bytes; both are given as the runs of bits that are written.  A
  priority and an identifier that were read fit the bits they came from.
-/
import PacketLayers.Proofs.Bits
import PacketLayers.Proofs.Lawful.Link

namespace PacketLayers

open PacketLayers.Field

/-! ## §1. Ethernet. -/

namespace Ethernet.Header

/-- Source, destination and type, in the order they are written. -/
def runs (r : Header) : List Run :=
  [⟨16, 48, r.source.toNat⟩, ⟨64, 48, r.destination.toNat⟩, ⟨0, 16, r.etherType.code.toNat⟩]

theorem tile_runs (r : Header) : Run.Tile headerLength r.runs := by
  intro i inside
  simp only [headerLength] at inside
  simp only [runs, Run.Covers]
  omega

theorem written_emit (r : Header) {buffer : Bytes} (length : buffer.length = headerLength) :
    Written headerLength r.runs buffer (r.emit buffer) :=
  (((Written.start length).set (isRun_octets 6 6) (by decide) r.source).set (isRun_octets 0 6)
    (by decide) r.destination).set (isRun_word EtherType 12 2) (by decide) r.etherType

theorem canonical_of_parse {h : Bytes} {r : Header} (parsed : parse h = .ok r) :
    Assigned.canonical r.etherType = r.etherType := by
  obtain ⟨_, _, hcontents⟩ := bind_eq_ok.1 parsed
  obtain rfl := Except.ok.inj hcontents
  exact canonical_value h

theorem parse_runs {r : Header} (canonical : Assigned.canonical r.etherType = r.etherType) :
    parse (Run.bytes headerLength r.runs) = .ok r := by
  have hsource : Layout.source.value (Run.bytes headerLength r.runs) = r.source :=
    (isRun_octets 6 6).value_bytes (by decide) (keeps_octets _) rfl
  have hdestination : Layout.destination.value (Run.bytes headerLength r.runs) = r.destination :=
    (isRun_octets 0 6).value_bytes (by decide) (keeps_octets _) rfl
  have htype : Layout.etherType.value (Run.bytes headerLength r.runs) = r.etherType :=
    (isRun_word EtherType 12 2).value_bytes (by decide) (keeps_assigned fits_word canonical) rfl
  show Except.ok (Header.mk (Layout.source.value _) (Layout.destination.value _)
    (Layout.etherType.value _)) = _
  rw [hsource, hdestination, htype]

theorem roundTrips : RoundTrips parse (fun _ => headerLength) emit :=
  roundTrips_of_runs runs tile_runs (fun r _ => r.written_emit)
    fun _ _ parsed => parse_runs (canonical_of_parse parsed)

end Ethernet.Header

/-! ## §2. VLAN tags. -/

namespace Vlan.Header

/-- Priority, the flag and the identifier share two bytes in front of the
type. -/
def runs (r : Header) : List Run :=
  [⟨29, 3, r.priority.toNat⟩, ⟨28, 1, r.dropEligible.toNat⟩, ⟨16, 12, r.identifier.toNat⟩,
    ⟨0, 16, r.etherType.code.toNat⟩]

theorem isRun_priority : Layout.priority.IsRun 5 3 Coded.ofNat Coded.toNat :=
  isRun_bits UInt8 0 (by decide)

theorem isRun_dropEligible : Layout.dropEligible.IsRun 4 1 Coded.ofNat Coded.toNat :=
  isRun_bits Bool 0 (by decide)

theorem isRun_identifier : Layout.identifier.IsRun 0 12 Coded.ofNat Coded.toNat :=
  isRun_bits UInt16 0 (by decide)

theorem tile_runs (r : Header) : Run.Tile headerLength r.runs := by
  intro i inside
  simp only [headerLength] at inside
  simp only [runs, Run.Covers]
  omega

theorem written_emit (r : Header) {buffer : Bytes} (length : buffer.length = headerLength) :
    Written headerLength r.runs buffer (r.emit buffer) :=
  ((((Written.start length).set isRun_priority (by decide) r.priority).set isRun_dropEligible
    (by decide) r.dropEligible).set isRun_identifier (by decide) r.identifier).set
    (isRun_word EtherType 2 2) (by decide) r.etherType

/-- **Contents of a tag:** three bits of priority and twelve of identifier, and a
type that is called by its name, if it has one. -/
structure Canonical (r : Header) : Prop where
  priority : Keeps 3 Coded.ofNat Coded.toNat r.priority
  identifier : Keeps 12 Coded.ofNat Coded.toNat r.identifier
  etherType : Assigned.canonical r.etherType = r.etherType

theorem canonical_of_parse {h : Bytes} {r : Header} (parsed : parse h = .ok r) : r.Canonical := by
  obtain ⟨_, hcheck, hcontents⟩ := bind_eq_ok.1 parsed
  obtain rfl := Except.ok.inj hcontents
  have long : 4 ≤ h.length := by
    by_contra short
    cases (if_pos (Nat.lt_of_not_le short)).symm.trans hcheck
  exact ⟨isRun_priority.keeps_value (Nat.le_trans (by decide) long) fun n small =>
      UInt8.toNat_ofNat_of_lt' (Nat.lt_of_lt_of_le small (by decide)),
    isRun_identifier.keeps_value (Nat.le_trans (by decide) long) fun n small =>
      UInt16.toNat_ofNat_of_lt' (Nat.lt_of_lt_of_le small (by decide)), canonical_value h⟩

theorem parse_runs {r : Header} (canonical : r.Canonical) :
    parse (Run.bytes headerLength r.runs) = .ok r := by
  have hpriority : Layout.priority.value (Run.bytes headerLength r.runs) = r.priority :=
    isRun_priority.value_bytes (by decide) canonical.priority rfl
  have hdrop : Layout.dropEligible.value (Run.bytes headerLength r.runs) = r.dropEligible :=
    isRun_dropEligible.value_bytes (by decide) (by cases r.dropEligible <;> rfl) rfl
  have hidentifier : Layout.identifier.value (Run.bytes headerLength r.runs) = r.identifier :=
    isRun_identifier.value_bytes (by decide) canonical.identifier rfl
  have htype : Layout.etherType.value (Run.bytes headerLength r.runs) = r.etherType :=
    (isRun_word EtherType 2 2).value_bytes (by decide)
      (keeps_assigned fits_word canonical.etherType) rfl
  show Except.ok (Header.mk (Layout.priority.value _) (Layout.dropEligible.value _)
    (Layout.identifier.value _) (Layout.etherType.value _)) = _
  rw [hpriority, hdrop, hidentifier, htype]

theorem roundTrips : RoundTrips parse (fun _ => headerLength) emit :=
  roundTrips_of_runs runs tile_runs (fun r _ => r.written_emit)
    fun _ _ parsed => parse_runs (canonical_of_parse parsed)

end Vlan.Header

/-! ## §3. Loopback. -/

namespace Loopback.Header

/-- Four bytes are replaced as a whole. -/
theorem emit_eq (r : Header) {buffer : Bytes} (length : buffer.length = headerLength) :
    r.emit buffer = .ok r.toBytes := by
  have hfits : 0 + r.toBytes.length ≤ (View.whole buffer).span.length := Nat.le_of_eq length.symm
  have hbehind : buffer.drop (0 + 0 + r.toBytes.length) = [] :=
    List.drop_of_length_le (Nat.le_of_eq length)
  unfold emit View.writeLittle View.write
  rw [← toBytes, dif_pos hfits]
  show Except.ok (buffer.take (0 + 0) ++ r.toBytes ++ buffer.drop (0 + 0 + r.toBytes.length)) = _
  rw [hbehind, List.append_nil]
  rfl

theorem parse_toBytes (r : Header) : parse r.toBytes = .ok r := by
  have hfamily : Loopback.family.value r.toBytes = r.family := by
    show UInt32.ofNat (Bytes.toNat (Bytes.ofNat 4 r.family.toNat).reverse.reverse) = _
    have hlt : r.family.toNat < 256 ^ 4 := r.family.toNat_lt
    rw [List.reverse_reverse, Bytes.toNat_ofNat, Nat.mod_eq_of_lt hlt]
    exact UInt32.ofNat_toNat
  rw [parse_eq, if_pos (show 4 ≤ r.toBytes.length from Nat.le_refl 4), hfamily]

theorem roundTrips : RoundTrips parse (fun _ => headerLength) emit := fun _ r _ =>
  ⟨r.toBytes, rfl, fun _ => r.emit_eq, r.parse_toBytes⟩

end Loopback.Header

end PacketLayers
