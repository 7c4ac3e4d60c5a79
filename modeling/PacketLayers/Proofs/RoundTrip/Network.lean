/-
  PacketLayers.Proofs.RoundTrip.Network
  ────────────────────────────────
  **NETWORK HEADERS ARE READ BACK.**

  The contents of these headers state less than the headers do: options, flags
  and fragment offset of IPv4, traffic class and flow label of IPv6 and the
  reserved bits of GRE are written as one default.  What is stated comes back:

    • a resolution message, if it is a request or a reply;
    • the payload length of an IP header, if sixteen bits can state it, which
      is so whenever it was read — for IPv4 behind a header of any length;
    • the optional words of GRE, at places that the flags decide.
-/
import PacketLayers.Proofs.Bits
import PacketLayers.Proofs.Emission.Network
import PacketLayers.Proofs.Legible.Network

namespace PacketLayers

open PacketLayers.Field

/-! ## §1. Address resolution. -/

namespace Arp.Message

/-- The fixed part and the four addresses behind it. -/
def runs (r : Message) : List Run :=
  [⟨208, 16, Hardware.ethernet.code.toNat⟩, ⟨192, 16, EtherType.ipv4.code.toNat⟩,
    ⟨184, 8, (6 : UInt8).toNat⟩, ⟨176, 8, (4 : UInt8).toNat⟩, ⟨160, 16, r.operation.code.toNat⟩,
    ⟨112, 48, r.sourceHardware.toNat⟩, ⟨80, 32, r.sourceProtocol.toNat⟩,
    ⟨32, 48, r.targetHardware.toNat⟩, ⟨0, 32, r.targetProtocol.toNat⟩]

theorem tile_runs (r : Message) : Run.Tile ethernetIpv4Length r.runs := by
  intro i inside
  simp only [ethernetIpv4Length] at inside
  simp only [runs, Run.Covers]
  omega

theorem written_emit (r : Message) {buffer : Bytes} (length : buffer.length = ethernetIpv4Length) :
    Written ethernetIpv4Length r.runs buffer (r.emit buffer) :=
  (((((((((Written.start length).set (isRun_word Hardware 0 2) (by decide) .ethernet).set
    (isRun_word EtherType 2 2) (by decide) .ipv4).set
    (isRun_word UInt8 4 1) (by decide) 6).set
    (isRun_word UInt8 5 1) (by decide) 4).set
    (isRun_word Operation 6 2) (by decide) r.operation).set
    (isRun_octets 8 6) (by decide) r.sourceHardware).set
    (isRun_octets 14 4) (by decide) r.sourceProtocol).set
    (isRun_octets 18 6) (by decide) r.targetHardware).set
    (isRun_octets 24 4) (by decide) r.targetProtocol

/-- Only requests and replies are read. -/
theorem operation_of_parse {h : Bytes} {r : Message} (parsed : parse h = .ok r) :
    r.operation = .request ∨ r.operation = .reply := by
  obtain ⟨_, _, hcontents⟩ := bind_eq_ok.1 parsed
  by_cases known : recognized h = true
  · rw [if_pos known] at hcontents
    obtain rfl := Except.ok.inj hcontents
    have hoperation := ((Bool.and_eq_true _ _).mp known).2
    simpa using hoperation
  · rw [if_neg known] at hcontents
    cases hcontents

theorem parse_runs {r : Message} (known : r.operation = .request ∨ r.operation = .reply) :
    parse (Run.bytes ethernetIpv4Length r.runs) = .ok r := by
  have hhardware : Layout.hardwareType.value (Run.bytes ethernetIpv4Length r.runs) = .ethernet :=
    (isRun_word Hardware 0 2).value_bytes (by decide) (keeps_assigned fits_word rfl) rfl
  have hprotocol : Layout.protocolType.value (Run.bytes ethernetIpv4Length r.runs) = .ipv4 :=
    (isRun_word EtherType 2 2).value_bytes (by decide) (keeps_assigned fits_word rfl) rfl
  have hhlen : Layout.hardwareLength.value (Run.bytes ethernetIpv4Length r.runs) = 6 :=
    (isRun_word UInt8 4 1).value_bytes (by decide) (keeps_byte _) rfl
  have hplen : Layout.protocolLength.value (Run.bytes ethernetIpv4Length r.runs) = 4 :=
    (isRun_word UInt8 5 1).value_bytes (by decide) (keeps_byte _) rfl
  have hoperation : Layout.operation.value (Run.bytes ethernetIpv4Length r.runs) = r.operation :=
    (isRun_word Operation 6 2).value_bytes (by decide)
      (keeps_assigned fits_word (by rcases known with known | known <;> rw [known] <;> rfl)) rfl
  have hsourceHardware :
      Layout.sourceEthernet.value (Run.bytes ethernetIpv4Length r.runs) = r.sourceHardware :=
    (isRun_octets 8 6).value_bytes (by decide) (keeps_octets _) rfl
  have hsourceProtocol :
      Layout.sourceIpv4.value (Run.bytes ethernetIpv4Length r.runs) = r.sourceProtocol :=
    (isRun_octets 14 4).value_bytes (by decide) (keeps_octets _) rfl
  have htargetHardware :
      Layout.targetEthernet.value (Run.bytes ethernetIpv4Length r.runs) = r.targetHardware :=
    (isRun_octets 18 6).value_bytes (by decide) (keeps_octets _) rfl
  have htargetProtocol :
      Layout.targetIpv4.value (Run.bytes ethernetIpv4Length r.runs) = r.targetProtocol :=
    (isRun_octets 24 4).value_bytes (by decide) (keeps_octets _) rfl
  -- the two lengths in the message decide how long it is
  have hlength : messageLengthValue (Run.bytes ethernetIpv4Length r.runs) = 28 := by
    rw [messageLengthValue, hhlen, hplen]
    rfl
  have haccepts : format.accepts (Run.bytes ethernetIpv4Length r.runs) = true := by
    rw [sized.accepts, hlength]
    exact ⟨by decide, Nat.le_refl 28⟩
  have hrecognized : recognized (Run.bytes ethernetIpv4Length r.runs) = true := by
    rw [recognized, hhardware, hprotocol, hhlen, hplen, hoperation]
    simpa using known
  unfold parse
  rw [HeaderFormat.accepts_iff.1 haccepts, ok_bind, if_pos hrecognized, hoperation,
    hsourceHardware, hsourceProtocol, htargetHardware, htargetProtocol]
  rfl

theorem roundTrips : RoundTrips parse (fun _ => ethernetIpv4Length) emit :=
  roundTrips_of_runs runs tile_runs (fun r _ => r.written_emit)
    fun _ _ parsed => parse_runs (operation_of_parse parsed)

end Arp.Message

/-! ## §2. IPv4. -/

namespace Ipv4.Header

theorem isRun_version : Layout.version.IsRun 4 4 Coded.ofNat Coded.toNat :=
  isRun_bits UInt8 0 (by decide)

theorem isRun_headerLength : Layout.headerLength.IsRun 0 4
    (fun n => (Coded.ofNat n : UInt8) * 4) (fun v => Coded.toNat (v / 4)) :=
  (isRun_bits UInt8 0 (by decide)).map _ _

theorem isRun_fragmentOffset : Layout.fragmentOffset.IsRun 0 13
    (fun n => (Coded.ofNat n : UInt16) <<< 3) (fun v => Coded.toNat (v >>> 3)) :=
  (isRun_bits UInt16 6 (by decide)).map _ _

/-- The total length that is written, as sixteen bits count it. -/
def total (r : Header) : UInt16 := 20 + UInt16.ofNat r.payloadLength

/-- Everything but the checksum.  All three flags are cleared, then "don't
fragment" is set. -/
def front (r : Header) : List Run :=
  [⟨156, 4, (4 : UInt8).toNat⟩, ⟨152, 4, ((20 : UInt8) / 4).toNat⟩, ⟨146, 6, (0 : UInt8).toNat⟩,
    ⟨144, 2, (0 : UInt8).toNat⟩, ⟨128, 16, r.total.toNat⟩, ⟨112, 16, (0 : UInt16).toNat⟩,
    ⟨109, 3, (0 : UInt8).toNat⟩, ⟨109, 1, false.toNat⟩, ⟨110, 1, true.toNat⟩,
    ⟨96, 13, ((0 : UInt16) >>> 3).toNat⟩, ⟨88, 8, r.hopLimit.toNat⟩, ⟨80, 8, r.protocol.code.toNat⟩,
    ⟨32, 32, r.source.toNat⟩, ⟨0, 32, r.destination.toNat⟩]

/-- The whole header, with some checksum. -/
def runs (r : Header) (checksum : UInt16) : List Run := r.front ++ [⟨64, 16, checksum.toNat⟩]

theorem tile_runs (r : Header) (checksum : UInt16) :
    Run.Tile minHeaderLength (r.runs checksum) := by
  intro i inside
  simp only [minHeaderLength] at inside
  simp only [runs, front, List.cons_append, List.nil_append, Run.Covers]
  omega

/-- The checksum that is written: that of the header without one. -/
def checksum (r : Header) : ChecksumMode → UInt16
  | .fill => Checksum.compute (Run.bytes minHeaderLength (r.runs 0))
  | .keep => 0

theorem written_front (r : Header) {buffer : Bytes} (length : buffer.length = minHeaderLength) :
    Written minHeaderLength r.front buffer (Layout.version.set 4 buffer
      >>= Layout.headerLength.set 20 >>= Layout.dscp.set 0 >>= Layout.ecn.set 0
      >>= Layout.totalLength.set (20 + UInt16.ofNat r.payloadLength) >>= Layout.ident.set 0
      >>= Layout.flags.set 0 >>= Layout.moreFragments.set false >>= Layout.dontFragment.set true
      >>= Layout.fragmentOffset.set 0 >>= Layout.hopLimit.set r.hopLimit
      >>= Layout.protocol.set r.protocol >>= Layout.source.set r.source
      >>= Layout.destination.set r.destination) :=
  ((((((((((((((Written.start length).set isRun_version (by decide) 4).set
    isRun_headerLength (by decide) 20).set
    (isRun_bits UInt8 1 (by decide)) (by decide) 0).set
    (isRun_bits UInt8 1 (by decide)) (by decide) 0).set
    (isRun_word UInt16 2 2) (by decide) (20 + UInt16.ofNat r.payloadLength)).set
    (isRun_word UInt16 4 2) (by decide) 0).set
    (isRun_bits UInt8 6 (by decide)) (by decide) 0).set
    (isRun_bits Bool 6 (by decide)) (by decide) false).set
    (isRun_bits Bool 6 (by decide)) (by decide) true).set
    isRun_fragmentOffset (by decide) 0).set
    (isRun_word UInt8 8 1) (by decide) r.hopLimit).set
    (isRun_word IpProtocol 9 1) (by decide) r.protocol).set
    (isRun_octets 12 4) (by decide) r.source).set
    (isRun_octets 16 4) (by decide) r.destination

/-- The header length, in words, is kept whatever the buffer was. -/
theorem headerLength_front (r : Header) (n : Nat) : Layout.headerLength.value
    (Bytes.ofNat minHeaderLength (Run.putAll r.front n)) = 20 :=
  isRun_headerLength.value_putAll (v := 20) (by decide) rfl rfl n

theorem headerLength_runs (r : Header) (checksum : UInt16) :
    Layout.headerLength.value (Run.bytes minHeaderLength (r.runs checksum)) = 20 :=
  isRun_headerLength.value_bytes (v := 20) (by decide) rfl rfl

theorem totalLength_runs (r : Header) (checksum : UInt16) :
    Layout.totalLength.value (Run.bytes minHeaderLength (r.runs checksum)) = r.total :=
  (isRun_word UInt16 2 2).value_bytes (by decide) (keeps_word _) rfl

/-- The checksum is computed from bytes that were all written. -/
theorem written_emit (r : Header) (mode : ChecksumMode) {buffer : Bytes}
    (length : buffer.length = minHeaderLength) :
    Written minHeaderLength (r.runs (r.checksum mode)) buffer (r.emit mode buffer) := by
  refine (r.written_front length).bind ?_
  generalize hn : Bytes.ofNat minHeaderLength (Run.putAll r.front (Bytes.toNat buffer)) = h
  have hfront : Written minHeaderLength r.front buffer (.ok h) := congrArg Except.ok hn.symm
  have hset (checksum : UInt16) :
      Written minHeaderLength (r.runs checksum) buffer (Layout.checksum.set checksum h) :=
    hfront.set (isRun_word UInt16 10 2) (by decide) checksum
  cases mode with
  | keep => exact hset 0
  | fill =>
    have hlength : h.length = 20 := by rw [← hn, Bytes.length_ofNat]; rfl
    have hcovers : Layout.checksum.stop ≤ h.length := by rw [hlength]; decide
    have hstated : Layout.headerLength.value h = 20 := hn ▸ r.headerLength_front _
    -- the checksum is computed over the header with a blank one
    have hblank : Layout.checksum.put 0 h = Run.bytes minHeaderLength (r.runs 0) :=
      Except.ok.inj ((set_eq_put lawful_checksum hcovers 0).symm.trans
        ((hset 0).eq_ok_of_tile (r.tile_runs 0)))
    have hwhole : (Run.bytes minHeaderLength (r.runs 0)).take 20
        = Run.bytes minHeaderLength (r.runs 0) :=
      List.take_of_length_le (Nat.le_of_eq (Bytes.length_ofNat _ _))
    have hfill : fillChecksum h = Layout.checksum.set (r.checksum .fill) h := by
      rw [fillChecksum_eq hcovers (by rw [hstated, hlength]; exact Nat.le_refl 20), fill, hblank,
        r.headerLength_runs 0, set_eq_put lawful_checksum hcovers]
      show Except.ok (Layout.checksum.put (Checksum.compute (List.take 20 _)) h) = _
      rw [hwhole]
      rfl
    show Written minHeaderLength _ buffer (fillChecksum h)
    rw [hfill]
    exact hset _

/-- **Contents of a header:** a payload of which the total length can be
stated, and a protocol that is called by its name, if it has one. -/
structure Canonical (r : Header) : Prop where
  payloadLength : 20 + r.payloadLength < 2 ^ 16
  protocol : Assigned.canonical r.protocol = r.protocol

theorem canonical_of_parse {h : Bytes} {r : Header} (parsed : parse h = .ok r) : r.Canonical := by
  obtain ⟨_, hcheck, hversion⟩ := bind_eq_ok.1 parsed
  obtain ⟨_, hleast, _⟩ := accepts_iff.1 (HeaderFormat.accepts_iff.2 hcheck)
  have htotal := (Layout.totalLength.value h).toNat_lt
  by_cases version : Layout.version.value h ≠ 4
  · rw [if_pos version] at hversion
    cases hversion
  · rw [if_neg version] at hversion
    by_cases short : (Layout.totalLength.value h).toNat < (Layout.headerLength.value h).toNat
    · rw [if_pos short] at hversion
      cases hversion
    · rw [if_neg short] at hversion
      obtain rfl := Except.ok.inj hversion
      refine ⟨?_, canonical_value h⟩
      show 20 + ((Layout.totalLength.value h).toNat - (Layout.headerLength.value h).toNat) < _
      omega

theorem accepts_runs (r : Header) (checksum : UInt16) :
    format.accepts (Run.bytes minHeaderLength (r.runs checksum)) = true := by
  rw [accepts_iff, r.headerLength_runs checksum]
  exact ⟨Nat.le_refl 20, Nat.le_refl 20, Nat.le_refl 20⟩

/-- The total length, as sixteen bits count it. -/
theorem toNat_total (r : Header) : r.total.toNat = (20 + r.payloadLength) % 2 ^ 16 := by
  rw [total, UInt16.toNat_add, UInt16.toNat_ofNat']
  show (20 + r.payloadLength % 2 ^ 16) % 2 ^ 16 = _
  omega

theorem parse_runs {r : Header} (checksum : UInt16) (canonical : r.Canonical) :
    parse (Run.bytes minHeaderLength (r.runs checksum)) = .ok r := by
  have hversion : Layout.version.value (Run.bytes minHeaderLength (r.runs checksum)) = 4 :=
    isRun_version.value_bytes (v := 4) (by decide) rfl rfl
  have hhop : Layout.hopLimit.value (Run.bytes minHeaderLength (r.runs checksum)) = r.hopLimit :=
    (isRun_word UInt8 8 1).value_bytes (by decide) (keeps_byte _) rfl
  have hprotocol :
      Layout.protocol.value (Run.bytes minHeaderLength (r.runs checksum)) = r.protocol :=
    (isRun_word IpProtocol 9 1).value_bytes (by decide)
      (keeps_assigned fits_byte canonical.protocol) rfl
  have hsource : Layout.source.value (Run.bytes minHeaderLength (r.runs checksum)) = r.source :=
    (isRun_octets 12 4).value_bytes (by decide) (keeps_octets _) rfl
  have hdestination :
      Layout.destination.value (Run.bytes minHeaderLength (r.runs checksum)) = r.destination :=
    (isRun_octets 16 4).value_bytes (by decide) (keeps_octets _) rfl
  have hsum : r.total.toNat = 20 + r.payloadLength := by
    rw [toNat_total, Nat.mod_eq_of_lt canonical.payloadLength]
  unfold parse
  rw [HeaderFormat.accepts_iff.1 (r.accepts_runs checksum), ok_bind, hversion, r.headerLength_runs,
    r.totalLength_runs, hsum, hhop, hprotocol, hsource, hdestination]
  show (if 20 + r.payloadLength < 20 then _ else Except.ok (Header.mk _ _ _
    (20 + r.payloadLength - 20) _)) = _
  rw [if_neg (by omega), Nat.add_sub_cancel_left]

theorem roundTrips (mode : ChecksumMode) :
    RoundTrips parse (fun _ => minHeaderLength) (fun r => r.emit mode) :=
  roundTrips_of_runs (fun r => r.runs (r.checksum mode)) (fun r => r.tile_runs _)
    (fun r _ => r.written_emit mode) fun _ _ parsed => parse_runs _ (canonical_of_parse parsed)

end Ipv4.Header

/-! ## §3. IPv6. -/

namespace Ipv6.Header

theorem isRun_version : Layout.version.IsRun 4 4 Coded.ofNat Coded.toNat :=
  isRun_bits UInt8 0 (by decide)

/-- Version, traffic class and flow label share four bytes. -/
def runs (r : Header) : List Run :=
  [⟨316, 4, (6 : UInt8).toNat⟩, ⟨308, 8, (0 : UInt8).toNat⟩, ⟨288, 20, (0 : UInt32).toNat⟩,
    ⟨272, 16, (UInt16.ofNat r.payloadLength).toNat⟩, ⟨256, 8, r.hopLimit.toNat⟩,
    ⟨264, 8, r.nextHeader.code.toNat⟩, ⟨128, 128, r.source.toNat⟩, ⟨0, 128, r.destination.toNat⟩]

theorem tile_runs (r : Header) : Run.Tile headerLength r.runs := by
  intro i inside
  simp only [headerLength] at inside
  simp only [runs, Run.Covers]
  omega

theorem written_emit (r : Header) {buffer : Bytes} (length : buffer.length = headerLength) :
    Written headerLength r.runs buffer (r.emit buffer) :=
  ((((((((Written.start length).set isRun_version (by decide) 6).set
    (isRun_bits UInt8 0 (by decide)) (by decide) 0).set
    (isRun_bits UInt32 1 (by decide)) (by decide) 0).set
    (isRun_word UInt16 4 2) (by decide) (UInt16.ofNat r.payloadLength)).set
    (isRun_word UInt8 7 1) (by decide) r.hopLimit).set
    (isRun_word IpProtocol 6 1) (by decide) r.nextHeader).set
    (isRun_octets 8 16) (by decide) r.source).set
    (isRun_octets 24 16) (by decide) r.destination

theorem length_runs (r : Header) :
    Layout.payloadLength.value (Run.bytes headerLength r.runs) = UInt16.ofNat r.payloadLength :=
  (isRun_word UInt16 4 2).value_bytes (by decide) (keeps_word _) rfl

/-- **Contents of a header:** a payload of which the length can be stated, and a
protocol that is called by its name, if it has one. -/
structure Canonical (r : Header) : Prop where
  payloadLength : r.payloadLength < 2 ^ 16
  nextHeader : Assigned.canonical r.nextHeader = r.nextHeader

theorem canonical_of_parse {h : Bytes} {r : Header} (parsed : parse h = .ok r) : r.Canonical := by
  obtain ⟨_, _, hversion⟩ := bind_eq_ok.1 parsed
  by_cases version : Layout.version.value h ≠ 6
  · rw [if_pos version] at hversion
    cases hversion
  · rw [if_neg version] at hversion
    obtain rfl := Except.ok.inj hversion
    exact ⟨(Layout.payloadLength.value h).toNat_lt, canonical_value h⟩

theorem parse_runs {r : Header} (canonical : r.Canonical) :
    parse (Run.bytes headerLength r.runs) = .ok r := by
  have hversion : Layout.version.value (Run.bytes headerLength r.runs) = 6 :=
    isRun_version.value_bytes (v := 6) (by decide) rfl rfl
  have hnext : Layout.nextHeader.value (Run.bytes headerLength r.runs) = r.nextHeader :=
    (isRun_word IpProtocol 6 1).value_bytes (by decide)
      (keeps_assigned fits_byte canonical.nextHeader) rfl
  have hhop : Layout.hopLimit.value (Run.bytes headerLength r.runs) = r.hopLimit :=
    (isRun_word UInt8 7 1).value_bytes (by decide) (keeps_byte _) rfl
  have hsource : Layout.source.value (Run.bytes headerLength r.runs) = r.source :=
    (isRun_octets 8 16).value_bytes (by decide) (keeps_octets _) rfl
  have hdestination : Layout.destination.value (Run.bytes headerLength r.runs) = r.destination :=
    (isRun_octets 24 16).value_bytes (by decide) (keeps_octets _) rfl
  have haccepts : format.accepts (Run.bytes headerLength r.runs) = true :=
    accepts_iff.2 (Nat.le_of_eq (Bytes.length_ofNat _ _).symm)
  unfold parse
  rw [HeaderFormat.accepts_iff.1 haccepts, ok_bind, hversion, r.length_runs, hnext, hhop, hsource,
    hdestination, UInt16.toNat_ofNat_of_lt' canonical.payloadLength]
  rfl

theorem roundTrips : RoundTrips parse (fun _ => headerLength) emit :=
  roundTrips_of_runs runs tile_runs (fun r _ => r.written_emit)
    fun _ _ parsed => parse_runs (canonical_of_parse parsed)

end Ipv6.Header

/-! ## §4. Generic routing encapsulation. -/

namespace Gre

theorem isRun_version : Layout.version.IsRun 0 8
    (fun n => (Coded.ofNat n : UInt8) &&& 0x07) (fun v => Coded.toNat (v &&& 0x07)) :=
  (isRun_word UInt8 1 1).map _ _

namespace Header

/-- The flags that are written. -/
def flags (r : Header) : UInt8 := flagsOf r.checksum r.key.isSome r.sequence.isSome

theorem isIn_flags (r : Header) (w : OptionalWord) : w.isIn r.flags = match w with
    | .checksum => r.checksum
    | .key => r.key.isSome
    | .sequence => r.sequence.isSome := by
  unfold flags
  cases w <;> cases r.checksum <;> cases r.key.isSome <;> cases r.sequence.isSome <;> rfl

/-- The run of an optional word. -/
def wordRun (r : Header) (w : OptionalWord) (value : UInt32) : Run :=
  ⟨8 * (r.size - (w.start r.flags + 4)), 32, value.toNat⟩

/-- Flags, version and protocol. -/
def front (r : Header) : List Run :=
  [⟨8 * (r.size - 1), 8, r.flags.toNat⟩, ⟨8 * (r.size - 2), 8, ((0 : UInt8) &&& 0x07).toNat⟩,
    ⟨8 * (r.size - 4), 16, r.protocol.code.toNat⟩]

theorem size_ge (r : Header) : 4 ≤ r.size := by
  unfold size minHeaderLength
  omega

/-- What the fixed part holds. -/
theorem lastAt?_front (r : Header) :
    Run.lastAt? (8 * (r.size - 1) + 0) 8 r.front = some r.flags.toNat
      ∧ Run.lastAt? (8 * (r.size - 2) + 0) 8 r.front = some ((0 : UInt8) &&& 0x07).toNat
      ∧ Run.lastAt? (8 * (r.size - 4) + 0) 16 r.front = some r.protocol.code.toNat := by
  have hsize := r.size_ge
  -- the fields behind the flags, and those behind the version, lie apart
  have hflags : ∀ s ∈ r.front.drop 1, s.Apart (8 * (r.size - 1) + 0) 8 := by
    refine List.forall_mem_cons.2 ⟨.inr ?_, List.forall_mem_singleton.2 (.inr ?_)⟩
    · show 8 * (r.size - 2) + 8 ≤ 8 * (r.size - 1) + 0
      omega
    · show 8 * (r.size - 4) + 16 ≤ 8 * (r.size - 1) + 0
      omega
  have hversion : ∀ s ∈ r.front.drop 2, s.Apart (8 * (r.size - 2) + 0) 8 := by
    refine List.forall_mem_singleton.2 (.inr ?_)
    show 8 * (r.size - 4) + 16 ≤ 8 * (r.size - 2) + 0
    omega
  have hfirst : Run.lastAt? (8 * (r.size - 1) + 0) 8 (r.front.take 1) = some r.flags.toNat :=
    Run.lastAt?_concat [] (show 0 < 8 by decide)
  have hsecond : Run.lastAt? (8 * (r.size - 2) + 0) 8 (r.front.take 2)
      = some ((0 : UInt8) &&& 0x07).toNat :=
    Run.lastAt?_concat (r.front.take 1) (show 0 < 8 by decide)
  refine ⟨?_, ?_, Run.lastAt?_concat (r.front.take 2) (show 0 < 16 by decide)⟩
  · rw [← List.take_append_drop 1 r.front]
    exact Run.lastAt?_append hflags hfirst
  · rw [← List.take_append_drop 2 r.front]
    exact Run.lastAt?_append hversion hsecond

/-- The runs of an optional word: none if it is not there. -/
def wordRuns (r : Header) (w : OptionalWord) (value? : Option UInt32) : List Run :=
  (value?.map (r.wordRun w)).toList

/-- The checksum word, which is zero if it is there. -/
def checksumWord? (r : Header) : Option UInt32 := if r.checksum then some 0 else none

/-- The fixed part and the optional words. -/
def runs (r : Header) : List Run :=
  r.front ++ r.wordRuns .checksum r.checksumWord? ++ r.wordRuns .key r.key
    ++ r.wordRuns .sequence r.sequence

/-- A word that is there lies behind the fixed part, and inside the header. -/
theorem wordRun_inside (r : Header) {w : OptionalWord} (present : w.isIn r.flags = true) :
    4 ≤ w.start r.flags ∧ w.start r.flags + 4 ≤ r.size := by
  have hlength : lengthOf r.flags = r.size := lengthOf_flagsOf _ _ _
  rw [← hlength]
  exact start_le w present

/-- Its run reaches from where it begins to where what follows it begins. -/
theorem covers_wordRuns (r : Header) {w : OptionalWord} {value? : Option UInt32}
    (there : w.isIn r.flags = value?.isSome) {i : Nat}
    (behind : 8 * (r.size - (w.start r.flags + roomFor (w.isIn r.flags))) ≤ i)
    (inside : i < 8 * (r.size - w.start r.flags)) : Run.Covers (r.wordRuns w value?) i := by
  cases value? with
  | none =>
    rw [there] at behind
    exact absurd inside (Nat.not_lt.2 behind)
  | some value =>
    have hroom := (r.wordRun_inside there).2
    rw [there] at behind
    refine .inl ⟨behind, ?_⟩
    show i < 8 * (r.size - (w.start r.flags + 4)) + 32
    omega

theorem covers_front (r : Header) {i : Nat} (fixed : 8 * (r.size - 4) ≤ i)
    (inside : i < 8 * r.size) : Run.Covers r.front i := by
  have hsize := r.size_ge
  simp only [front, Run.Covers]
  omega

theorem checksumWord?_there (r : Header) :
    OptionalWord.checksum.isIn r.flags = r.checksumWord?.isSome := by
  rw [isIn_flags, checksumWord?]
  cases r.checksum <;> rfl

/-- Each word begins where the one in front of it ends, and the last one ends
where the header does. -/
theorem tile_runs (r : Header) : Run.Tile r.size r.runs := by
  intro i inside
  have hsize : lengthOf r.flags = r.size := lengthOf_flagsOf _ _ _
  rw [runs, Run.covers_append, Run.covers_append, Run.covers_append]
  by_cases hsequence : i < 8 * (r.size - OptionalWord.sequence.start r.flags)
  · refine .inr (r.covers_wordRuns (r.isIn_flags .sequence) ?_ hsequence)
    show 8 * (r.size - lengthOf r.flags) ≤ i
    omega
  by_cases hkey : i < 8 * (r.size - OptionalWord.key.start r.flags)
  · exact .inl (.inr (r.covers_wordRuns (r.isIn_flags .key) (Nat.not_lt.1 hsequence) hkey))
  by_cases hchecksum : i < 8 * (r.size - OptionalWord.checksum.start r.flags)
  · exact .inl (.inl (.inr
      (r.covers_wordRuns r.checksumWord?_there (Nat.not_lt.1 hkey) hchecksum)))
  · exact .inl (.inl (.inl (r.covers_front (Nat.not_lt.1 hchecksum) inside)))

/-- Its run lies behind that of the fixed part. -/
theorem wordRun_apart (r : Header) {w : OptionalWord} (present : w.isIn r.flags = true)
    (value : UInt32) {low width : Nat} (fixed : 8 * (r.size - 4) ≤ low) :
    (r.wordRun w value).Apart low width := by
  obtain ⟨hfirst, hinside⟩ := r.wordRun_inside present
  refine .inr ?_
  show 8 * (r.size - (w.start r.flags + 4)) + 32 ≤ low
  omega

/-- The header up to some word: the runs that were written, the first byte
being the flags. -/
structure Reached (r : Header) (runs : List Run) (buffer : Bytes) (x : Access Bytes) : Prop where
  written : Written r.size runs buffer x
  flags : Run.lastAt? (8 * (r.size - 1) + 0) 8 runs = some r.flags.toNat

namespace Reached

variable {r : Header} {runs : List Run} {buffer : Bytes} {x : Access Bytes}

/-- A run behind the fixed part. -/
theorem word (reached : r.Reached runs buffer x) {w : OptionalWord} {value : UInt32}
    {g : Bytes → Access Bytes} (present : w.isIn r.flags = true)
    (written : Written r.size (runs ++ [r.wordRun w value]) buffer (x >>= g)) :
    r.Reached (runs ++ [r.wordRun w value]) buffer (x >>= g) :=
  ⟨written, Run.lastAt?_append (List.forall_mem_singleton.2
    (r.wordRun_apart present value (Nat.mul_le_mul_left 8 (by omega)))) reached.flags⟩

/-- Where the flags say that a word is there, it is written. -/
theorem setWord (reached : r.Reached runs buffer x) {w : OptionalWord}
    (present : w.isIn r.flags = true) (value : UInt32) :
    r.Reached (runs ++ [r.wordRun w value]) buffer (x >>= Gre.setWord w 4 value) := by
  refine reached.word present (reached.written.bind ?_)
  generalize hn : Bytes.ofNat r.size (Run.putAll runs (Bytes.toNat buffer)) = h
  have hh : Written r.size runs buffer (.ok h) := congrArg Except.ok hn.symm
  have hflags : Layout.flags.value h = r.flags :=
    hn ▸ (isRun_word UInt8 0 1).value_putAll (Nat.le_trans (by decide) r.size_ge) (keeps_byte _)
      reached.flags _
  have hcovers : Layout.flags.stop ≤ h.length := by
    rw [← hn, Bytes.length_ofNat]
    exact Nat.le_trans (by decide) r.size_ge
  have hword : Gre.setWord w 4 value h = (Field.word UInt32 (w.start r.flags) 4).set value h := by
    unfold Gre.setWord wordField?
    rw [get_eq_value hcovers, hflags, ok_bind, if_pos present]
    rfl
  rw [hword]
  exact hh.set (isRun_word UInt32 _ 4) (r.wordRun_inside present).2 value

/-- An optional word of the contents. -/
theorem word? (reached : r.Reached runs buffer x) {w : OptionalWord} {value? : Option UInt32} :
    w.isIn r.flags = value?.isSome →
    r.Reached (runs ++ r.wordRuns w value?) buffer (x >>= fun h =>
      match value? with
      | some value => Gre.setWord w 4 value h
      | none => pure h) := by
  intro there
  cases value? with
  | some value => exact reached.setWord there value
  | none =>
    show r.Reached (runs ++ []) buffer (x >>= pure)
    rwa [List.append_nil, bind_pure]

end Reached

theorem reached_front (r : Header) {buffer : Bytes} (length : buffer.length = r.size) :
    r.Reached r.front buffer (setPresent r.checksum r.key.isSome r.sequence.isSome buffer
      >>= Layout.version.set 0 >>= Layout.protocol.set r.protocol) where
  written :=
    (((Written.start length).set (isRun_word UInt8 0 1) (Nat.le_trans (by decide) r.size_ge)
      r.flags).set isRun_version (Nat.le_trans (by decide) r.size_ge) 0).set
      (isRun_word EtherType 2 2) r.size_ge r.protocol
  flags := r.lastAt?_front.1

/-- The checksum word is cleared, where it is there. -/
theorem reached_checksum (r : Header) {buffer : Bytes} (length : buffer.length = r.size) :
    r.Reached (r.front ++ r.wordRuns .checksum r.checksumWord?) buffer
      (setPresent r.checksum r.key.isSome r.sequence.isSome buffer
        >>= Layout.version.set 0 >>= Layout.protocol.set r.protocol
        >>= fun h => if r.checksum then Layout.checksumWord.set 0 h else pure h) := by
  have hfront := r.reached_front length
  have hthere := r.isIn_flags .checksum
  unfold checksumWord?
  cases hchecksum : r.checksum with
  | true =>
    rw [hchecksum] at hthere hfront
    exact hfront.word hthere
      (hfront.written.set (isRun_word UInt32 4 4) (r.wordRun_inside hthere).2 0)
  | false =>
    rw [hchecksum] at hfront
    show r.Reached (r.front ++ []) buffer (_ >>= pure)
    rwa [List.append_nil, bind_pure]

/-- The header is written from its first word to its last. -/
theorem emit_eq (r : Header) (buffer : Bytes) : r.emit buffer
    = (setPresent r.checksum r.key.isSome r.sequence.isSome buffer
        >>= Layout.version.set 0 >>= Layout.protocol.set r.protocol
        >>= fun h => if r.checksum then Layout.checksumWord.set 0 h else pure h)
      >>= (fun h => match r.key with | some key => setKey key h | none => pure h)
      >>= fun h => match r.sequence with
        | some sequence => setSequence sequence h
        | none => pure h := by
  obtain ⟨protocol, checksum, key, sequence⟩ := r
  cases checksum <;> cases key <;> cases sequence <;> (simp only [emit, bind_assoc]; rfl)

theorem written_emit (r : Header) {buffer : Bytes} (length : buffer.length = r.size) :
    Written r.size r.runs buffer (r.emit buffer) := by
  rw [emit_eq]
  exact (((r.reached_checksum length).word? (r.isIn_flags .key)).word?
    (r.isIn_flags .sequence)).written

/-- The runs of a word that is there lie behind the fixed part. -/
theorem wordRuns_apart (r : Header) {w : OptionalWord} {value? : Option UInt32}
    (there : w.isIn r.flags = value?.isSome) {low width : Nat} (fixed : 8 * (r.size - 4) ≤ low) :
    ∀ s ∈ r.wordRuns w value?, s.Apart low width := by
  cases value? with
  | none => exact fun _ absent => absurd absent List.not_mem_nil
  | some value => exact List.forall_mem_singleton.2 (r.wordRun_apart there value fixed)

/-- What the fixed part holds is left there. -/
theorem lastAt?_fixed (r : Header) {low width v : Nat} (fixed : 8 * (r.size - 4) ≤ low)
    (last : Run.lastAt? low width r.front = some v) : Run.lastAt? low width r.runs = some v := by
  have hchecksum := Run.lastAt?_append (r.wordRuns_apart r.checksumWord?_there fixed) last
  have hkey := Run.lastAt?_append (r.wordRuns_apart (r.isIn_flags .key) fixed) hchecksum
  exact Run.lastAt?_append (r.wordRuns_apart (r.isIn_flags .sequence) fixed) hkey

/-- The sequence number lies behind the key. -/
theorem lastAt?_key (r : Header) {key : UInt32} (there : r.key = some key) :
    Run.lastAt? (8 * (r.size - (OptionalWord.key.start r.flags + 4)) + 0) 32 r.runs
      = some key.toNat := by
  have hkey : OptionalWord.key.isIn r.flags = true := by rw [isIn_flags, there]; rfl
  have hstart : OptionalWord.sequence.start r.flags = OptionalWord.key.start r.flags + 4 := by
    show minHeaderLength + _ + roomFor (OptionalWord.key.isIn r.flags) = _
    rw [hkey]
    rfl
  have hlast : Run.lastAt? (8 * (r.size - (OptionalWord.key.start r.flags + 4)) + 0) 32
      (r.front ++ r.wordRuns .checksum r.checksumWord? ++ r.wordRuns .key r.key)
      = some key.toNat := by
    rw [there]
    exact @Run.lastAt?_concat _ (r.wordRun .key key) (show 0 < 32 by decide)
  have hsequence := r.isIn_flags .sequence
  -- only the sequence number is written later, and it lies behind
  refine Run.lastAt?_append ?_ hlast
  cases hvalue : r.sequence with
  | none => exact fun _ absent => absurd absent List.not_mem_nil
  | some sequence =>
    rw [hvalue] at hsequence
    have hinside := (r.wordRun_inside hsequence).2
    refine List.forall_mem_singleton.2 (.inr ?_)
    show 8 * (r.size - (OptionalWord.sequence.start r.flags + 4)) + 32 ≤ _
    omega

theorem lastAt?_sequence (r : Header) {sequence : UInt32} (there : r.sequence = some sequence) :
    Run.lastAt? (8 * (r.size - (OptionalWord.sequence.start r.flags + 4)) + 0) 32 r.runs
      = some sequence.toNat := by
  rw [runs, there]
  exact @Run.lastAt?_concat _ (r.wordRun .sequence sequence) (show 0 < 32 by decide)

section Read

variable (r : Header)

theorem flags_bytes : Layout.flags.value (Run.bytes r.size r.runs) = r.flags := by
  have hfixed : 8 * (r.size - 4) ≤ 8 * (r.size - 1) + 0 := by omega
  exact (isRun_word UInt8 0 1).value_bytes (Nat.le_trans (by decide) r.size_ge) (keeps_byte _)
    (r.lastAt?_fixed hfixed r.lastAt?_front.1)

theorem accepts_bytes : format.accepts (Run.bytes r.size r.runs) = true := by
  have hlength : lengthOf r.flags = r.size := lengthOf_flagsOf _ _ _
  have hbytes : (Run.bytes r.size r.runs).length = r.size := Bytes.length_ofNat _ _
  rw [accepts_iff, flags_bytes, hlength, hbytes]
  exact ⟨r.size_ge, Nat.le_refl _⟩

theorem getWord?_bytes {w : OptionalWord} {value? : Option UInt32}
    (there : w.isIn r.flags = value?.isSome)
    (holds : ∀ value, value? = some value →
      Run.lastAt? (8 * (r.size - (w.start r.flags + 4)) + 0) 32 r.runs = some value.toNat) :
    getWord? w 4 (Run.bytes r.size r.runs) = .ok value? := by
  have hfield : wordField? (α := UInt32) w 4 (Run.bytes r.size r.runs)
      = .ok (if w.isIn r.flags then some (.word UInt32 (w.start r.flags) 4) else none) := by
    unfold wordField?
    rw [get_eq_value (covers_flags r.accepts_bytes), flags_bytes]
    rfl
  rw [getWord?, hfield, ok_bind, there]
  -- the flags say that the word is there exactly if the header has one
  cases value? with
  | none => rfl
  | some value =>
    have hinside := (r.wordRun_inside there).2
    have hvalue : (Field.word UInt32 (w.start r.flags) 4).value (Run.bytes r.size r.runs) = value :=
      (isRun_word UInt32 _ 4).value_bytes hinside (keeps_double _) (holds value rfl)
    have hcovers : (Field.word UInt32 (w.start r.flags) 4).stop ≤ (Run.bytes r.size r.runs).length :=
      (Bytes.length_ofNat _ _).symm ▸ hinside
    show (do return some (← (Field.word UInt32 (w.start r.flags) 4).get _)) = _
    rw [get_eq_value hcovers, hvalue]
    rfl

theorem parse_runs (canonical : Assigned.canonical r.protocol = r.protocol) :
    parse (Run.bytes r.size r.runs) = .ok r := by
  have hfixed : 8 * (r.size - 4) ≤ 8 * (r.size - 2) + 0 := by omega
  have accepted := r.accepts_bytes
  have hversion : Layout.version.value (Run.bytes r.size r.runs) = 0 :=
    isRun_version.value_bytes (v := 0) (Nat.le_trans (by decide) r.size_ge) rfl
      (r.lastAt?_fixed hfixed r.lastAt?_front.2.1)
  have hprotocol : Layout.protocol.value (Run.bytes r.size r.runs) = r.protocol :=
    (isRun_word EtherType 2 2).value_bytes r.size_ge (keeps_assigned fits_word canonical)
      (r.lastAt?_fixed (Nat.le_refl _) r.lastAt?_front.2.2)
  have hchecksum : Layout.hasChecksum.value (Run.bytes r.size r.runs) = r.checksum := by
    rw [hasChecksum_eq (covers_flags accepted), flags_bytes, isIn_flags]
  have hcovers : Layout.hasChecksum.stop ≤ (Run.bytes r.size r.runs).length :=
    covers_flags accepted
  have hread : read (Run.bytes r.size r.runs) = .ok r := by
    unfold read key? sequence?
    rw [get_eq_value (covers_protocol accepted), get_eq_value hcovers,
      r.getWord?_bytes (r.isIn_flags .key) fun _ => r.lastAt?_key,
      r.getWord?_bytes (r.isIn_flags .sequence) fun _ => r.lastAt?_sequence, hprotocol, hchecksum]
    rfl
  unfold parse
  rw [HeaderFormat.accepts_iff.1 accepted, ok_bind, hversion]
  exact HeaderFormat.reading_eq_ok.2 ⟨accepted, hread⟩

end Read

theorem canonical_of_parse {h : Bytes} {r : Header} (parsed : parse h = .ok r) :
    Assigned.canonical r.protocol = r.protocol := by
  obtain ⟨_, hcheck, hversion⟩ := bind_eq_ok.1 parsed
  have accepted := HeaderFormat.accepts_iff.2 hcheck
  by_cases version : Layout.version.value h ≠ 0
  · rw [if_pos version] at hversion
    cases hversion
  · rw [if_neg version] at hversion
    obtain ⟨_, hread⟩ := HeaderFormat.reading_eq_ok.1 hversion
    obtain ⟨_, hprotocol, hrest⟩ := bind_eq_ok.1 hread
    rw [get_eq_value (covers_protocol accepted)] at hprotocol
    obtain ⟨_, _, hrest⟩ := bind_eq_ok.1 hrest
    obtain ⟨_, _, hrest⟩ := bind_eq_ok.1 hrest
    obtain ⟨_, _, hrest⟩ := bind_eq_ok.1 hrest
    obtain rfl := Except.ok.inj hrest
    obtain rfl := Except.ok.inj hprotocol
    exact canonical_value h

theorem roundTrips : RoundTrips parse size emit :=
  roundTrips_of_runs runs tile_runs (fun r _ => r.written_emit)
    fun _ r parsed => r.parse_runs (canonical_of_parse parsed)

end Header

end Gre

end PacketLayers
