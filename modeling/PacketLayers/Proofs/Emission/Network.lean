/-
  PacketLayers.Proofs.Emission.Network
  ────────────────────────────────
  **NETWORK LAYERS ARE WRITTEN WHOLE.**

  The first bytes of a message or header state its length: the address
  lengths of a resolution message, the header length of IPv4, the flags of
  GRE.  An IPv4 header is written as that of a first fragment.
-/
import PacketLayers.Proofs.Emission
import PacketLayers.Proofs.Legible.Network

namespace PacketLayers

/-! ## §1. Addresses behind a fixed start. -/

theorem Arp.emits (r : Arp.Message) :
    Arp.dissector.Emits (fun _ => True) (WireHeader.toBytes r) := by
  -- all lengths are constants; only the operation is not known
  have hstart : ∃ operation : Bytes, operation.length = 2
      ∧ Writes 28 ([0, 1, 8, 0, 6, 4] ++ operation)
        (Arp.Layout.hardwareType.set .ethernet (List.replicate 28 0)
          >>= Arp.Layout.protocolType.set .ipv4
          >>= Arp.Layout.hardwareLength.set 6
          >>= Arp.Layout.protocolLength.set 4
          >>= Arp.Layout.operation.set r.operation) :=
    ⟨Bytes.ofNat 2 (Coded.toNat r.operation), rfl, _, rfl, rfl, ⟨_, rfl⟩⟩
  obtain ⟨operation, hoperation, hstart⟩ := hstart
  have hfront : ([0, 1, 8, 0, 6, 4] ++ operation).length = 8 := by
    rw [List.length_append, hoperation]
    rfl
  have hwrites : Writes 28 ([0, 1, 8, 0, 6, 4] ++ operation) (WireHeader.toBytes r) :=
    (((hstart.set (Field.lawful_octets 8 6) (by decide) (Nat.le_of_eq hfront) r.sourceHardware).set
      (Field.lawful_octets 14 4) (by decide) (by rw [hfront]; decide) r.sourceProtocol).set
      (Field.lawful_octets 18 6) (by decide) (by rw [hfront]; decide) r.targetHardware).set
      (Field.lawful_octets 24 4) (by decide) (by rw [hfront]; decide) r.targetProtocol
  refine Dissector.emits_of_writes hwrites fun h hlength hstarts => ⟨?_, trivial⟩
  obtain ⟨rest, rfl⟩ := hstarts
  rw [Arp.whole_iff, Arp.messageLengthValue_append (Nat.le_of_eq hfront.symm), hlength]
  exact ⟨by decide, rfl⟩

theorem Ipv6.emits (r : Ipv6.Header) :
    Ipv6.dissector.Emits (fun _ => True) (WireHeader.toBytes r) := by
  have hstart : Writes 40 []
      (Ipv6.Layout.version.set 6 (List.replicate 40 0)
        >>= Ipv6.Layout.trafficClass.set 0
        >>= Ipv6.Layout.flowLabel.set 0
        >>= Ipv6.Layout.payloadLength.set (UInt16.ofNat r.payloadLength)
        >>= Ipv6.Layout.hopLimit.set r.hopLimit
        >>= Ipv6.Layout.nextHeader.set r.nextHeader) := ⟨_, rfl, rfl, List.nil_prefix⟩
  have hwrites : Writes 40 [] (WireHeader.toBytes r) :=
    (hstart.set (Field.lawful_octets 8 16) (by decide) (by decide) r.source).set
      (Field.lawful_octets 24 16) (by decide) (by decide) r.destination
  exact Dissector.emits_of_writes hwrites fun h hlength _ => ⟨Ipv6.whole_iff.2 hlength, trivial⟩

/-! ## §2. GRE. -/

namespace Gre

/-- The flags that are written ask for the length that is written. -/
theorem lengthOf_flagsOf (checksum key sequence : Bool) :
    lengthOf (flagsOf checksum key sequence)
      = minHeaderLength + roomFor checksum + roomFor key + roomFor sequence := by
  cases checksum <;> cases key <;> cases sequence <;> rfl

theorem start_le (w : OptionalWord) {flags : UInt8} (present : w.isIn flags = true) :
    4 ≤ w.start flags ∧ w.start flags + 4 ≤ lengthOf flags := by
  cases w <;> simp only [OptionalWord.start, lengthOf, present, minHeaderLength] <;>
    simp only [roomFor, if_true] <;> omega

/-- An optional word is written where there is room for it. -/
theorem writes_word {n : Nat} {flags : UInt8} {x : Access Bytes} (w : Writes n [flags] x)
    (length : lengthOf flags = n) {α : Type} [Coded α] (word : OptionalWord) (v : α) :
    Writes n [flags] (x >>= setWord word 4 v) := by
  refine w.bind fun h hlength hfront => ?_
  have hmin := minHeaderLength_le_lengthOf flags
  have hcovers : Layout.flags.stop ≤ h.length := by
    show 1 ≤ h.length
    omega
  have hflags : Layout.flags.value h = flags := by
    rw [Writes.value_eq (f := Layout.flags) hfront (Nat.le_refl 1)]
    exact UInt8.ofNat_toNat
  unfold setWord wordField?
  rw [Field.get_eq_value hcovers, hflags]
  -- a word that is not present is not written
  by_cases present : word.isIn flags = true
  · obtain ⟨hstart, hroom⟩ := start_le word present
    have hset : Writes n [flags] (.ok h >>= (Field.word α (word.start flags) 4).set v) :=
      Writes.set ⟨h, rfl, hlength, hfront⟩ (Field.lawful_word α _ 4)
        (by
          show word.start flags + 4 ≤ n
          omega)
        (by
          show 1 ≤ word.start flags
          omega) v
    simp only [present, if_true, ok_bind, pure_eq_ok]
    exact hset
  · simp only [present, ok_bind, pure_eq_ok]
    exact ⟨h, rfl, hlength, hfront⟩

theorem emits (r : Header) : dissector.Emits (fun _ => True) (WireHeader.toBytes r) := by
  have hlengthOf := lengthOf_flagsOf r.checksum r.key.isSome r.sequence.isSome
  have hmin := minHeaderLength_le_lengthOf (flagsOf r.checksum r.key.isSome r.sequence.isSome)
  generalize hflags : flagsOf r.checksum r.key.isSome r.sequence.isSome = flags at hlengthOf hmin
  have hsize : lengthOf flags = r.size := hlengthOf
  have hfixed : Writes r.size [flags] (setPresent r.checksum r.key.isSome r.sequence.isSome
      (List.replicate r.size 0) >>= Layout.version.set 0 >>= Layout.protocol.set r.protocol) := by
    have hfirst := (Writes.zeros r.size).first (by omega) flags
    rw [← hflags] at hfirst ⊢
    have hversion := hfirst.set (f := Layout.version) ((Field.lawful_word UInt8 1 1).map _ _)
      (by show 2 ≤ _; omega) (Nat.le_refl 1) 0
    exact hversion.set lawful_protocol (by show 4 ≤ _; omega) (Nat.le_succ 1) r.protocol
  -- the optional words, from the last to the first
  have hsequence : ∀ h, h.length = r.size → [flags] <+: h → Writes r.size [flags]
      (r.sequence.elim (.ok h) (setSequence · h)) := by
    intro h hlength hfront
    cases r.sequence with
    | none => exact ⟨h, rfl, hlength, hfront⟩
    | some sequence => exact writes_word ⟨h, rfl, hlength, hfront⟩ hsize .sequence sequence
  have hkey : ∀ h, h.length = r.size → [flags] <+: h → Writes r.size [flags]
      (r.key.elim (.ok h) (setKey · h) >>= fun h => r.sequence.elim (.ok h) (setSequence · h)) := by
    intro h hlength hfront
    refine Writes.bind ?_ hsequence
    cases r.key with
    | none => exact ⟨h, rfl, hlength, hfront⟩
    | some key => exact writes_word ⟨h, rfl, hlength, hfront⟩ hsize .key key
  have hwrites : Writes r.size [flags] (WireHeader.toBytes r) := by
    refine hfixed.bind fun h hlength hfront => ?_
    have hrest := hkey
    cases hr : r.checksum with
    | false =>
      cases hr' : r.key <;> cases hr'' : r.sequence <;> rw [hr', hr''] at hrest <;>
        exact hrest h hlength hfront
    | true =>
      have hroom : 8 ≤ r.size := by
        rw [← hsize, hlengthOf, hr]
        simp only [roomFor, minHeaderLength, if_true]
        omega
      have hset : Writes r.size [flags] (.ok h >>= Layout.checksumWord.set 0) :=
        Writes.set ⟨h, rfl, hlength, hfront⟩ (Field.lawful_word UInt32 4 4) hroom
          (by show 1 ≤ 4; omega) 0
      cases hr' : r.key <;> cases hr'' : r.sequence <;> rw [hr', hr''] at hrest <;>
        exact hset.bind hrest
  refine Dissector.emits_of_writes hwrites fun h hlength hfront => ⟨?_, trivial⟩
  have hvalue : Layout.flags.value h = flags := by
    rw [Writes.value_eq (f := Layout.flags) hfront (Nat.le_refl 1)]
    exact UInt8.ofNat_toNat
  rw [whole_iff, hvalue, hsize, hlength]
  exact ⟨by omega, rfl⟩

end Gre

/-! ## §3. IPv4. -/

namespace Ipv4

/-- Flags and offset are written one after the other into the same bytes. -/
theorem set_fragmentation {front : Bytes} (first : front.length = 6) (back : Bytes) :
    Layout.flags.set 0 (front ++ [0, 0] ++ back)
      >>= Layout.moreFragments.set false
      >>= Layout.dontFragment.set true
      >>= Layout.fragmentOffset.set 0 = .ok (front ++ [0x40, 0] ++ back) := by
  have hflags : Layout.flags.Lawful := Field.lawful_bits UInt8 6 (by decide)
  have hmore : Layout.moreFragments.Lawful := Field.lawful_bits Bool 6 (by decide)
  have hdont : Layout.dontFragment.Lawful := Field.lawful_bits Bool 6 (by decide)
  have hoffset : Layout.fragmentOffset.Lawful :=
    (Field.lawful_bits UInt16 6 (by decide)).map _ _
  rw [Field.set_between hflags first rfl, ok_bind,
    show Layout.flags.encode 0 [0, 0] = [0, 0] from rfl,
    Field.set_between hmore first rfl, ok_bind,
    show Layout.moreFragments.encode false [0, 0] = [0, 0] from rfl,
    Field.set_between hdont first rfl, ok_bind,
    show Layout.dontFragment.encode true [0, 0] = [0x40, 0] from rfl,
    Field.set_between hoffset first rfl]
  rfl

/-- The first eight bytes say that the header has no options and is that of a
first fragment. -/
theorem fair_of_front {h : Bytes} (length : h.length = 20) {total : Bytes}
    (htotal : total.length = 2) (starts : [0x45, 0] ++ total ++ [0, 0] ++ [0x40, 0] <+: h) :
    dissector.Whole h ∧ First h := by
  obtain ⟨rest, rfl⟩ := starts
  match total, htotal with
  | [hi, lo], _ =>
    have hvalue : (Layout.headerLength.value
        ([0x45, 0] ++ [hi, lo] ++ [0, 0] ++ [0x40, 0] ++ rest)).toNat = 20 :=
      toNat_headerLength_cons 0x45 _
    have hoffset : Layout.fragmentOffset.decode [0x40, 0] = 0 := by decide
    exact ⟨whole_iff.2 ⟨Nat.le_of_eq length.symm, hvalue.trans length.symm⟩, hoffset⟩

theorem emits (r : Header) : dissector.Emits First (WireHeader.toBytes r) := by
  have hversion : Layout.version.set 4 (List.replicate 20 0) >>= Layout.headerLength.set 20
      >>= Layout.dscp.set 0 >>= Layout.ecn.set 0 = .ok (0x45 :: List.replicate 19 0) := rfl
  have hwords : ∀ n, Layout.totalLength.set n (0x45 :: List.replicate 19 0) >>= Layout.ident.set 0
      = .ok ([0x45, 0] ++ Bytes.ofNat 2 n.toNat ++ [0, 0] ++ [0, 0] ++ List.replicate 12 0) :=
    fun _ => rfl
  -- the part before the checksum is known but for the two bytes of the length
  obtain ⟨total, htotal, hstart⟩ : ∃ total : Bytes, total.length = 2
      ∧ Writes 20 ([0x45, 0] ++ total ++ [0, 0] ++ [0x40, 0])
        (Layout.version.set 4 (List.replicate 20 0)
          >>= Layout.headerLength.set 20
          >>= Layout.dscp.set 0
          >>= Layout.ecn.set 0
          >>= Layout.totalLength.set (20 + UInt16.ofNat r.payloadLength)
          >>= Layout.ident.set 0
          >>= Layout.flags.set 0
          >>= Layout.moreFragments.set false
          >>= Layout.dontFragment.set true
          >>= Layout.fragmentOffset.set 0) := by
    refine ⟨Bytes.ofNat 2 (20 + UInt16.ofNat r.payloadLength).toNat, rfl, ?_⟩
    rw [hversion, ok_bind, hwords, ok_bind, set_fragmentation rfl]
    exact ⟨_, rfl, rfl, ⟨_, rfl⟩⟩
  have hfront : ([0x45, 0] ++ total ++ [0, 0] ++ [0x40, 0]).length = 8 := by
    simp only [List.length_append, htotal, List.length_cons, List.length_nil]
  have hfields := (((hstart.set (Field.lawful_word UInt8 8 1) (by decide) (Nat.le_of_eq hfront)
    r.hopLimit).set lawful_protocol (by decide) (by rw [hfront]; decide) r.protocol).set
    (Field.lawful_octets 12 4) (by decide) (by rw [hfront]; decide) r.source).set
    (Field.lawful_octets 16 4) (by decide) (by rw [hfront]; decide) r.destination
  have hwrites : Writes 20 ([0x45, 0] ++ total ++ [0, 0] ++ [0x40, 0]) (WireHeader.toBytes r) := by
    -- the checksum is behind what decides the form of the header
    refine hfields.bind (f := fillChecksum) fun h hlength hstarts => ?_
    have hcovers : Layout.checksum.stop ≤ h.length := by rw [hlength]; decide
    have hroom : (Layout.headerLength.value h).toNat ≤ h.length :=
      Nat.le_of_eq (whole_iff.1 (fair_of_front hlength htotal hstarts).1).2
    refine ⟨_, fillChecksum_eq hcovers hroom, ?_, ?_⟩
    · rw [Field.length_fill lawful_checksum hcovers, hlength]
    · rw [List.prefix_iff_eq_take] at hstarts ⊢
      rw [Field.fill, Field.take_put hcovers _ (by rw [hfront]; decide)]
      exact hstarts
  exact Dissector.emits_of_writes hwrites fun h hlength hstarts =>
    fair_of_front hlength htotal hstarts

end Ipv4

end PacketLayers
