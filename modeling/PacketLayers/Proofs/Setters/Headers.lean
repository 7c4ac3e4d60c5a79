/-
  PacketLayers.Proofs.Setters.Headers
  ────────────────────────────────
  **THE SETTERS OF FIVE HEADERS.**

  For each protocol a table says where its fields lie and what they keep of a
  value.  Bits are counted as the diagrams of the protocols count them:

      ipv4   version:4 length:4 dscp:6 ecn:2 … -:1 don't:1 more:1 offset:13 …
      ipv6   version:4 class:8 label:20 …
      tcp    … length:4 -:3 flags:9 …
      vlan   priority:3 eligible:1 identifier:12 type:16

  Header lengths are counted in words of four bytes and fragment offsets in
  units of eight, so that much of a value is rounded down.  A number that has a
  name is read as the name, however it was written.  The options of a header
  follow its length, and the addresses of a resolution message the two lengths
  that it states.
-/
import PacketLayers.Proofs.RoundTrip.Network
import PacketLayers.Proofs.RoundTrip.Tcp
import PacketLayers.Proofs.Setters

namespace PacketLayers

open PacketLayers.Field FixedField

/-! ## §1. What is left of a value. -/

theorem byte_mod (v : UInt8) (m : Nat) (small : m < 256) :
    UInt8.ofNat (v.toNat % m) = v % UInt8.ofNat m := by
  refine UInt8.toNat_inj.1 ?_
  have hlt := Nat.lt_of_le_of_lt (Nat.mod_le v.toNat m) v.toNat_lt
  rw [UInt8.toNat_mod, UInt8.toNat_ofNat_of_lt' hlt, UInt8.toNat_ofNat_of_lt' small]

theorem word_mod (v : UInt16) (m : Nat) (small : m < 65536) :
    UInt16.ofNat (v.toNat % m) = v % UInt16.ofNat m := by
  refine UInt16.toNat_inj.1 ?_
  have hlt := Nat.lt_of_le_of_lt (Nat.mod_le v.toNat m) v.toNat_lt
  rw [UInt16.toNat_mod, UInt16.toNat_ofNat_of_lt' hlt, UInt16.toNat_ofNat_of_lt' small]

theorem double_mod (v : UInt32) (m : Nat) (small : m < 4294967296) :
    UInt32.ofNat (v.toNat % m) = v % UInt32.ofNat m := by
  refine UInt32.toNat_inj.1 ?_
  have hlt := Nat.lt_of_le_of_lt (Nat.mod_le v.toNat m) v.toNat_lt
  rw [UInt32.toNat_mod, UInt32.toNat_ofNat_of_lt' hlt, UInt32.toNat_ofNat_of_lt' small]

theorem bit_kept (v : Bool) : (Coded.ofNat (Coded.toNat v % 2 ^ 1) : Bool) = v := by
  cases v <;> rfl

/-- Four bits that count words of four bytes. -/
theorem words_kept (v : UInt8) :
    (Coded.ofNat (Coded.toNat (v / 4) % 2 ^ 4) : UInt8) * 4 = v / 4 % 16 * 4 :=
  congrArg (· * 4) (byte_mod (v / 4) 16 (by decide))

/-! ## §2. Options. -/

namespace MovablePart

/-- The options of a header, behind its fixed part and up to the length that it
states. -/
def options (stated : Field UInt8) (least : Nat) (get : Bytes → Access Bytes)
    (set : Bytes → Bytes → Access Bytes) : MovablePart :=
  ⟨"options", get, set, fun h => (least, (stated.value h).toNat - least), ["header_len"]⟩

theorem options_lies {p : HeaderParts} {stated : Field UInt8} {get : Bytes → Access Bytes}
    {set : Bytes → Bytes → Access Bytes}
    (bounds : ∀ h, p.table.format.accepts h = true →
      p.least ≤ (stated.value h).toNat ∧ (stated.value h).toNat ≤ h.length)
    (moves : ∀ h h', p.Agree ["header_len"] h h' → stated.value h' = stated.value h)
    (reads : ∀ h : Bytes, p.least ≤ (stated.value h).toNat → (stated.value h).toNat ≤ h.length →
      get h = .ok ((h.drop p.least).take ((stated.value h).toNat - p.least)))
    (writes : ∀ h new : Bytes, p.least ≤ (stated.value h).toNat →
      (stated.value h).toNat ≤ h.length → new.length = (stated.value h).toNat - p.least →
      set new h = .ok (h.take p.least ++ new
        ++ h.drop (p.least + ((stated.value h).toNat - p.least)))) :
    (options stated p.least get set).Lies p where
  inside h accepted := by
    obtain ⟨least, room⟩ := bounds h accepted
    show p.least ≤ p.least ∧ p.least + ((stated.value h).toNat - p.least) ≤ h.length
    omega
  reads h h' accepted length agree := by
    obtain ⟨least, room⟩ := bounds h accepted
    have hstated := moves h h' agree
    show get h' = .ok ((h'.drop p.least).take ((stated.value h).toNat - p.least))
    rw [reads h' (hstated ▸ least) (length ▸ hstated ▸ room), hstated]
  writes h new accepted size := by
    obtain ⟨least, room⟩ := bounds h accepted
    exact writes h new least room size

end MovablePart

/-! ## §3. IPv4. -/

namespace Ipv4

/-- Where the fields of a header lie. -/
def parts : HeaderParts where
  table := table
  least := minHeaderLength
  fixed :=
    [⟨"version", Layout.version, 0, 4, 0, (· % 16)⟩,
      ⟨"header_len", Layout.headerLength, 4, 4, 0, (· / 4 % 16 * 4)⟩,
      ⟨"dscp", Layout.dscp, 8, 6, 0, (· % 64)⟩,
      ⟨"ecn", Layout.ecn, 14, 2, 0, (· % 4)⟩,
      ⟨"total_len", Layout.totalLength, 16, 16, 0, id⟩,
      ⟨"ident", Layout.ident, 32, 16, 0, id⟩,
      ⟨"dont_frag", Layout.dontFragment, 49, 1, 0, id⟩,
      ⟨"more_frags", Layout.moreFragments, 50, 1, 0, id⟩,
      ⟨"frag_offset", Layout.fragmentOffset, 51, 13, 0, (· / 8 * 8)⟩,
      ⟨"hop_limit", Layout.hopLimit, 64, 8, 0, id⟩,
      ⟨"protocol", Layout.protocol, 72, 8, 0, Assigned.canonical⟩,
      ⟨"checksum", Layout.checksum, 80, 16, 0, id⟩,
      ⟨"src_addr", Layout.source, 96, 32, 0, id⟩,
      ⟨"dst_addr", Layout.destination, 128, 32, 0, id⟩]
  movable := [.options Layout.headerLength minHeaderLength getOptions setOptions]

/-- A fragment offset loses what is no unit of eight. -/
theorem offset_kept (v : UInt16) :
    (Coded.ofNat (Coded.toNat (v >>> 3) % 2 ^ 13) : UInt16) <<< 3 = v / 8 * 8 := by
  have hlt := v.toNat_lt
  have hunits : (v >>> 3).toNat = v.toNat / 8 := by
    rw [UInt16.toNat_shiftRight]
    exact Nat.shiftRight_eq_div_pow v.toNat 3
  have hsmall : (v >>> 3).toNat % 2 ^ 13 = (v >>> 3).toNat := Nat.mod_eq_of_lt (by omega)
  show UInt16.ofNat ((v >>> 3).toNat % 2 ^ 13) <<< 3 = _
  rw [hsmall, UInt16.ofNat_toNat]
  refine UInt16.toNat_inj.1 ?_
  rw [UInt16.toNat_shiftLeft, hunits, UInt16.toNat_mul, UInt16.toNat_div]
  exact congrArg (· % 2 ^ 16) (Nat.shiftLeft_eq (v.toNat / 8) 3)

theorem options_lies :
    (MovablePart.options Layout.headerLength minHeaderLength getOptions setOptions).Lies parts :=
  MovablePart.options_lies (fun _ accepted => (accepts_iff.1 accepted).2)
    (fun _ _ agree => agree ⟨"header_len", Layout.headerLength, 4, 4, 0, (· / 4 % 16 * 4)⟩
      (by simp [parts]) (List.mem_singleton_self _))
    (fun _ least room => getOptions_eq least room)
    (fun _ _ least room size => setOptions_eq least room size)

theorem parts_lies : parts.Lies where
  long h accepted := (accepts_iff.1 accepted).1
  fixed := by
    simp only [parts, List.forall_mem_cons]
    exact ⟨lies_of_run (isRun_bits UInt8 0 (by decide)) rfl (by decide)
        fun v => byte_mod v 16 (by decide),
      lies_of_run Header.isRun_headerLength rfl (by decide) words_kept,
      lies_of_run (isRun_bits UInt8 1 (by decide)) rfl (by decide)
        fun v => byte_mod v 64 (by decide),
      lies_of_run (isRun_bits UInt8 1 (by decide)) rfl (by decide)
        fun v => byte_mod v 4 (by decide),
      lies_word 2 2 fits_word (by decide), lies_word 4 2 fits_word (by decide),
      lies_of_run (isRun_bits Bool 6 (by decide)) rfl (by decide) bit_kept,
      lies_of_run (isRun_bits Bool 6 (by decide)) rfl (by decide) bit_kept,
      lies_of_run Header.isRun_fragmentOffset rfl (by decide) offset_kept,
      lies_word 8 1 fits_byte (by decide), lies_assigned 9 1 fits_byte (by decide),
      lies_word 10 2 fits_word (by decide), lies_octets 12 4 (by decide),
      lies_octets 16 4 (by decide), List.forall_mem_nil _⟩
  apart := by decide
  movable m listed := by
    obtain rfl := List.mem_singleton.1 listed
    exact options_lies
  movable_apart m listed n listed' other := by
    obtain rfl := List.mem_singleton.1 listed
    obtain rfl := List.mem_singleton.1 listed'
    exact absurd rfl other

theorem parts_complete : parts.Complete :=
  HeaderParts.complete_of_fields [] [.derived "verify_checksum" verifyChecksum] rfl
    (by simp [Listing.NamedField.derived])

end Ipv4

/-! ## §4. IPv6. -/

namespace Ipv6

/-- Where the fields of a header lie. -/
def parts : HeaderParts where
  table := table
  least := headerLength
  fixed :=
    [⟨"version", Layout.version, 0, 4, 0, (· % 16)⟩,
      ⟨"traffic_class", Layout.trafficClass, 4, 8, 0, id⟩,
      ⟨"flow_label", Layout.flowLabel, 12, 20, 0, (· % 0x100000)⟩,
      ⟨"payload_len", Layout.payloadLength, 32, 16, 0, id⟩,
      ⟨"next_header", Layout.nextHeader, 48, 8, 0, Assigned.canonical⟩,
      ⟨"hop_limit", Layout.hopLimit, 56, 8, 0, id⟩,
      ⟨"src_addr", Layout.source, 64, 128, 0, id⟩,
      ⟨"dst_addr", Layout.destination, 192, 128, 0, id⟩]
  movable := []

theorem parts_lies : parts.Lies where
  long h accepted := accepts_iff.1 accepted
  fixed := by
    simp only [parts, List.forall_mem_cons]
    exact ⟨lies_of_run (isRun_bits UInt8 0 (by decide)) rfl (by decide)
        fun v => byte_mod v 16 (by decide),
      lies_of_run (isRun_bits UInt8 0 (by decide)) rfl (by decide) keeps_byte,
      lies_of_run (isRun_bits UInt32 1 (by decide)) rfl (by decide)
        fun v => double_mod v 0x100000 (by decide),
      lies_word 4 2 fits_word (by decide), lies_assigned 6 1 fits_byte (by decide),
      lies_word 7 1 fits_byte (by decide), lies_octets 8 16 (by decide),
      lies_octets 24 16 (by decide), List.forall_mem_nil _⟩
  apart := by decide
  movable := List.forall_mem_nil _
  movable_apart := List.forall_mem_nil _

theorem parts_complete : parts.Complete :=
  HeaderParts.complete_of_fields [] [] rfl (List.forall_mem_nil _)

end Ipv6

/-! ## §5. TCP. -/

namespace Tcp

/-- Where the fields of a header lie.  Writing the flags clears the three bits
between them and the header length. -/
def parts : HeaderParts where
  table := table
  least := minHeaderLength
  fixed :=
    [⟨"src_port", Layout.sourcePort, 0, 16, 0, id⟩,
      ⟨"dst_port", Layout.destinationPort, 16, 16, 0, id⟩,
      ⟨"seq_number", Layout.sequence, 32, 32, 0, id⟩,
      ⟨"ack_number", Layout.acknowledgement, 64, 32, 0, id⟩,
      ⟨"flags", Layout.flags, 103, 9, 3, fun f => ⟨f.bits % 512⟩⟩,
      ⟨"header_len", Layout.headerLength, 96, 4, 0, (· / 4 % 16 * 4)⟩,
      ⟨"window_len", Layout.window, 112, 16, 0, id⟩,
      ⟨"checksum", Layout.checksum, 128, 16, 0, id⟩,
      ⟨"urgent_at", Layout.urgent, 144, 16, 0, id⟩]
  movable := [.options Layout.headerLength minHeaderLength getOptions setOptions]

theorem isRun_flags : Layout.flags.IsRun 0 12
    (fun n => ⟨(Coded.ofNat n : UInt16) &&& 0x1ff⟩) (fun f => Coded.toNat (f.bits &&& 0x1ff)) :=
  (isRun_bits UInt16 12 (by decide)).map _ _

/-- Of the twelve bits that are written, the flags are the last nine. -/
theorem flags_lies : Lies 20 ⟨"flags", Layout.flags, 103, 9, 3, fun f => ⟨f.bits % 512⟩⟩ where
  run := by
    have hbits (f : Flags) : (f.bits &&& 0x1ff).toNat % 2 ^ 12 = f.bits.toNat % 512 := by
      rw [toNat_and_nine]
      omega
    refine ⟨_, _, isRun_flags, fun f => ?_, fun f => ?_⟩
    · refine congrArg Flags.mk (UInt16.toNat_inj.1 ?_)
      show (UInt16.ofNat ((f.bits &&& 0x1ff).toNat % 2 ^ 12) &&& 0x1ff).toNat = _
      rw [hbits, toNat_and_nine, word_mod f.bits 512 (by decide)]
      exact Nat.mod_mod _ _
    · show (f.bits &&& 0x1ff).toNat % 2 ^ 12 < 2 ^ 9
      rw [hbits]
      exact Nat.mod_lt _ (by decide)
  front := by decide
  back := by decide
  inside := by decide

theorem options_lies :
    (MovablePart.options Layout.headerLength minHeaderLength getOptions setOptions).Lies parts := by
  refine MovablePart.options_lies (fun _ accepted => (accepts_iff.1 accepted).2)
    (fun _ _ agree => agree ⟨"header_len", Layout.headerLength, 96, 4, 0, (· / 4 % 16 * 4)⟩
      (by simp [parts]) (List.mem_singleton_self _))
    (fun h least room => ?_) fun h new least room size => ?_
  · rw [getOptions_eq (Nat.le_trans least room), List.drop_take]
    rfl
  · have hold : new.length = ((h.take (Layout.headerLength.value h).toNat).drop 20).length := by
      rw [size, List.length_drop, List.length_take_of_le room]
      rfl
    rw [setOptions_eq (Nat.le_trans least room) hold, size]
    rfl

theorem parts_lies : parts.Lies where
  long h accepted := (accepts_iff.1 accepted).1
  fixed := by
    simp only [parts, List.forall_mem_cons]
    exact ⟨lies_word 0 2 fits_word (by decide), lies_word 2 2 fits_word (by decide),
      lies_word 4 4 fits_sequence (by decide), lies_word 8 4 fits_sequence (by decide), flags_lies,
      lies_of_run ((isRun_bits UInt8 12 (by decide)).map (· * 4) (· / 4)) rfl (by decide)
        words_kept,
      lies_word 14 2 fits_word (by decide), lies_word 16 2 fits_word (by decide),
      lies_word 18 2 fits_word (by decide), List.forall_mem_nil _⟩
  apart := by decide
  movable m listed := by
    obtain rfl := List.mem_singleton.1 listed
    exact options_lies
  movable_apart m listed n listed' other := by
    obtain rfl := List.mem_singleton.1 listed
    obtain rfl := List.mem_singleton.1 listed'
    exact absurd rfl other

theorem parts_complete : parts.Complete :=
  HeaderParts.complete_of_fields [] [] rfl (List.forall_mem_nil _)

end Tcp

/-! ## §6. VLAN tags. -/

namespace Vlan

/-- Where the fields of a tag lie. -/
def parts : HeaderParts where
  table := table
  least := headerLength
  fixed :=
    [⟨"priority", Layout.priority, 0, 3, 0, (· % 8)⟩,
      ⟨"drop_eligible", Layout.dropEligible, 3, 1, 0, id⟩,
      ⟨"vlan_id", Layout.identifier, 4, 12, 0, (· % 4096)⟩,
      ⟨"ethertype", Layout.etherType, 16, 16, 0, Assigned.canonical⟩]
  movable := []

theorem parts_lies : parts.Lies where
  long h accepted := accepts_iff.1 accepted
  fixed := by
    simp only [parts, List.forall_mem_cons]
    exact ⟨lies_of_run (isRun_bits UInt8 0 (by decide)) rfl (by decide)
        fun v => byte_mod v 8 (by decide),
      lies_of_run (isRun_bits Bool 0 (by decide)) rfl (by decide) bit_kept,
      lies_of_run (isRun_bits UInt16 0 (by decide)) rfl (by decide)
        fun v => word_mod v 4096 (by decide),
      lies_assigned 2 2 fits_word (by decide), List.forall_mem_nil _⟩
  apart := by decide
  movable := List.forall_mem_nil _
  movable_apart := List.forall_mem_nil _

theorem parts_complete : parts.Complete :=
  HeaderParts.complete_of_fields [] [] rfl (List.forall_mem_nil _)

end Vlan

/-! ## §7. Address resolution. -/

namespace Arp

/-- The name of an address in listings. -/
def AddressRole.name : AddressRole → String
  | sourceHardware => "source_hardware_addr"
  | sourceProtocol => "source_protocol_addr"
  | targetHardware => "target_hardware_addr"
  | targetProtocol => "target_protocol_addr"

/-- An address, behind the fixed part.  That of the source hardware comes first,
so only its own length moves it. -/
def addressPart (role : AddressRole) : MovablePart :=
  ⟨role.name, getAddress role, setAddress role,
    fun h => role.range (Layout.hardwareLength.value h).toNat (Layout.protocolLength.value h).toNat,
    if role = .sourceHardware then ["hardware_len"] else ["hardware_len", "protocol_len"]⟩

/-- Where the fields of a message lie. -/
def parts : HeaderParts where
  table := table
  least := fixedLength
  fixed :=
    [⟨"hardware_type", Layout.hardwareType, 0, 16, 0, Assigned.canonical⟩,
      ⟨"protocol_type", Layout.protocolType, 16, 16, 0, Assigned.canonical⟩,
      ⟨"hardware_len", Layout.hardwareLength, 32, 8, 0, id⟩,
      ⟨"protocol_len", Layout.protocolLength, 40, 8, 0, id⟩,
      ⟨"operation", Layout.operation, 48, 16, 0, Assigned.canonical⟩]
  movable :=
    [addressPart .sourceHardware, addressPart .sourceProtocol, addressPart .targetHardware,
      addressPart .targetProtocol]

/-- An address ends inside an accepted message. -/
theorem range_inside (role : AddressRole) {h : Bytes} (accepted : format.accepts h = true)
    {range : Nat × Nat} (stated : role.range (Layout.hardwareLength.value h).toNat
      (Layout.protocolLength.value h).toNat = range) :
    8 ≤ range.1 ∧ range.1 + range.2 ≤ h.length := by
  obtain ⟨front, back⟩ := role.range_within (Layout.hardwareLength.value h).toNat
    (Layout.protocolLength.value h).toNat
  exact stated ▸ ⟨front, Nat.le_trans back (sized.accepts.1 accepted).2⟩

/-- The addresses lie one behind the other. -/
theorem range_apart {role role' : AddressRole} (other : role' ≠ role) (hardware protocol : Nat) :
    (role.range hardware protocol).1 + (role.range hardware protocol).2
        ≤ (role'.range hardware protocol).1
      ∨ (role'.range hardware protocol).1 + (role'.range hardware protocol).2
        ≤ (role.range hardware protocol).1 := by
  cases role <;> cases role' <;> simp only [AddressRole.range, ne_eq, not_true_eq_false] at other ⊢ <;>
    omega

theorem mem_movable {m : MovablePart} (listed : m ∈ parts.movable) : ∃ role, m = addressPart role := by
  simp only [parts, List.mem_cons, List.not_mem_nil, or_false] at listed
  rcases listed with rfl | rfl | rfl | rfl <;> exact ⟨_, rfl⟩

theorem addressPart_lies (role : AddressRole) : (addressPart role).Lies parts where
  inside h accepted := range_inside role accepted rfl
  reads h h' accepted length agree := by
    have long : 8 ≤ h'.length := length ▸ Nat.le_trans (sized.accepts.1 accepted).1
      (sized.accepts.1 accepted).2
    -- where an address stands hangs on the two lengths, and these are other fields
    have hhardware : Layout.hardwareLength.value h' = Layout.hardwareLength.value h :=
      agree ⟨"hardware_len", Layout.hardwareLength, 32, 8, 0, id⟩ (by simp [parts])
        (by cases role <;> simp [addressPart])
    have hrange : role.range (Layout.hardwareLength.value h').toNat
          (Layout.protocolLength.value h').toNat
        = role.range (Layout.hardwareLength.value h).toNat
          (Layout.protocolLength.value h).toNat := by
      cases role with
      | sourceHardware => rw [hhardware]; rfl
      | _ =>
        have hprotocol : Layout.protocolLength.value h' = Layout.protocolLength.value h :=
          agree ⟨"protocol_len", Layout.protocolLength, 40, 8, 0, id⟩ (by simp [parts])
            (by simp [addressPart])
        rw [hhardware, hprotocol]
    show getAddress role h' = _
    unfold getAddress
    rw [addressRange_eq role long, hrange, ok_bind]
    exact if_pos (length ▸ (range_inside role accepted rfl).2)
  writes h new accepted size := by
    have long : 8 ≤ h.length := Nat.le_trans (sized.accepts.1 accepted).1
      (sized.accepts.1 accepted).2
    show setAddress role new h = _
    unfold setAddress
    rw [addressRange_eq role long, ok_bind]
    exact Bytes.replace_eq (range_inside role accepted rfl).2 size

theorem parts_lies : parts.Lies where
  long h accepted := Nat.le_trans (sized.accepts.1 accepted).1 (sized.accepts.1 accepted).2
  fixed := by
    simp only [parts, List.forall_mem_cons]
    exact ⟨lies_assigned 0 2 fits_word (by decide),
      lies_assigned 2 2 fits_word (by decide), lies_word 4 1 fits_byte (by decide),
      lies_word 5 1 fits_byte (by decide), lies_assigned 6 2 fits_word (by decide),
      List.forall_mem_nil _⟩
  apart := by decide
  movable m listed := by
    obtain ⟨role, rfl⟩ := mem_movable listed
    exact addressPart_lies role
  movable_apart m listed n listed' other h := by
    obtain ⟨role, rfl⟩ := mem_movable listed
    obtain ⟨role', rfl⟩ := mem_movable listed'
    exact range_apart (fun same => other (congrArg AddressRole.name same)) _ _

theorem parts_complete : parts.Complete :=
  HeaderParts.complete_of_fields [.derived "message_len" messageLength] [] rfl
    (by simp [Listing.NamedField.derived])

end Arp

/-! ## §8. The five of them. -/

/-- The protocols whose fields lie at fixed places, or where the header says. -/
def settable : List HeaderParts := [Ipv4.parts, Ipv6.parts, Tcp.parts, Vlan.parts, Arp.parts]

/-- **A setter writes its field, and nothing else.**  Of five protocols the
tables above have whatever can be set.  In every accepted header, whatever is
behind it, a field at a fixed place can be set to any value, and then holds what
it has room for, and what the number stands for in its number space; every other
field, and every part that it does not move, is read as before; no other byte
changes, and no bit outside the field but the three that the flags of TCP clear
in front of them.  Options and addresses of the length that the header states
can be set, too, and change nothing else. -/
theorem setters_exact : ∀ p ∈ settable, p.Complete ∧ p.Settles := by
  simp only [settable, List.forall_mem_cons]
  exact ⟨⟨Ipv4.parts_complete, HeaderParts.settles_of_lies Ipv4.parts_lies⟩,
    ⟨Ipv6.parts_complete, HeaderParts.settles_of_lies Ipv6.parts_lies⟩,
    ⟨Tcp.parts_complete, HeaderParts.settles_of_lies Tcp.parts_lies⟩,
    ⟨Vlan.parts_complete, HeaderParts.settles_of_lies Vlan.parts_lies⟩,
    ⟨Arp.parts_complete, HeaderParts.settles_of_lies Arp.parts_lies⟩, List.forall_mem_nil _⟩

/-- Flags that are wider than nine bits, written over reserved bits that are set;
the header length beside them stays, and so does a byte behind the header. -/
theorem setters_exact_flags :
    ∃ h h' : Bytes, h = List.replicate 12 0 ++ [0x5f, 0xff] ++ List.replicate 6 0 ++ [7]
      ∧ Tcp.format.accepts h = true ∧ Tcp.Layout.flags.set ⟨0xfe02⟩ h = .ok h'
      ∧ Tcp.Layout.flags.get h' = .ok ⟨2⟩ ∧ Tcp.Layout.headerLength.get h' = .ok 20
      ∧ h.bit 101 = true ∧ h'.bit 101 = false ∧ h'[20]? = some 7 := by
  obtain ⟨h, hh⟩ : ∃ h : Bytes,
    h = List.replicate 12 0 ++ [0x5f, 0xff] ++ List.replicate 6 0 ++ [7] := ⟨_, rfl⟩
  have accepted : Tcp.format.accepts h = true := by rw [hh]; decide
  obtain ⟨_, settles⟩ := setters_exact Tcp.parts (by simp [settable])
  obtain ⟨fields, _⟩ := settles h accepted
  obtain ⟨h', hset, writes⟩ := fields
    ⟨"flags", Tcp.Layout.flags, 103, 9, 3, fun f => ⟨f.bits % 512⟩⟩ (by simp [Tcp.parts]) ⟨0xfe02⟩
  obtain ⟨length, hbefore, hlength⟩ := writes.others
    ⟨"header_len", Tcp.Layout.headerLength, 96, 4, 0, (· / 4 % 16 * 4)⟩ (by simp [Tcp.parts])
    (by decide)
  have htwenty : Tcp.Layout.headerLength.get h = .ok 20 := by rw [hh]; rfl
  obtain rfl := Except.ok.inj (hbefore.symm.trans htwenty)
  have hcleared := writes.bits 101 (by decide)
  have hbehind := writes.bytes 20 (by decide)
  have hreserved : h.bit 101 = true := by rw [hh]; decide
  have hlast : h[20]? = some 7 := by rw [hh]; rfl
  exact ⟨h, h', hh, accepted, hset, writes.own, hlength, hreserved, hcleared,
    hbehind.trans hlast⟩

/-- Not every value is read where it was set: zero as a protocol number without
interpretation is read as the hop-by-hop options. -/
theorem setters_exact_hopByHop :
    let h : Bytes := [0x45, 0, 0, 20, 0, 0, 0, 0, 64, 6, 0, 0, 0, 0, 0, 0, 0, 0, 0, 0]
    let h' : Bytes := [0x45, 0, 0, 20, 0, 0, 0, 0, 64, 0, 0, 0, 0, 0, 0, 0, 0, 0, 0, 0]
    Ipv4.format.accepts h = true ∧ Ipv4.Layout.protocol.set (.unknown 0) h = .ok h'
      ∧ Ipv4.Layout.protocol.get h' = .ok .hopByHop
      ∧ Ipv4.Layout.protocol.get h' ≠ .ok (.unknown 0) := by
  decide

end PacketLayers
