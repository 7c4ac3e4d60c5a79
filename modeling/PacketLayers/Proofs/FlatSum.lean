/-
  PacketLayers.Proofs.FlatSum
  ────────────────────────────────
  **TRANSPORT CHECKSUMS ARE SUMS OF ONE BYTE STRING.**

  The sum of a transport header and its payload is put together from up to
  five sums, in two levels.  It is the sum of the byte string that the
  standards describe: pseudo header, header and payload one after the other.

    • `PseudoHeader.bytes` — the pseudo header in one piece;
    • `upperLayer_eq_data` — the sum of the whole;
    • `Summed` — the protocols with a checksum of this kind;
    • `Summed.Settles` — a checksum that was filled holds and stays;
    • `upperLayer_flat` — both.
-/
import PacketLayers.Proofs.Bits
import PacketLayers.Proofs.Legible.Transport
import PacketLayers.Proofs.OnesComplement

namespace PacketLayers

/-! ## §1. The pseudo header in one piece. -/

namespace PseudoHeader

/-- The pseudo header of a transport header and payload of `length` bytes
together. -/
def bytes (pseudo : PseudoHeader) (protocol : IpProtocol) (length : Nat) : Bytes :=
  match pseudo with
  | .v4 source destination =>
    source.bytes ++ destination.bytes ++ [0, protocol.code] ++ Bytes.ofNat 2 (length % 65536)
  | .v6 source destination =>
    source.bytes ++ destination.bytes ++ Bytes.ofNat 4 length ++ [0, 0, 0, protocol.code]

variable (pseudo : PseudoHeader) (protocol : IpProtocol)

theorem bytes_eq {length : Nat} (short : length < 2 ^ 32) :
    pseudo.bytes protocol length = [pseudo.source, pseudo.destination,
      pseudo.protocolAndLength protocol (UInt32.ofNat length)].flatten := by
  have hlength : (UInt32.ofNat length).toNat = length := UInt32.toNat_ofNat_of_lt' short
  cases pseudo with
  | v4 source destination =>
    simp only [bytes, protocolAndLength, PseudoHeader.source, PseudoHeader.destination, hlength,
      List.flatten_cons, List.flatten_nil, List.append_nil, List.append_assoc]
    rw [show length % 65536 = length % 256 ^ 2 from rfl, Bytes.ofNat_mod]
  | v6 source destination =>
    simp only [bytes, protocolAndLength, PseudoHeader.source, PseudoHeader.destination, hlength,
      List.flatten_cons, List.flatten_nil, List.append_nil, List.append_assoc]

theorem length_bytes (length : Nat) :
    (pseudo.bytes protocol length).length = match pseudo with | .v4 _ _ => 12 | .v6 _ _ => 40 := by
  cases pseudo <;>
    simp only [bytes, List.length_append, Octets.length_bytes, Bytes.length_ofNat,
      List.length_cons, List.length_nil]

theorem sum_eq {length : Nat} (short : length < 2 ^ 32) :
    pseudo.sum protocol (UInt32.ofNat length)
      = Checksum.data (pseudo.bytes protocol length) := by
  have hbytes := bytes_eq pseudo protocol short
  have hlength := length_bytes pseudo protocol length
  -- addresses are a whole number of words
  have heven : ∀ part ∈ [pseudo.source, pseudo.destination], part.length % 2 = 0 := by
    cases pseudo <;> simp [PseudoHeader.source, PseudoHeader.destination, Octets.length_bytes]
  have hshort : (pseudo.bytes protocol length).length ≤ 2 ^ 49 := by
    rw [hlength]
    split <;> decide
  rw [hbytes] at hshort ⊢
  have hparts := Checksum.combine_map_data [pseudo.source, pseudo.destination,
    pseudo.protocolAndLength protocol (UInt32.ofNat length)] heven
    (by show 3 ≤ 65536; decide) hshort
  rw [← hparts]
  rfl

end PseudoHeader

/-! ## §2. The sum of the whole. -/

namespace Checksum

/-- The bytes that a transport checksum covers. -/
def covered (pseudo : Option PseudoHeader) (protocol : IpProtocol) (header payload : Bytes) :
    Bytes :=
  match pseudo with
  | some pseudo => pseudo.bytes protocol (header.length + payload.length) ++ header ++ payload
  | none => header ++ payload

/-- **The sum of a transport header is that of one byte string.** -/
theorem upperLayer_eq_data (pseudo : Option PseudoHeader) (protocol : IpProtocol)
    {header payload : Bytes} (even : header.length % 2 = 0)
    (short : header.length + payload.length < 2 ^ 32) :
    upperLayer pseudo protocol header payload = data (covered pseudo protocol header payload) := by
  -- what is above, as a byte string of its own
  obtain ⟨first, hsum, heven, hshort, hcovered⟩ : ∃ first : Bytes,
      above pseudo protocol (header.length + payload.length) = data first
        ∧ first.length % 2 = 0 ∧ first.length ≤ 40
        ∧ covered pseudo protocol header payload = [first, header, payload].flatten := by
    cases pseudo with
    | none => exact ⟨[], rfl, rfl, by decide, by simp [covered]⟩
    | some pseudo =>
      have hlength := pseudo.length_bytes protocol (header.length + payload.length)
      refine ⟨pseudo.bytes protocol (header.length + payload.length), pseudo.sum_eq protocol short,
        ?_, ?_, by simp [covered]⟩
      · rw [hlength]
        split <;> rfl
      · rw [hlength]
        split <;> decide
  have hparts : ∀ part ∈ [first, header], part.length % 2 = 0 := by simp [heven, even]
  rw [upperLayer_eq, hsum, hcovered]
  refine combine_map_data [first, header, payload] hparts (by show 3 ≤ 65536; decide) ?_
  simp only [List.flatten_cons, List.flatten_nil, List.length_append, List.length_nil]
  omega

end Checksum

/-! ## §3. Filling and checking. -/

/-- A protocol with a checksum over its header and its payload, and what it
may be lent by an IP layer. -/
structure Summed where
  format : HeaderFormat
  checksum : Field UInt16
  fill : (pseudo : PseudoHeader) → (payload h : Bytes) → Access Bytes
  verify : (pseudo : PseudoHeader) → (payload h : Bytes) → Access Bool

namespace Summed

def tcp : Summed where
  format := Tcp.format
  checksum := Tcp.Layout.checksum
  fill := Tcp.fillChecksum
  verify pseudo payload h := .ok (Tcp.verifyChecksum pseudo payload h)

def udp : Summed where
  format := Udp.format
  checksum := Udp.Layout.checksum
  fill := Udp.fillChecksum
  verify := Udp.verifyChecksum

/-- Nothing is lent to control messages of IPv4. -/
def icmpv4 : Summed where
  format := Icmpv4.format
  checksum := Icmpv4.Layout.checksum
  fill _ := Icmpv4.fillChecksum
  verify _ payload h := .ok (Icmpv4.verifyChecksum payload h)

def icmpv6 : Summed where
  format := Icmpv6.format
  checksum := Icmpv6.Layout.checksum
  fill := Icmpv6.fillChecksum
  verify pseudo payload h := .ok (Icmpv6.verifyChecksum pseudo payload h)

def igmp : Summed where
  format := Igmp.format
  checksum := Igmp.Layout.checksum
  fill _ := Igmp.fillChecksum
  verify _ payload h := .ok (Igmp.verifyChecksum payload h)

/-- The protocols with such a checksum. -/
def all : List Summed := [tcp, udp, icmpv4, icmpv6, igmp]

/-- In a header that is accepted nothing but the checksum is written when it is
filled; it holds then, and is the same when it is filled again.  Words are
added in 64 bits, which have room for the words of `2 ^ 49` bytes, and so of any
header in memory. -/
def Settles (p : Summed) : Prop :=
  ∀ (pseudo : PseudoHeader) (payload h : Bytes), p.format.accepts h = true →
    h.length ≤ 2 ^ 49 → ∃ v, p.fill pseudo payload h = .ok (p.checksum.put v h)
      ∧ p.verify pseudo payload (p.checksum.put v h) = .ok true
      ∧ p.fill pseudo payload (p.checksum.put v h) = .ok (p.checksum.put v h)

/-- A checksum settles if the value that is written completes the sum that is
checked. -/
theorem settles_of {p : Summed} {first : Nat} (lent : PseudoHeader → Option PseudoHeader)
    (protocol : IpProtocol) (complete : UInt16 → UInt16)
    (word : p.checksum = .word UInt16 first 2) (even : first % 2 = 0)
    (covers : ∀ {h : Bytes}, p.format.accepts h = true → first + 2 ≤ h.length)
    (fills : ∀ (pseudo : PseudoHeader) (payload h : Bytes), p.fill pseudo payload h
      = p.checksum.set 0 h >>= fun h =>
        p.checksum.set (complete (Checksum.upperLayer (lent pseudo) protocol h payload)) h)
    (completes : ∀ sum, Checksum.Completes sum (complete sum))
    (verifies : ∀ {pseudo : PseudoHeader} {payload h : Bytes}, first + 2 ≤ h.length →
      Checksum.upperLayer (lent pseudo) protocol h payload = 0xffff →
        p.verify pseudo payload h = .ok true) : p.Settles := by
  intro pseudo payload h accepted short
  have law : p.checksum.Lawful := word ▸ Field.lawful_word UInt16 first 2
  have hcovers : p.checksum.stop ≤ h.length := by
    rw [word]
    exact covers accepted
  have hlength : ∀ v, (p.checksum.put v h).length = h.length := Field.length_put law hcovers
  -- what is written is computed with a blank field, whatever the field holds
  have hfill : ∀ h' : Bytes, p.checksum.stop ≤ h'.length → p.fill pseudo payload h'
      = .ok (p.checksum.fill 0
        (fun h => complete (Checksum.upperLayer (lent pseudo) protocol h payload)) h') :=
    fun h' covers' => (fills pseudo payload h').trans (Field.set_fill law covers')
  refine ⟨_, hfill h hcovers, ?_, ?_⟩
  · refine verifies (by rw [hlength]; exact covers accepted) ?_
    rw [word]
    exact Checksum.upperLayer_filled even (word ▸ hcovers) short (completes _)
  · exact (hfill _ (by rw [hlength]; exact hcovers)).trans
      (congrArg Except.ok (Field.fill_fill law hcovers))

/-- Most protocols write the complement of the sum, and check that the sum is
all ones. -/
theorem settles_of_complement {p : Summed} {first : Nat}
    (lent : PseudoHeader → Option PseudoHeader) (protocol : IpProtocol)
    (word : p.checksum = .word UInt16 first 2) (even : first % 2 = 0)
    (covers : ∀ {h : Bytes}, p.format.accepts h = true → first + 2 ≤ h.length)
    (fills : ∀ (pseudo : PseudoHeader) (payload h : Bytes), p.fill pseudo payload h
      = p.checksum.set 0 h >>= fun h =>
        p.checksum.set (~~~ Checksum.upperLayer (lent pseudo) protocol h payload) h)
    (verifies : ∀ (pseudo : PseudoHeader) (payload h : Bytes), p.verify pseudo payload h
      = .ok (Checksum.upperLayer (lent pseudo) protocol h payload == 0xffff)) : p.Settles :=
  settles_of lent protocol (~~~ ·) word even covers fills Checksum.completes_complement
    fun _ sum => (verifies _ _ _).trans (congrArg Except.ok (beq_iff_eq.2 sum))

theorem settles_tcp : tcp.Settles :=
  settles_of_complement some .tcp rfl (by decide)
    (fun accepted => Nat.le_trans (by decide) (Tcp.accepts_iff.1 accepted).1)
    (fun _ _ _ => rfl) fun _ _ _ => rfl

/-- A sum that is all ones is not even needed for IPv4, if the checksum came
out as zero. -/
theorem settles_udp : udp.Settles := by
  refine settles_of some .udp (fun sum => if ~~~ sum = 0 then 0xffff else ~~~ sum) rfl (by decide)
    (fun accepted => (Udp.accepts_iff.1 accepted).1) (fun _ _ _ => rfl) Udp.completes_checksum ?_
  intro pseudo payload h covers sum
  have hsum : Udp.sum pseudo h payload = 0xffff := sum
  have hcovers : Udp.Layout.checksum.stop ≤ h.length := covers
  show Udp.verifyChecksum pseudo payload h = _
  unfold Udp.verifyChecksum
  rw [Field.get_eq_value hcovers, ok_bind, hsum]
  split <;> rfl

theorem settles_icmpv4 : icmpv4.Settles :=
  settles_of_complement (fun _ => none) .icmp rfl (by decide)
    (fun accepted => Nat.le_trans (by decide) (HeaderFormat.accepts_fixed.1 accepted))
    (fun _ _ _ => rfl) fun _ _ _ => rfl

theorem settles_icmpv6 : icmpv6.Settles :=
  settles_of_complement some .icmpv6 rfl (by decide)
    (fun accepted => Nat.le_trans (by decide) (HeaderFormat.accepts_fixed.1 accepted))
    (fun _ _ _ => rfl) fun _ _ _ => rfl

theorem settles_igmp : igmp.Settles :=
  settles_of_complement (fun _ => none) .igmp rfl (by decide)
    (fun accepted => Nat.le_trans (by decide) (HeaderFormat.accepts_fixed.1 accepted))
    (fun _ _ _ => rfl) fun _ _ _ => rfl

end Summed

/-- **Transport checksums are the flat computation**: sums are those of one
byte string, and a checksum that was filled holds and stays as it is. -/
theorem upperLayer_flat :
    (∀ (pseudo : Option PseudoHeader) (protocol : IpProtocol) (header payload : Bytes),
      header.length % 2 = 0 → header.length + payload.length < 2 ^ 32 →
        Checksum.upperLayer pseudo protocol header payload
          = Checksum.data (Checksum.covered pseudo protocol header payload))
      ∧ ∀ p ∈ Summed.all, p.Settles := by
  refine ⟨fun pseudo protocol header payload even short =>
    Checksum.upperLayer_eq_data pseudo protocol even short, ?_⟩
  simp only [Summed.all, List.forall_mem_cons, List.not_mem_nil, false_implies, implies_true,
    and_true]
  exact ⟨Summed.settles_tcp, Summed.settles_udp, Summed.settles_icmpv4, Summed.settles_icmpv6,
    Summed.settles_igmp⟩

/-- A datagram with an odd payload between two addresses: the sum in one piece,
and its checksum. -/
theorem upperLayer_flat_of_datagram :
    Checksum.upperLayer (some (.v4 (.all 4 1) (.all 4 2))) .udp [0, 7, 0, 9, 0, 11, 0, 0] [1, 2, 3]
        = Checksum.data ([1, 1, 1, 1, 2, 2, 2, 2, 0, 17, 0, 11]
          ++ [0, 7, 0, 9, 0, 11, 0, 0] ++ [1, 2, 3])
      ∧ ∃ v, Udp.fillChecksum (.v4 (.all 4 1) (.all 4 2)) [1, 2, 3] [0, 7, 0, 9, 0, 11, 0, 0]
          = .ok (Udp.Layout.checksum.put v [0, 7, 0, 9, 0, 11, 0, 0])
        ∧ Udp.verifyChecksum (.v4 (.all 4 1) (.all 4 2)) [1, 2, 3]
          (Udp.Layout.checksum.put v [0, 7, 0, 9, 0, 11, 0, 0]) = .ok true := by
  obtain ⟨v, hfill, hverify, _⟩ := upperLayer_flat.2 .udp (by simp [Summed.all])
    (.v4 (.all 4 1) (.all 4 2)) [1, 2, 3] [0, 7, 0, 9, 0, 11, 0, 0] rfl (by decide)
  exact ⟨upperLayer_flat.1 _ _ [0, 7, 0, 9, 0, 11, 0, 0] [1, 2, 3] rfl (by decide), v, hfill,
    hverify⟩

end PacketLayers
