/-
  PacketLayers.Proofs.RoundTrip.Message
  ────────────────────────────────
  **HEADERS OF EIGHT BYTES ARE READ BACK.**

  UDP, the control messages of both IP versions and group management have
  headers of eight bytes, the checksum of control messages being written last.
  An echo message of IPv6 writes identifier and sequence number as one word.
-/
import PacketLayers.Proofs.Bits
import PacketLayers.Proofs.Lawful.Control
import PacketLayers.Proofs.Lawful.Transport

namespace PacketLayers

open PacketLayers.Field

/-! ## §1. UDP. -/

namespace Udp.Header

/-- The length is that of the header, the checksum zero. -/
def runs (r : Header) : List Run :=
  [⟨48, 16, r.sourcePort.toNat⟩, ⟨32, 16, r.destinationPort.toNat⟩, ⟨16, 16, (8 : UInt16).toNat⟩,
    ⟨0, 16, (0 : UInt16).toNat⟩]

theorem tile_runs (r : Header) : Run.Tile headerLength r.runs := by
  intro i inside
  simp only [headerLength] at inside
  simp only [runs, Run.Covers]
  omega

theorem written_emit (r : Header) {buffer : Bytes} (length : buffer.length = headerLength) :
    Written headerLength r.runs buffer (r.emit buffer) :=
  ((((Written.start length).set (isRun_word UInt16 0 2) (by decide) r.sourcePort).set
    (isRun_word UInt16 2 2) (by decide) r.destinationPort).set
    (isRun_word UInt16 4 2) (by decide) 8).set (isRun_word UInt16 6 2) (by decide) 0

theorem destinationPort_of_parse {h : Bytes} {r : Header} (parsed : parse h = .ok r) :
    r.destinationPort ≠ 0 := by
  obtain ⟨_, _, hport⟩ := bind_eq_ok.1 parsed
  by_cases port : Layout.destinationPort.value h = 0
  · rw [if_pos port] at hport
    cases hport
  · rw [if_neg port] at hport
    obtain rfl := Except.ok.inj hport
    exact port

theorem parse_runs {r : Header} (port : r.destinationPort ≠ 0) :
    parse (Run.bytes headerLength r.runs) = .ok r := by
  have hsource : Layout.sourcePort.value (Run.bytes headerLength r.runs) = r.sourcePort :=
    (isRun_word UInt16 0 2).value_bytes (by decide) (keeps_word _) rfl
  have hdestination :
      Layout.destinationPort.value (Run.bytes headerLength r.runs) = r.destinationPort :=
    (isRun_word UInt16 2 2).value_bytes (by decide) (keeps_word _) rfl
  have hlength : Layout.length.value (Run.bytes headerLength r.runs) = 8 :=
    (isRun_word UInt16 4 2).value_bytes (by decide) (keeps_word _) rfl
  have haccepts : format.accepts (Run.bytes headerLength r.runs) = true := by
    rw [accepts_iff, hlength]
    exact ⟨Nat.le_refl 8, .inr (Nat.le_refl 8)⟩
  unfold parse
  rw [HeaderFormat.accepts_iff.1 haccepts, ok_bind, hdestination, if_neg port, hsource]
  rfl

theorem roundTrips : RoundTrips parse (fun _ => headerLength) emit :=
  roundTrips_of_runs runs tile_runs (fun r _ => r.written_emit)
    fun _ _ parsed => parse_runs (destinationPort_of_parse parsed)

end Udp.Header

/-! ## §2. Control messages of IPv4. -/

namespace Icmpv4

namespace Message

/-- An echo message. -/
def echoRuns (type : MessageType) (ident sequence : UInt16) : List Run :=
  [⟨56, 8, type.code.toNat⟩, ⟨48, 8, (0 : UInt8).toNat⟩, ⟨16, 16, ident.toNat⟩,
    ⟨0, 16, sequence.toNat⟩, ⟨32, 16, (0 : UInt16).toNat⟩]

/-- An error message, with nothing in the rest of the header. -/
def errorRuns (type : MessageType) (code : UInt8) : List Run :=
  [⟨56, 8, type.code.toNat⟩, ⟨48, 8, code.toNat⟩, ⟨0, 32, (0 : UInt32).toNat⟩,
    ⟨32, 16, (0 : UInt16).toNat⟩]

def runs : Message → List Run
  | .echoRequest ident sequence => echoRuns .echoRequest ident sequence
  | .echoReply ident sequence => echoRuns .echoReply ident sequence
  | .unreachable reason => errorRuns .unreachable reason.code
  | .timeExceeded reason => errorRuns .timeExceeded reason.code

theorem tile_echoRuns (type : MessageType) (ident sequence : UInt16) :
    Run.Tile headerLength (echoRuns type ident sequence) := by
  intro i inside
  simp only [headerLength] at inside
  simp only [echoRuns, Run.Covers]
  omega

theorem tile_errorRuns (type : MessageType) (code : UInt8) :
    Run.Tile headerLength (errorRuns type code) := by
  intro i inside
  simp only [headerLength] at inside
  simp only [errorRuns, Run.Covers]
  omega

theorem tile_runs (r : Message) : Run.Tile headerLength r.runs := by
  cases r with
  | echoRequest ident sequence => exact tile_echoRuns _ ident sequence
  | echoReply ident sequence => exact tile_echoRuns _ ident sequence
  | unreachable reason => exact tile_errorRuns _ reason.code
  | timeExceeded reason => exact tile_errorRuns _ reason.code

section Written

variable {buffer : Bytes} (length : buffer.length = headerLength)

include length

theorem written_echo (type : MessageType) (ident sequence : UInt16) :
    Written headerLength (echoRuns type ident sequence) buffer
      (emitEcho type ident sequence buffer >>= Layout.checksum.set 0) :=
  (((((Written.start length).set (isRun_word MessageType 0 1) (by decide) type).set
    (isRun_word UInt8 1 1) (by decide) 0).set (isRun_word UInt16 4 2) (by decide) ident).set
    (isRun_word UInt16 6 2) (by decide) sequence).set (isRun_word UInt16 2 2) (by decide) 0

theorem written_error (type : MessageType) (code : UInt8) :
    Written headerLength (errorRuns type code) buffer
      (emitError type code buffer >>= Layout.checksum.set 0) :=
  ((((Written.start length).set (isRun_word MessageType 0 1) (by decide) type).set
    (isRun_word UInt8 1 1) (by decide) code).set (isRun_word UInt32 4 4) (by decide) 0).set
    (isRun_word UInt16 2 2) (by decide) 0

theorem written_emit (r : Message) : Written headerLength r.runs buffer (r.emit buffer) := by
  cases r with
  | echoRequest ident sequence => exact written_echo length _ ident sequence
  | echoReply ident sequence => exact written_echo length _ ident sequence
  | unreachable reason => exact written_error length _ reason.code
  | timeExceeded reason => exact written_error length _ reason.code

end Written

/-- **Contents of a message:** a reason that is called by its name, if it has
one. -/
def Canonical : Message → Prop
  | .unreachable reason => Assigned.canonical reason = reason
  | .timeExceeded reason => Assigned.canonical reason = reason
  | _ => True

theorem canonical_of_parse {h : Bytes} {r : Message} (parsed : parse h = .ok r) : r.Canonical := by
  obtain ⟨_, _, hcontents⟩ := bind_eq_ok.1 parsed
  dsimp only at hcontents
  -- only the two messages with a reason are in question
  split at hcontents
  · obtain rfl := Except.ok.inj hcontents
    trivial
  split at hcontents
  · obtain rfl := Except.ok.inj hcontents
    trivial
  split at hcontents
  · obtain rfl := Except.ok.inj hcontents
    exact Assigned.canonical_ofCode _
  split at hcontents
  · obtain rfl := Except.ok.inj hcontents
    exact Assigned.canonical_ofCode _
  split at hcontents <;> cases hcontents

theorem parse_runs {r : Message} (canonical : r.Canonical) :
    parse (Run.bytes headerLength r.runs) = .ok r := by
  -- two layouts serve four messages
  have hecho (type : MessageType) (named : Assigned.canonical type = type)
      (ident sequence : UInt16) :
      let h := Run.bytes headerLength (echoRuns type ident sequence)
      Layout.type.value h = type ∧ Layout.code.value h = 0 ∧ Layout.echoIdent.value h = ident
        ∧ Layout.echoSequence.value h = sequence :=
    ⟨(isRun_word MessageType 0 1).value_bytes (by decide) (keeps_assigned fits_byte named) rfl,
      (isRun_word UInt8 1 1).value_bytes (by decide) (keeps_byte _) rfl,
      (isRun_word UInt16 4 2).value_bytes (by decide) (keeps_word _) rfl,
      (isRun_word UInt16 6 2).value_bytes (by decide) (keeps_word _) rfl⟩
  have herror (type : MessageType) (named : Assigned.canonical type = type) (code : UInt8) :
      let h := Run.bytes headerLength (errorRuns type code)
      Layout.type.value h = type ∧ Layout.code.value h = code :=
    ⟨(isRun_word MessageType 0 1).value_bytes (by decide) (keeps_assigned fits_byte named) rfl,
      (isRun_word UInt8 1 1).value_bytes (by decide) (keeps_byte _) rfl⟩
  have hcheck (runs : List Run) : format.check (Run.bytes headerLength runs) = .ok () := rfl
  unfold parse
  rw [hcheck, ok_bind]
  cases r with
  | echoRequest ident sequence =>
    obtain ⟨htype, hcode, hident, hsequence⟩ := hecho .echoRequest rfl ident sequence
    simp only [runs, htype, hcode, hident, hsequence]
    rfl
  | echoReply ident sequence =>
    obtain ⟨htype, hcode, hident, hsequence⟩ := hecho .echoReply rfl ident sequence
    simp only [runs, htype, hcode, hident, hsequence]
    rfl
  | unreachable reason =>
    obtain ⟨htype, hcode⟩ := herror .unreachable rfl reason.code
    simp only [runs, htype, hcode]
    exact congrArg (Except.ok <| Message.unreachable ·) canonical
  | timeExceeded reason =>
    obtain ⟨htype, hcode⟩ := herror .timeExceeded rfl reason.code
    simp only [runs, htype, hcode]
    exact congrArg (Except.ok <| Message.timeExceeded ·) canonical

theorem roundTrips : RoundTrips parse (fun _ => headerLength) emit :=
  roundTrips_of_runs runs tile_runs (fun r _ length => written_emit length r)
    fun _ _ parsed => parse_runs (canonical_of_parse parsed)

end Message

end Icmpv4

/-! ## §3. Control messages of IPv6. -/

namespace Icmpv6

theorem toNat_echoData (ident sequence : UInt16) :
    (Message.echoData ident sequence).toNat = 2 ^ 16 * ident.toNat + sequence.toNat := by
  have hident := ident.toNat_lt
  have hshift : (ident.toUInt32 <<< 16).toNat = 2 ^ 16 * ident.toNat := by
    rw [UInt32.toNat_shiftLeft, UInt16.toNat_toUInt32, Nat.shiftLeft_eq, Nat.mul_comm]
    exact Nat.mod_eq_of_lt (show 2 ^ 16 * ident.toNat < 2 ^ 32 by omega)
  rw [Message.echoData, UInt32.toNat_or, hshift, UInt16.toNat_toUInt32]
  exact (Nat.two_pow_add_eq_or_of_lt sequence.toNat_lt ident.toNat).symm

namespace Message

/-- Type, code and data, and no checksum. -/
def runs (r : Message) : List Run :=
  [⟨56, 8, r.parts.1.code.toNat⟩, ⟨48, 8, r.parts.2.1.toNat⟩, ⟨0, 32, r.parts.2.2.toNat⟩,
    ⟨32, 16, (0 : UInt16).toNat⟩]

theorem tile_runs (r : Message) : Run.Tile headerLength r.runs := by
  intro i inside
  simp only [headerLength] at inside
  simp only [runs, Run.Covers]
  omega

theorem written_emit (r : Message) {buffer : Bytes} (length : buffer.length = headerLength) :
    Written headerLength r.runs buffer (r.emit buffer) :=
  ((((Written.start length).set (isRun_word MessageType 0 1) (by decide) r.parts.1).set
    (isRun_word UInt8 1 1) (by decide) r.parts.2.1).set (isRun_word UInt32 4 4) (by decide)
    r.parts.2.2).set (isRun_word UInt16 2 2) (by decide) 0

/-- Both halves of the data of an echo message. -/
theorem echo_bytes {r : Message} {ident sequence : UInt16}
    (echo : r.parts.2.2 = echoData ident sequence) :
    Layout.echoIdent.value (Run.bytes headerLength r.runs) = ident
      ∧ Layout.echoSequence.value (Run.bytes headerLength r.runs) = sequence := by
  have hident := ident.toNat_lt
  have hsequence := sequence.toNat_lt
  -- both halves are written as one number of thirty-two bits
  have hdata : bitsOf (Run.putAll r.runs 0) 0 32 = 2 ^ 16 * ident.toNat + sequence.toNat := by
    have hlast : Run.lastAt? 0 32 r.runs = some r.parts.2.2.toNat := rfl
    rw [Run.bitsOf_putAll hlast, echo, toNat_echoData, Nat.mod_eq_of_lt (by omega)]
  have hfront : bitsOf (Run.putAll r.runs 0) 16 16 = ident.toNat := by
    rw [← bitsOf_bitsOf _ 0 32 (show 16 + 16 ≤ 32 by decide), hdata, bitsOf_eq]
    omega
  have hback : bitsOf (Run.putAll r.runs 0) 0 16 = sequence.toNat := by
    rw [← bitsOf_bitsOf _ 0 32 (show 0 + 16 ≤ 32 by decide), hdata, bitsOf_eq]
    omega
  constructor
  · refine ((isRun_word UInt16 4 2).value_ofNat (by decide) _).trans ?_
    rw [show bitsOf _ (8 * (headerLength - (word UInt16 4 2).stop) + 0) (8 * 2) = _ from hfront]
    exact UInt16.ofNat_toNat
  · refine ((isRun_word UInt16 6 2).value_ofNat (by decide) _).trans ?_
    rw [show bitsOf _ (8 * (headerLength - (word UInt16 6 2).stop) + 0) (8 * 2) = _ from hback]
    exact UInt16.ofNat_toNat

theorem canonical_type (r : Message) : Assigned.canonical r.parts.1 = r.parts.1 := by
  cases r <;> rfl

theorem parse_runs (r : Message) : parse (Run.bytes headerLength r.runs) = .ok r := by
  have htype : Layout.type.value (Run.bytes headerLength r.runs) = r.parts.1 :=
    (isRun_word MessageType 0 1).value_bytes (by decide)
      (keeps_assigned fits_byte r.canonical_type) rfl
  have hcode : Layout.code.value (Run.bytes headerLength r.runs) = r.parts.2.1 :=
    (isRun_word UInt8 1 1).value_bytes (by decide) (keeps_byte _) rfl
  have hdata : Layout.data.value (Run.bytes headerLength r.runs) = r.parts.2.2 :=
    (isRun_word UInt32 4 4).value_bytes (by decide) (keeps_double _) rfl
  have hcheck : format.check (Run.bytes headerLength r.runs) = .ok () := rfl
  unfold parse
  rw [hcheck, ok_bind, htype, hcode, hdata]
  cases r with
  | echoRequest ident sequence =>
    obtain ⟨hident, hsequence⟩ := echo_bytes (r := .echoRequest ident sequence) rfl
    rw [hident, hsequence]
    rfl
  | echoReply ident sequence =>
    obtain ⟨hident, hsequence⟩ := echo_bytes (r := .echoReply ident sequence) rfl
    rw [hident, hsequence]
    rfl
  | unreachable code => rfl
  | packetTooBig mtu => rfl
  | timeExceeded code => rfl
  | parameterProblem code pointer => rfl

theorem roundTrips : RoundTrips parse (fun _ => headerLength) emit :=
  roundTrips_of_runs runs tile_runs (fun r _ => r.written_emit) fun _ r _ => r.parse_runs

end Message

end Icmpv6

/-! ## §4. Group management. -/

namespace Igmp

namespace Message

/-- Type, response time and group, and no checksum. -/
def runs (r : Message) : List Run :=
  [⟨56, 8, r.parts.1.code.toNat⟩, ⟨48, 8, r.parts.2.1.toNat⟩, ⟨0, 32, r.parts.2.2.toNat⟩,
    ⟨32, 16, (0 : UInt16).toNat⟩]

theorem tile_runs (r : Message) : Run.Tile headerLength r.runs := by
  intro i inside
  simp only [headerLength] at inside
  simp only [runs, Run.Covers]
  omega

theorem written_emit (r : Message) {buffer : Bytes} (length : buffer.length = headerLength) :
    Written headerLength r.runs buffer (r.emit buffer) :=
  ((((Written.start length).set (isRun_word MessageType 0 1) (by decide) r.parts.1).set
    (isRun_word UInt8 1 1) (by decide) r.parts.2.1).set (isRun_octets 4 4) (by decide)
    r.parts.2.2).set (isRun_word UInt16 2 2) (by decide) 0

theorem canonical_type (r : Message) : Assigned.canonical r.parts.1 = r.parts.1 := by
  cases r with
  | query maxResponseTime group => rfl
  | report group version => cases version <;> rfl
  | leave group => rfl

theorem parse_runs (r : Message) : parse (Run.bytes headerLength r.runs) = .ok r := by
  have htype : Layout.type.value (Run.bytes headerLength r.runs) = r.parts.1 :=
    (isRun_word MessageType 0 1).value_bytes (by decide)
      (keeps_assigned fits_byte r.canonical_type) rfl
  have htime : Layout.maxResponseTime.value (Run.bytes headerLength r.runs) = r.parts.2.1 :=
    (isRun_word UInt8 1 1).value_bytes (by decide) (keeps_byte _) rfl
  have hgroup : Layout.group.value (Run.bytes headerLength r.runs) = r.parts.2.2 :=
    (isRun_octets 4 4).value_bytes (by decide) (keeps_octets _) rfl
  have hcheck : format.check (Run.bytes headerLength r.runs) = .ok () := rfl
  unfold parse
  rw [hcheck, ok_bind, htype, htime, hgroup]
  cases r with
  | query maxResponseTime group => rfl
  | report group version => cases version <;> rfl
  | leave group => rfl

theorem roundTrips : RoundTrips parse (fun _ => headerLength) emit :=
  roundTrips_of_runs runs tile_runs (fun r _ => r.written_emit) fun _ r _ => r.parse_runs

end Message

end Igmp

end PacketLayers
