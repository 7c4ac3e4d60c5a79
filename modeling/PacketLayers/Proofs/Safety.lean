/-
  PacketLayers.Proofs.Safety
  ────────────────────────────────
  **NO ACCESS FAULTS.**

  Every read and write of header bytes names its range, and faults if the range
  is not there.  The dissectors of the library never let it come to that, for
  header bytes of any length; the engine reads and writes nothing but regions
  that lie in the arena, and writes as many bytes as there are.  So nothing
  that is asked of a packet ends in a fault:

    • `Dissector.measure_eq` — lengths are read from bytes that are there;
    • `Packet.Sound` — what can be asked of a packet, and has an answer;
    • `engine_never_faults` — all of it, for every packet that can come about.
-/
import PacketLayers.Listing.Standard
import PacketLayers.Packet.Inspect
import PacketLayers.Proofs.Dispatch
import PacketLayers.Proofs.Emission.Link

namespace PacketLayers

/-! ## §1. Lengths of headers, read one access after the other. -/

/-- The length that the first bytes of a header state, if these and then the
whole header are there. -/
def measureFrom (least : Nat) (stated : Bytes → Access (Except Error Nat)) (b : Bytes) :
    Access (Except Error Nat) := do
  if b.length < least then return .error .truncated
  match ← stated b with
  | .error e => return .error e
  | .ok n => return if b.length < n then .error .truncated else .ok n

/-- A length that is known beforehand. -/
def measureFixed (size : Nat) (b : Bytes) : Access (Except Error Nat) :=
  measureFrom size (fun _ => .ok (.ok size)) b

/-- A length with room for what stands in front of the options. -/
def measureWords (field : Field UInt8) (least : Nat) (b : Bytes) : Access (Except Error Nat) :=
  measureFrom least (fun b => do
    let n := (← field.get b).toNat
    return if n < least then .error .malformed else .ok n) b

/-- The length of a header of UDP, unless it contradicts the length of the
datagram. -/
def Udp.measureDatagram (b : Bytes) : Access (Except Error Nat) := do
  let n := (← Layout.length.get b).toNat
  return if n ≠ 0 ∧ n < headerLength then .error .malformed else .ok headerLength

/-- **The length of a header,** with every byte that it depends on read where it
is needed, and not before it is known to be there. -/
def LayerKind.measure : LayerKind → Bytes → Access (Except Error Nat)
  | ethernet => measureFixed Ethernet.headerLength
  | vlan => measureFixed Vlan.headerLength
  | arp => measureFrom Arp.fixedLength fun b => do return .ok (← Arp.messageLength b)
  | ipv4 => measureWords Ipv4.Layout.headerLength Ipv4.minHeaderLength
  | ipv6 => measureFixed Ipv6.headerLength
  | tcp => measureWords Tcp.Layout.headerLength Tcp.minHeaderLength
  | udp => measureFrom Udp.headerLength Udp.measureDatagram
  | icmpv4 => measureFixed Icmpv4.headerLength
  | icmpv6 => measureFixed Icmpv6.headerLength
  | igmp => measureFixed Igmp.headerLength
  | gre => measureFrom Gre.minHeaderLength fun b => do return .ok (← Gre.headerLength b)
  | loopback => measureFixed Loopback.headerLength
  | rawIp => measureFrom 1 fun _ => .ok (.ok 0)
  | wireless => measureFrom 2 fun b => do return .ok (← Wireless.headerLength b)
  | llc => measureFrom 3 fun b => do return .ok (← Llc.headerLength b)
  | custom _ => fun _ => .ok (.error .notImplemented)

section Measuring

variable {b : Bytes} {least size : Nat} {stated : Bytes → Access (Except Error Nat)}
  {outcome : Except Error Nat}

theorem measureFrom_eq (reads : least ≤ b.length → stated b = .ok outcome) :
    measureFrom least stated b = .ok (if b.length < least then .error .truncated
      else outcome >>= fun n => if b.length < n then .error .truncated else .ok n) := by
  unfold measureFrom
  by_cases short : b.length < least
  · simp only [if_pos short]
    rfl
  · simp only [if_neg short, reads (Nat.not_lt.1 short), ok_bind]
    cases outcome <;> rfl

/-- **Reading a length access by access** gives the answer of the check, which
looks at the header as a whole. -/
theorem measureFrom_check {f : HeaderFormat} (outcome : Except Error Nat)
    (reads : least ≤ b.length → stated b = .ok outcome)
    (states : ∀ n, outcome = .ok n → n = size)
    (check : f.check b = if b.length < least then .error .truncated
      else outcome >>= fun n => if b.length < n then .error .truncated else .ok ()) :
    measureFrom least stated b = .ok ((f.check b).map fun _ => size) := by
  rw [measureFrom_eq reads, check]
  congr 1
  -- cut short, without a length, cut short behind it, or all there
  by_cases short : b.length < least
  · rw [if_pos short, if_pos short]
    rfl
  · rw [if_neg short, if_neg short]
    cases outcome with
    | error e => rfl
    | ok n =>
      obtain rfl := states n rfl
      simp only [ok_bind]
      by_cases cut : b.length < n
      · rw [if_pos cut, if_pos cut]
        rfl
      · rw [if_neg cut, if_neg cut]
        rfl

theorem measureFixed_check (kind : LayerKind) :
    measureFixed size b = .ok ((HeaderFormat.fixed kind size).fixedLength size b) := by
  refine measureFrom_check (.ok size) (fun _ => rfl) (fun n hn => (Except.ok.inj hn).symm) ?_
  unfold HeaderFormat.fixed
  by_cases short : b.length < size
  · simp only [if_pos short]
  · simp only [if_neg short, ok_bind]

theorem measureWords_check {f : HeaderFormat} {field : Field UInt8}
    (covers : field.stop ≤ least)
    (check : f.check b = if b.length < least then .error .truncated
      else if (field.value b).toNat < least then .error .malformed
      else if b.length < (field.value b).toNat then .error .truncated else .ok ()) :
    measureWords field least b = .ok ((f.check b).map fun _ => (field.value b).toNat) := by
  refine measureFrom_check (if (field.value b).toNat < least then .error .malformed
    else .ok (field.value b).toNat) (fun long => ?_) (fun n hn => ?_) (check.trans ?_)
  · rw [Field.get_eq_value (Nat.le_trans covers long)]
    rfl
  · split at hn
    · cases hn
    · exact (Except.ok.inj hn).symm
  · by_cases low : (field.value b).toNat < least
    · simp only [if_pos low]
      rfl
    · simp only [if_neg low]
      rfl

/-- A header whose first bytes alone say how long it is. -/
theorem measureStated_check {f : HeaderFormat} {asks : Bytes → Access Nat} {n : Nat}
    (reads : least ≤ b.length → asks b = .ok n)
    (check : f.check b = if b.length < least then .error .truncated
      else if b.length < n then .error .truncated else .ok ()) :
    measureFrom least (fun b => do return .ok (← asks b)) b = .ok ((f.check b).map fun _ => n) := by
  refine measureFrom_check (.ok n) (fun long => ?_)
    (fun m hm => (Except.ok.inj hm).symm) check
  rw [reads long]
  rfl

end Measuring

/-! Headers that decide their length in ways of their own. -/

variable (b : Bytes)

theorem Udp.measure_eq : LayerKind.udp.measure b = .ok (Udp.dissector.headerLength b) := by
  show measureFrom headerLength measureDatagram b = .ok ((format.check b).map fun _ => headerLength)
  have hcheck : format.check b = if b.length < headerLength then .error .truncated
      else if (Layout.length.value b).toNat ≠ 0 ∧ (Layout.length.value b).toNat < headerLength
        then .error .malformed else .ok () := rfl
  refine measureFrom_check (if (Layout.length.value b).toNat ≠ 0
    ∧ (Layout.length.value b).toNat < headerLength then .error .malformed else .ok headerLength)
    (fun long => ?_) (fun n hn => ?_) (hcheck.trans ?_)
  · have hcovers : Layout.length.stop ≤ b.length := Nat.le_trans (by decide) long
    rw [measureDatagram, Field.get_eq_value hcovers]
    rfl
  · split at hn
    · cases hn
    · exact (Except.ok.inj hn).symm
  · by_cases short : b.length < headerLength
    · rw [if_pos short, if_pos short]
    · rw [if_neg short, if_neg short]
      split
      · rfl
      · rw [ok_bind, if_neg short]

theorem Gre.measure_eq : LayerKind.gre.measure b = .ok (Gre.dissector.headerLength b) := by
  rw [sized.length]
  refine measureStated_check (fun long => ?_) ?_
  · have hflags : Layout.flags.stop ≤ b.length := Nat.le_trans (by decide) long
    unfold headerLength
    rw [Field.get_eq_value hflags]
    rfl
  · show (if b.length < minHeaderLength then _ else _) = _
    by_cases short : b.length < minHeaderLength
    · rw [if_pos short, if_pos short]
    · have hlong : 1 ≤ b.length := Nat.le_trans (by decide) (Nat.not_lt.1 short)
      rw [if_neg short, if_neg short, headerLength?_eq hlong, Option.getD_some]

theorem Loopback.measure_eq :
    LayerKind.loopback.measure b = .ok (Loopback.dissector.headerLength b) := by
  show measureFixed headerLength b = .ok ((Header.parse b).map fun _ => headerLength)
  rw [measureFixed_check .loopback, parse_eq]
  unfold HeaderFormat.fixedLength HeaderFormat.fixed
  by_cases long : 4 ≤ b.length
  · have hlong : ¬ b.length < headerLength := Nat.not_lt.2 long
    simp only [if_pos long, if_neg hlong]
    rfl
  · have hshort : b.length < headerLength := Nat.not_le.1 long
    simp only [if_neg long, if_pos hshort]
    rfl

theorem Wireless.measure_eq :
    LayerKind.wireless.measure b = .ok (Wireless.dissector.headerLength b) := by
  rw [sized.length]
  match b with
  | [] => rfl
  | [_] => rfl
  | x :: y :: rest =>
    refine measureStated_check (fun long => ?_) rfl
    have htype : Layout.frameType.stop ≤ _ := Nat.le_trans (by decide) long
    have hsubtype : Layout.subtype.stop ≤ _ := Nat.le_trans (by decide) long
    have hflags : Layout.flags.stop ≤ _ := Nat.le_trans (by decide) long
    unfold headerLength
    rw [Field.get_eq_value htype, Field.get_eq_value hsubtype, Field.get_eq_value hflags]
    exact congrArg Except.ok (headerLengthOf_eq x y rest).symm

theorem Llc.measure_eq : LayerKind.llc.measure b = .ok (Llc.dissector.headerLength b) := by
  rw [sized.length]
  match b with
  | [] => rfl
  | [_] => rfl
  | [_, _] => rfl
  | x :: y :: z :: rest =>
    refine measureStated_check (fun long => ?_) rfl
    obtain ⟨hdsap, hssap, hcontrol⟩ := value_bytes x y z rest
    have hcovers {f : Field UInt8} (covers : f.stop ≤ 3) : f.stop ≤ _ := Nat.le_trans covers long
    unfold headerLength
    rw [Field.get_eq_value (hcovers (f := Layout.dsap) (by decide)),
      Field.get_eq_value (hcovers (f := Layout.ssap) (by decide)),
      Field.get_eq_value (hcovers (f := Layout.control) (by decide)), hdsap, hssap, hcontrol]
    rfl

/-- **The length of a header is read from bytes that are there,** whatever the
bytes. -/
theorem Dissector.measure_eq {d : Dissector} (known : d ∈ all) :
    d.kind.measure b = .ok (d.headerLength b) := by
  cases known using Dissector.all_cases with
  | ethernet | vlan | ipv6 | icmpv4 | icmpv6 | igmp => exact measureFixed_check _
  | arp => exact measureStated_check (fun long => Arp.messageLength_eq long) rfl
  | ipv4 => exact measureWords_check (by decide) rfl
  | tcp => exact measureWords_check (by decide) rfl
  | udp => exact Udp.measure_eq b
  | gre => exact Gre.measure_eq b
  | loopback => exact Loopback.measure_eq b
  | rawIp => cases b <;> rfl
  | wireless => exact Wireless.measure_eq b
  | llc => exact Llc.measure_eq b

/-- One case for each table of the library. -/
@[elab_as_elim]
theorem Listing.Table.all_cases {motive : (t : Table) → t ∈ all → Prop}
    (ethernet : ∀ h, motive Ethernet.table h)
    (vlan : ∀ h, motive Vlan.table h)
    (arp : ∀ h, motive Arp.table h)
    (ipv4 : ∀ h, motive Ipv4.table h)
    (ipv6 : ∀ h, motive Ipv6.table h)
    (tcp : ∀ h, motive Tcp.table h)
    (udp : ∀ h, motive Udp.table h)
    (icmpv4 : ∀ h, motive Icmpv4.table h)
    (icmpv6 : ∀ h, motive Icmpv6.table h)
    (igmp : ∀ h, motive Igmp.table h)
    (gre : ∀ h, motive Gre.table h)
    (loopback : ∀ h, motive Loopback.table h)
    (wireless : ∀ h, motive Wireless.table h)
    (llc : ∀ h, motive Llc.table h)
    {t : Table} (known : t ∈ all) : motive t known := by
  have hknown := known
  simp only [all, List.mem_cons, List.not_mem_nil, or_false] at hknown
  rcases hknown with rfl | rfl | rfl | rfl | rfl | rfl | rfl | rfl | rfl | rfl | rfl | rfl | rfl
    | rfl
  · exact ethernet _
  · exact vlan _
  · exact arp _
  · exact ipv4 _
  · exact ipv6 _
  · exact tcp _
  · exact udp _
  · exact icmpv4 _
  · exact icmpv6 _
  · exact igmp _
  · exact gre _
  · exact loopback _
  · exact wireless _
  · exact llc _

/-- A header format that leaves nothing to a check but to read the length of
the header. -/
def HeaderFormat.Measured (f : HeaderFormat) : Prop :=
  ∀ b, ∃ length, f.kind.measure b = .ok length ∧ f.check b = length.map fun _ => ()

theorem HeaderFormat.Measured.fixed {kind : LayerKind} {size : Nat}
    (measure : kind.measure = measureFixed size) : (HeaderFormat.fixed kind size).Measured := by
  intro b
  refine ⟨_, (congrFun measure b).trans (measureFixed_check kind), ?_⟩
  unfold HeaderFormat.fixedLength
  cases (HeaderFormat.fixed kind size).check b <;> rfl

/-- The format whose check a dissector relies on. -/
theorem HeaderFormat.Measured.of_dissector {f : HeaderFormat} (d : Dissector)
    (known : d ∈ Dissector.all) (kind : f.kind = d.kind) {size : Bytes → Nat}
    (length : ∀ b, d.headerLength b = (f.check b).map fun _ => size b) : f.Measured := by
  intro b
  refine ⟨d.headerLength b, kind ▸ Dissector.measure_eq b known, ?_⟩
  rw [length]
  cases f.check b <;> rfl

/-- **So is every length that a check asks for.** -/
theorem Listing.Table.format_measured {t : Listing.Table} (known : t ∈ Listing.Table.all) :
    t.format.Measured := by
  cases known using Listing.Table.all_cases with
  | ethernet | vlan | ipv6 | icmpv4 | icmpv6 | igmp | loopback =>
    exact HeaderFormat.Measured.fixed rfl
  | arp => exact .of_dissector Arp.dissector (by simp [Dissector.all]) rfl Arp.sized.length
  | ipv4 => exact .of_dissector Ipv4.dissector (by simp [Dissector.all]) rfl Ipv4.sized.length
  | tcp => exact .of_dissector Tcp.dissector (by simp [Dissector.all]) rfl Tcp.sized.length
  | udp => exact .of_dissector Udp.dissector (by simp [Dissector.all]) rfl fun _ => rfl
  | gre => exact .of_dissector Gre.dissector (by simp [Dissector.all]) rfl Gre.sized.length
  | wireless =>
    exact .of_dissector Wireless.dissector (by simp [Dissector.all]) rfl Wireless.sized.length
  | llc => exact .of_dissector Llc.dissector (by simp [Dissector.all]) rfl Llc.sized.length

/-! ## §2. Changes of a layer. -/

/-- A range is replaced by as many bytes, where it is there. -/
theorem Bytes.replace_succeeds {b new : Bytes} {first size : Nat}
    (room : first + size ≤ b.length) (fits : new.length = size) :
    ∃ b', b.replace first size new = .ok b' ∧ b'.length = b.length :=
  ⟨_, replace_eq room fits, length_replaced room fits⟩

namespace Cursor

variable {c : Cursor} (laid : c.close.LaidOut)

include laid

/-- **New options** are written into a header that was given room for them. -/
theorem replaceOptions_succeeds {kind : LayerKind} {fixed longest : Nat} {field : Field UInt8}
    (law : field.Lawful) (covers : field.stop ≤ fixed) (options : Bytes) :
    ∃ out, c.replaceOptions kind fixed longest field options = .ok out := by
  obtain ⟨padded, hpadded⟩ : ∃ padded, wholeWords options.length = padded := ⟨_, rfl⟩
  have hresized := resizeHeader_laidOut laid (fixed + padded)
  have hlength : (c.resizeHeader (fixed + padded)).header.length = fixed + padded := by
    rw [header, Region.length_bytes (header_inside hresized)]
    exact Region.length_resize _ _ _
  have hcovers : field.stop ≤ (c.resizeHeader (fixed + padded)).header.length := by
    rw [hlength]
    omega
  have hput := Field.length_put law hcovers (UInt8.ofNat (fixed + padded))
  -- the header has just the room that the options need
  obtain ⟨new, hnew, hkept⟩ := Bytes.replace_succeeds (Nat.le_of_eq (hput.trans hlength).symm)
    (Bytes.length_resize options padded)
  obtain ⟨c', hstore⟩ := storeHeader_succeeds hresized (hkept.trans hput)
  unfold replaceOptions
  simp only [hpadded]
  split
  · exact ⟨_, rfl⟩
  · split
    · exact ⟨_, rfl⟩
    · refine ⟨.ok c', ?_⟩
      rw [Field.set_eq_put law hcovers, ok_bind, hnew, ok_bind, hstore]
      rfl

/-- **A payload** is taken, or refused because the layer cannot announce it. -/
theorem setPayload_answers (total : c.focus.dissector.Total) (payload : Payload) :
    ∃ out, c.setPayload payload = .ok out := by
  obtain ⟨layers, body⟩ := payload
  cases layers with
  | nil => exact ⟨_, rfl⟩
  | cons child rest =>
    cases named : c.focus.dissector.discriminantOf child.kind with
    | none => exact ⟨_, setPayload_unsupported rfl named⟩
    | some announced =>
      obtain ⟨new, htold, hlength⟩ := total.setNext c.header announced
      have hchildren : (⟨child :: rest, body⟩ : Payload).layers = child :: rest := rfl
      obtain ⟨c', hset⟩ := setPayload_succeeds laid hchildren named htold hlength
      exact ⟨_, hset⟩

end Cursor

/-! ## §3. Packets. -/

theorem mapM_succeeds {α β : Type} {f : α → Access β} {as : List α}
    (each : ∀ a ∈ as, ∃ b, f a = .ok b) : ∃ bs, as.mapM f = .ok bs := by
  induction as with
  | nil => exact ⟨[], rfl⟩
  | cons a rest ih =>
    obtain ⟨b, hb⟩ := each a List.mem_cons_self
    obtain ⟨bs, hbs⟩ := ih fun a' h => each a' (List.mem_cons_of_mem a h)
    refine ⟨b :: bs, ?_⟩
    rw [List.mapM_cons, hb, ok_bind, hbs]
    rfl

namespace Packet

/-- **What can be asked of a packet, and has an answer:** no byte is read or
written that is not there, and as many bytes are written as there are. -/
structure Sound (p : Packet) : Prop where
  /-- The bytes of every region are there. -/
  present : ∀ r ∈ p.allRegions, (r.bytes p.arena).length = r.length
  /-- So are the bytes that are read in one piece. -/
  frame : p.frameBytes.length = Region.totalLength p.wireRegions
  payload : ∀ depth, (p.payloadBytes depth).length
    = Layer.totalLength (p.layers.drop (depth + 1)) p.body
  recomputes : ∀ mode, ∃ q, p.recompute mode = .ok q
  serializes : ∀ mode, ∃ out, p.serialize mode = .ok out
  spells : ∃ bytes, p.toBytes = .ok bytes
  checks : ∃ valid, p.checksumValid = .ok valid
  checksLayer : ∀ depth, ∀ l ∈ p.layers, ∃ valid, p.layerChecksumValid depth l = .ok valid
  updates : ∃ q, p.updateFcs = .ok q
  pushes : ∀ payload, ∃ out, p.push payload = .ok out
  takes : ∀ depth c payload, p.open? depth = some c → ∃ out, c.setPayload payload = .ok out
  setsTcpOptions : ∀ depth c options, p.open? depth = some c →
    ∃ out, c.setTcpOptions options = .ok out
  setsIpv4Options : ∀ depth c options, p.open? depth = some c →
    ∃ out, c.setIpv4Options options = .ok out

variable {p : Packet}

theorem serialize_succeeds (laid : p.LaidOut) (total : ∀ l ∈ p.layers, l.dissector.Total)
    (mode : ChecksumMode) : ∃ out, p.serialize mode = .ok out := by
  obtain ⟨q, hq⟩ := recompute_succeeds laid total mode
  by_cases hstale : p.stale = true
  · have hfresh : p.refreshed mode = .ok q := by rw [refreshed, if_pos hstale, hq]
    exact ⟨_, serialize_of_refreshed hfresh⟩
  · have hfresh : p.refreshed mode = .ok p := by
      rw [refreshed, if_neg hstale]
      rfl
    exact ⟨_, serialize_of_refreshed hfresh⟩

theorem parent?_mem {depth : Nat} {l : Layer} (h : p.parent? depth = some l) : l ∈ p.layers := by
  cases depth with
  | zero => cases h
  | succ above => exact List.mem_of_getElem? h

theorem layerChecksumValid_succeeds (total : ∀ l ∈ p.layers, l.dissector.Total) (depth : Nat)
    {l : Layer} (listed : l ∈ p.layers) : ∃ valid, p.layerChecksumValid depth l = .ok valid := by
  have hlent : ∃ pseudo, p.lent (p.parent? depth) = .ok pseudo := by
    cases hparent : p.parent? depth with
    | none => exact ⟨none, rfl⟩
    | some above => exact (total above (parent?_mem hparent)).pseudoHeader _
  obtain ⟨pseudo, hpseudo⟩ := hlent
  unfold layerChecksumValid
  rw [hpseudo, ok_bind]
  exact (total l listed).checksumValid _ _

theorem checksumValid_succeeds (total : ∀ l ∈ p.layers, l.dissector.Total) :
    ∃ valid, p.checksumValid = .ok valid := by
  have heach : ∀ entry ∈ p.indexed, ∃ valid, p.layerChecksumValid entry.1 entry.2 = .ok valid :=
    fun entry listed => layerChecksumValid_succeeds total entry.1 (List.of_mem_zip listed).2
  obtain ⟨verdicts, hverdicts⟩ := mapM_succeeds heach
  refine ⟨verdicts.all (· != some false), ?_⟩
  show (p.indexed.mapM fun entry => p.layerChecksumValid entry.1 entry.2) >>= _ = _
  rw [hverdicts]
  rfl

theorem focus_mem {depth : Nat} {c : Cursor} (opened : p.open? depth = some c) :
    c.focus ∈ p.layers := by
  rw [← (Cursor.close_of_open opened).2.1]
  exact List.mem_append_right _ List.mem_cons_self

/-- What is inside some of the layers is laid out, if all is. -/
theorem laidOut_within (laid : p.LaidOut) (depth : Nat) :
    Region.LaidOut p.arena (Layer.wireRegions (p.layers.drop depth) p.body) := by
  have hregions : Region.LaidOut p.arena (Layer.wireRegions p.layers p.body) :=
    Region.LaidOut.left laid rfl
  rw [← List.take_append_drop depth p.layers, Layer.wireRegions_append] at hregions
  exact (hregions.left rfl).right rfl

/-- **A packet is sound** whose regions are laid out over its arena and whose
layers come from dissectors that keep their promises. -/
theorem Sound.of_total (laid : p.LaidOut) (total : ∀ l ∈ p.layers, l.dissector.Total) :
    p.Sound where
  present r hr := Region.length_bytes (laid.inside_of_mem hr)
  frame := by
    have hframe := Region.LaidOut.left laid rfl
    rw [frameBytes, hframe.joined_eq, hframe.length_concat]
  payload depth := by
    have hinside := laidOut_within laid (depth + 1)
    rw [payloadBytes, hinside.joined_eq, hinside.length_concat, Layer.totalLength]
  recomputes := recompute_succeeds laid total
  serializes := serialize_succeeds laid total
  spells := by
    obtain ⟨out, hout⟩ := serialize_succeeds laid total .fill
    exact ⟨out.1, by rw [toBytes, hout]; rfl⟩
  checks := checksumValid_succeeds total
  checksLayer depth l listed := layerChecksumValid_succeeds total depth listed
  updates := by
    obtain ⟨q, hq, _⟩ := updateFcs_spec laid
    exact ⟨q, hq⟩
  pushes payload := by
    unfold push
    split
    · exact ⟨_, rfl⟩
    · next c opened =>
      have hc := Cursor.close_laidOut_of_open laid opened
      obtain ⟨out, hout⟩ := Cursor.setPayload_answers hc (total _ (focus_mem opened)) payload
      rw [hout, ok_bind]
      cases out <;> exact ⟨_, rfl⟩
  takes depth c payload opened :=
    Cursor.setPayload_answers (Cursor.close_laidOut_of_open laid opened)
      (total _ (focus_mem opened)) payload
  setsTcpOptions depth c options opened :=
    Cursor.replaceOptions_succeeds (Cursor.close_laidOut_of_open laid opened)
      Tcp.lawful_headerLength (by decide) options
  setsIpv4Options depth c options opened :=
    Cursor.replaceOptions_succeeds (Cursor.close_laidOut_of_open laid opened)
      Ipv4.lawful_headerLength (by decide) options

end Packet

/-- The layers of a reachable packet come from dissectors of the library. -/
theorem Reachable.total {p : Packet} (h : Reachable (· ∈ Dissector.all) p) :
    ∀ l ∈ p.layers, l.dissector.Total := fun l listed =>
  (Dissector.lawful_of_mem_all
    (h.coherent.linked.known l.shape (List.mem_map_of_mem listed))).total

/-- **Every reachable packet is sound.** -/
theorem Reachable.sound {p : Packet} (h : Reachable (· ∈ Dissector.all) p) : p.Sound :=
  .of_total h.coherent.laidOut h.total

/-- **Nothing faults.**  Whatever the bytes of a header, its length is read from
bytes that are there, by dissectors and by the checks of header formats, and
every other question to a dissector of the library has an answer, with as many
bytes as there were where it writes; the header of an accepted datagram can be
taken off its length.  A registry of these dissectors decodes every buffer of
every link type.  And no operation faults on a packet that can come about. -/
theorem engine_never_faults :
    (∀ d ∈ Dissector.all, d.Total ∧ ∀ b, d.kind.measure b = .ok (d.headerLength b))
    ∧ (∀ t ∈ Listing.Table.all, t.format.Measured)
    ∧ (∀ h, Udp.format.accepts h = true → Udp.Layout.length.value h = 0
        ∨ Udp.headerLength ≤ (Udp.Layout.length.value h).toNat)
    ∧ (∀ r : Registry, r.Uses (· ∈ Dissector.all) → ∀ data hasFcs,
        (∀ link, ∃ out, r.decode link data hasFcs = .ok out)
        ∧ ∀ d ∈ Dissector.all, ∃ out, r.decodeLayer d data hasFcs = .ok out)
    ∧ ∀ p, Reachable (· ∈ Dissector.all) p → p.Sound :=
  ⟨fun d known => ⟨(Dissector.lawful_of_mem_all known).total, fun b => d.measure_eq b known⟩,
    fun t known => t.format_measured known,
    fun _ accepted => (Udp.accepts_iff.1 accepted).2,
    fun _ uses data hasFcs => ⟨fun link => Registry.decode_succeeds uses link data hasFcs,
      fun _ known => Registry.decodeLayer_succeeds uses known data hasFcs⟩,
    fun _ h => h.sound⟩

/-- An IPv4 header that states sixty bytes and is cut after three, a datagram
without a payload, and a buffer too short for its check sequence. -/
theorem engine_never_faults_cut_short :
    (Reachable (· ∈ Dissector.all) (.ofHeader Ipv4.dissector [0x4f, 0, 0xff])
      ∧ (Packet.ofHeader Ipv4.dissector [0x4f, 0, 0xff]).Sound)
    ∧ (Udp.format.accepts [0, 53, 0, 53, 0, 8, 0, 0] = true
      ∧ (Udp.Layout.length.value [0, 53, 0, 53, 0, 8, 0, 0] = 0
        ∨ Udp.headerLength ≤ (Udp.Layout.length.value [0, 53, 0, 53, 0, 8, 0, 0]).toNat))
    ∧ Registry.standard.Uses (· ∈ Dissector.all)
    ∧ ∃ out, Registry.standard.decode .ethernet [1, 2, 3] true = .ok out := by
  have reachable : Reachable (· ∈ Dissector.all) (.ofHeader Ipv4.dissector [0x4f, 0, 0xff]) :=
    .ofHeader (by simp [Dissector.all]) _
  have accepted : Udp.format.accepts [0, 53, 0, 53, 0, 8, 0, 0] = true := by decide
  obtain ⟨_, _, room, decodes, sound⟩ := engine_never_faults
  exact ⟨⟨reachable, sound _ reachable⟩, ⟨accepted, room _ accepted⟩, Registry.standard_uses,
    (decodes _ Registry.standard_uses [1, 2, 3] true).1 .ethernet⟩

end PacketLayers
