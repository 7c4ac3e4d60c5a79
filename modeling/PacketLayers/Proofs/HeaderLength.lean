/-
  PacketLayers.Proofs.HeaderLength
  ────────────────────────────────
  **A HEADER DECIDES WHERE IT ENDS.**

  Where a header ends is asked three times: by the dissector that cuts it off
  the front of some bytes, by the format that guards its fields, and by the
  pass over the layers, which gives it the length that its fields ask for.
  The three answers are one, and it is in the header itself:

    • `Table.check_eq_headerLength` — a format accepts what the dissector of
      its protocol can cut;
    • `Dissector.EndsAt` — all that is said about the end of a header;
    • `Dissector.endsAt_of_headerLength` — it is said of every header that can
      be cut;
    • `headerLength_decides` — and therefore of the layers of every decoded
      packet.
-/
import PacketLayers.Proofs.Safety
import PacketLayers.Proofs.Upfront
import PacketLayers.Proofs.Redecode

namespace PacketLayers

open Listing (Table)

/-! ## §1. What a measured length promises. -/

/-- A length that is read off some bytes ends inside them. -/
theorem measureFrom_le {least n : Nat} {stated : Bytes → Access (Except Error Nat)} {b : Bytes}
    (measured : measureFrom least stated b = .ok (.ok n)) : n ≤ b.length := by
  unfold measureFrom at measured
  split at measured
  · cases measured
  · obtain ⟨outcome, _, measured⟩ := bind_eq_ok.1 measured
    cases outcome with
    | error e => cases measured
    | ok m =>
      have hcut := Except.ok.inj measured
      split at hcut
      · cases hcut
      · next room =>
        obtain rfl := Except.ok.inj hcut
        exact Nat.le_of_not_lt room

theorem LayerKind.measure_le {kind : LayerKind} {b : Bytes} {n : Nat}
    (measured : kind.measure b = .ok (.ok n)) : n ≤ b.length := by
  cases kind with
  | custom name => cases measured
  | _ =>
    simp only [LayerKind.measure, measureFixed, measureWords] at measured
    exact measureFrom_le measured

/-- **A format accepts what a dissector can cut,** and refuses the rest for the
same reason. -/
theorem Listing.Table.check_eq_headerLength {t : Table} (listed : t ∈ Table.all) {d : Dissector}
    (known : d ∈ Dissector.all) (same : t.format.kind = d.kind) (b : Bytes) :
    t.format.check b = (d.headerLength b).map fun _ => () := by
  obtain ⟨length, hmeasure, hcheck⟩ := Listing.Table.format_measured listed b
  rw [same, Dissector.measure_eq b known] at hmeasure
  rw [hcheck, ← Except.ok.inj hmeasure]

theorem Listing.Table.accepts_iff_headerLength {t : Table} (listed : t ∈ Table.all) {d : Dissector}
    (known : d ∈ Dissector.all) (same : t.format.kind = d.kind) {b : Bytes} :
    t.format.accepts b = true ↔ ∃ n, d.headerLength b = .ok n := by
  rw [HeaderFormat.accepts_iff, Table.check_eq_headerLength listed known same]
  cases d.headerLength b with
  | error e => simp only [Except.map, reduceCtorEq, exists_const]
  | ok n => simp only [Except.map, Except.ok.injEq, exists_eq']

namespace Dissector

variable {d : Dissector} {h data : Bytes} {n : Nat}

/-! ## §2. Where a header ends. -/

/-- Every header has bytes, except that of raw IP. -/
theorem nonempty_of_whole (known : d ∈ all) (filled : d.kind ≠ .rawIp) (whole : d.Whole h) :
    h ≠ [] := by
  cases known using Dissector.all_cases with
  | ethernet => exact Ethernet.legible.nonempty whole
  | vlan => exact Vlan.legible.nonempty whole
  | arp => exact Arp.legible.nonempty whole
  | ipv4 => exact Ipv4.legible.nonempty whole
  | ipv6 => exact Ipv6.legible.nonempty whole
  | tcp => exact Tcp.legible.nonempty whole
  | udp => exact Udp.legible.nonempty whole
  | icmpv4 => exact Icmpv4.legible.nonempty whole
  | icmpv6 => exact Icmpv6.legible.nonempty whole
  | igmp => exact Igmp.legible.nonempty whole
  | gre => exact Gre.legible.nonempty whole
  | loopback => exact Loopback.legible.nonempty whole
  | rawIp => exact absurd rfl filled
  | wireless => exact Wireless.legible.nonempty whole
  | llc => exact Llc.legible.nonempty whole

/-- **The first `n` bytes are a header,** whoever is asked, and whatever is
behind them. -/
structure EndsAt (d : Dissector) (data : Bytes) (n : Nat) : Prop where
  inside : n ≤ data.length
  /-- The header alone is as long.  Raw IP has none, and wants a byte behind
  it. -/
  alone : d.kind ≠ .rawIp → d.headerLength (data.take n) = .ok n
  /-- So is the header in front of any bytes. -/
  followed : ∀ rest, (d.kind = .rawIp → rest ≠ []) → d.headerLength (data.take n ++ rest) = .ok n
  /-- Its fields ask for no other length. -/
  required : d.requiredLength (data.take n) = .ok none
    ∨ d.requiredLength (data.take n) = .ok (some n)
  /-- The format of the protocol accepts it. -/
  accepted : ∀ t ∈ Table.all, t.format.kind = d.kind → t.format.accepts (data.take n) = true

/-- A whole header that asks for a length asks for its own. -/
theorem requiredLength_of_whole (lawful : d.Lawful) (whole : d.Whole h) :
    d.requiredLength h = .ok none ∨ d.requiredLength h = .ok (some h.length) := by
  obtain ⟨asked, hasked⟩ := lawful.total.requiredLength h
  cases asked with
  | none => exact .inl hasked
  | some size =>
    -- the pass leaves the header as it is, so the length it gives is the one there
    have hfit := (fit_eq_resize hasked).symm.trans (lawful.whole_fits whole)
    have hlength : size = h.length := by
      rw [← Bytes.length_resize h size, Except.ok.inj hfit]
    exact .inr (hlength ▸ hasked)

/-- **Where a dissector ends a header,** everything else ends it. -/
theorem endsAt_of_headerLength (known : d ∈ all) (cut : d.headerLength data = .ok n) :
    d.EndsAt data n := by
  have inside : n ≤ data.length :=
    LayerKind.measure_le ((measure_eq data known).trans (congrArg Except.ok cut))
  have hlength : (data.take n).length = n := List.length_take_of_le inside
  have hfront : d.headerLength (data.take n ++ data.drop n) = .ok (data.take n).length := by
    rw [List.take_append_drop, hlength, cut]
  have whole : d.Whole (data.take n) := ⟨data.drop n, hfront⟩
  -- only raw IP, whose header is empty, asks whether anything follows
  have followed : ∀ rest, (d.kind = .rawIp → rest ≠ []) →
      d.headerLength (data.take n ++ rest) = .ok n := by
    intro rest behind
    have something : data.take n ++ rest ≠ [] := by
      intro nothing
      obtain ⟨hnone, hrest⟩ := List.append_eq_nil_iff.1 nothing
      by_cases raw : d.kind = .rawIp
      · exact behind raw hrest
      · exact nonempty_of_whole known raw whole hnone
    rw [(upfront_of_mem_all known).reads hfront something, hlength]
  have alone : d.kind ≠ .rawIp → d.headerLength (data.take n) = .ok n := by
    intro filled
    have hnothing := followed [] fun raw => absurd raw filled
    rwa [List.append_nil] at hnothing
  refine ⟨inside, alone, followed, ?_, fun t listed same => ?_⟩
  · have hrequired := requiredLength_of_whole (lawful_of_mem_all known) whole
    rwa [hlength] at hrequired
  · have filled : d.kind ≠ .rawIp := by
      rw [← same]
      cases listed using Table.all_cases <;> exact LayerKind.noConfusion
    exact (Table.accepts_iff_headerLength listed known same).2 ⟨n, alone filled⟩

end Dissector

/-! ## §3. Decoded packets. -/

namespace Registry

variable {r : Registry} {d : Dissector} {origin : Option Discriminant} {data : Bytes}
  {hasFcs : Bool} {out : Decoding} {p : Packet}

section Known

variable (uses : r.Uses (· ∈ Dissector.all)) (root : d ∈ Dissector.all)
  (h : r.decodeFrom d origin data hasFcs = .ok out) (hp : out.packet? = some p)

include h hp

/-- Every layer of a decoded packet was cut out of its buffer. -/
theorem cut_of_decodeFrom {l : Layer} (inside : l ∈ p.layers) :
    l.header = .shared l.headerSpan
      ∧ ∃ span, Cut data l.dissector span l.headerSpan l.payloadSpan l.paddingSpan := by
  obtain ⟨depth, hdepth⟩ := List.mem_iff_getElem?.1 inside
  rcases decodeFrom_eq_ok.1 h with ⟨e, _, rfl⟩ | ⟨frame, fcs, branch, _, found, rfl⟩
  · cases hp
  rw [Branch.packet?_decoding] at hp
  obtain rfl := Option.some.inj hp
  have follows := found.follows depth l hdepth
  exact ⟨follows.shared.1, _, follows.cut⟩

include uses root

/-- The header of a decoded layer is whole, and its protocol is known. -/
theorem whole_of_decodeFrom {l : Layer} (inside : l ∈ p.layers) :
    l.dissector ∈ Dissector.all ∧ l.dissector.Whole (p.header l) := by
  obtain ⟨hshared, span, cut⟩ := cut_of_decodeFrom h hp inside
  have coherent := Packet.Coherent.of_decoded uses root h hp
  refine ⟨coherent.linked.known _ (List.mem_map_of_mem inside), ?_⟩
  rw [Packet.header, (tiles_of_decodeFrom h hp).1, hshared, Region.bytes_shared (header_inside cut)]
  exact whole_of_cut cut

/-- The format of its protocol accepts the header of a decoded layer. -/
theorem accepts_of_decodeFrom {l : Layer} (inside : l ∈ p.layers) {t : Table}
    (listed : t ∈ Table.all) (same : l.kind = t.format.kind) :
    t.format.accepts (p.header l) = true := by
  obtain ⟨known, rest, hrest⟩ := whole_of_decodeFrom uses root h hp inside
  have haccepted := (Dissector.endsAt_of_headerLength known hrest).accepted t listed same.symm
  rwa [List.take_left] at haccepted

/-- **The header of the outermost layer of a protocol is found.** -/
theorem extract?_decoded {t : Table} (listed : t ∈ Table.all) :
    p.extract? t.format = (p.layers.find? (·.kind == t.format.kind)).map p.header := by
  unfold Packet.extract?
  cases hfind : p.layers.find? (·.kind == t.format.kind) with
  | none => rfl
  | some l =>
    have hkind := List.find?_some hfind
    have same : l.kind = t.format.kind := eq_of_beq hkind
    exact if_pos (accepts_of_decodeFrom uses root h hp (List.mem_of_find?_eq_some hfind) listed
      same)

/-- **No header gets another length** when a decoded packet is brought up to
date. -/
theorem recompute_keeps_lengths (mode : ChecksumMode) :
    ∃ q, p.recompute mode = .ok q ∧ q.layers = p.layers
      ∧ ∀ l ∈ p.layers, (q.header l).length = (p.header l).length := by
  obtain ⟨q, hq, hsame, hlength, _⟩ := decodeFrom_recomputed
    (fun _ => Dissector.steady_of_mem_all) uses root h hp mode
  have harena := (tiles_of_decodeFrom h hp).1
  refine ⟨q, hq, by rw [hsame], fun l inside => ?_⟩
  obtain ⟨hshared, span, cut⟩ := cut_of_decodeFrom h hp inside
  -- the header is the same part of two buffers of one length
  have hinside : ∀ arena : Bytes, arena.length = data.length →
      (l.header.bytes arena).length = l.headerSpan.length := by
    intro arena same
    have hstop : l.headerSpan.stop ≤ arena.length := same ▸ header_inside cut
    rw [hshared, Region.bytes_shared hstop, Span.length_bytesOf hstop]
  rw [Packet.header, Packet.header, hinside _ hlength, hinside _ (congrArg List.length harena)]

end Known

end Registry

/-- **A header decides where it ends.**  Of every protocol and all bytes that
begin with a header of it: the header lies inside the bytes, is as long when it
stands alone or in front of other bytes, asks for no other length, and is
accepted by the format of its protocol.  So no header of a decoded packet gets
another length when the packet is brought up to date, every one of them is
accepted by the format of its protocol, and asking a decoded packet for the
header of a protocol finds that of the outermost such layer. -/
theorem headerLength_decides :
    (∀ d ∈ Dissector.all, ∀ data n, d.headerLength data = .ok n → d.EndsAt data n)
    ∧ ∀ (r : Registry) (d : Dissector) (origin : Option Discriminant) (data : Bytes)
        (hasFcs : Bool) (out : Decoding) (p : Packet), r.Uses (· ∈ Dissector.all) →
      d ∈ Dissector.all → r.decodeFrom d origin data hasFcs = .ok out → out.packet? = some p →
        (∀ mode, ∃ q, p.recompute mode = .ok q ∧ q.layers = p.layers
          ∧ ∀ l ∈ p.layers, (q.header l).length = (p.header l).length)
        ∧ (∀ t ∈ Table.all, ∀ l ∈ p.layers, l.kind = t.format.kind →
          t.format.accepts (p.header l) = true)
        ∧ ∀ t ∈ Table.all, p.extract? t.format
          = (p.layers.find? (·.kind == t.format.kind)).map p.header := by
  refine ⟨fun d known data n cut => Dissector.endsAt_of_headerLength known cut, ?_⟩
  intro r d origin data hasFcs out p uses root h hp
  exact ⟨Registry.recompute_keeps_lengths uses root h hp,
    fun t listed l inside same => Registry.accepts_of_decodeFrom uses root h hp inside listed same,
    fun t listed => Registry.extract?_decoded uses root h hp listed⟩

/-- A control field of two bytes makes a header of four; and of a wireless frame
that holds a SNAP header, which is cut short, the one header is found. -/
theorem headerLength_decides_control :
    Llc.dissector.headerLength [0x42, 0x42, 0, 0x10, 1, 2] = .ok 4
      ∧ Llc.dissector.EndsAt [0x42, 0x42, 0, 0x10, 1, 2] 4
      ∧ ∃ p, Registry.standard.decodeFrom Wireless.dissector none
          (0x08 :: List.replicate 23 0 ++ [0xaa, 0xaa, 0x03]) false = .ok (.stopped .truncated p)
        ∧ p.extract? Wireless.format = some (0x08 :: List.replicate 23 0)
        ∧ p.extract? Llc.format = none := by
  have hcut : Llc.dissector.headerLength [0x42, 0x42, 0, 0x10, 1, 2] = .ok 4 := by decide
  obtain ⟨p, hp⟩ : ∃ p, Registry.standard.decodeFrom Wireless.dissector none
    (0x08 :: List.replicate 23 0 ++ [0xaa, 0xaa, 0x03]) false = .ok (.stopped .truncated p) :=
    ⟨_, rfl⟩
  obtain ⟨ends, packets⟩ := headerLength_decides
  obtain ⟨_, _, finds⟩ := packets _ _ _ _ _ _ p Registry.standard_uses (by simp [Dissector.all]) hp
    rfl
  have hwireless := finds Wireless.table (by simp [Table.all])
  have hllc := finds Llc.table (by simp [Table.all])
  obtain rfl := (Decoding.stopped.inj (Except.ok.inj hp)).2
  exact ⟨hcut, ends _ (by simp [Dissector.all]) _ _ hcut, _, hp, hwireless, hllc⟩

end PacketLayers
