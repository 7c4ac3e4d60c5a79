/-
  PacketLayers.Proofs.Bits
  ────────────────────────────────
  **A HEADER IS ONE NUMBER.**

  Fields of a header may share bytes, and need not be written in the order in
  which they lie.  Neither matters once the header is read as one number, most
  significant byte first: a field is then a run of bits of that number, and
  writing it puts a value into the run.

    • `IsRun` — the field is a run of bits of its window;
    • `IsRun.value_ofNat`, `IsRun.put_ofNat` — and so of the whole header;
    • `Run.putAll` — the runs of a header, in the order they are written;
    • `Run.lastAt?` — what they leave in a field;
    • `Written` — how a buffer is written, field by field;
    • `Written.eq_ok_of_tile` — a buffer of which every bit is written does not
      show;
    • `roundTrips_of_runs` — contents whose runs are read again come back.
-/
import PacketLayers.Proofs.Field

namespace PacketLayers

/-! ## §1. Parts of a number. -/

namespace Bytes

theorem drop_ofNat (size value k : Nat) : (ofNat size value).drop k = ofNat (size - k) value := by
  induction k generalizing size with
  | zero => rfl
  | succ k ih =>
    cases size with
    | zero => rw [Nat.zero_sub]; rfl
    | succ size => rw [ofNat, List.drop_succ_cons, ih, Nat.add_sub_add_right]

theorem take_ofNat {size k : Nat} (inside : k ≤ size) (value : Nat) :
    (ofNat size value).take k = ofNat k (value / 256 ^ (size - k)) := by
  induction k generalizing size with
  | zero => rfl
  | succ k ih =>
    cases size with
    | zero => omega
    | succ size =>
      have hrest : k ≤ size := Nat.le_of_succ_le_succ inside
      have hpower : 256 ^ (size - k) * 256 ^ k = 256 ^ size := by
        rw [← Nat.pow_add, Nat.sub_add_cancel hrest]
      rw [ofNat_succ, ofNat_succ, List.take_succ_cons, ih hrest, Nat.add_sub_add_right,
        Nat.div_div_eq_div_mul, hpower]

theorem ofNat_mod (size value : Nat) : ofNat size (value % 256 ^ size) = ofNat size value := by
  have h := ofNat_toNat (ofNat size value)
  rwa [length_ofNat, toNat_ofNat] at h

/-- Bytes show only the bits that they have room for. -/
theorem ofNat_congr {size m n : Nat} (same : ∀ i, i < 8 * size → m.testBit i = n.testBit i) :
    ofNat size m = ofNat size n := by
  have hmod : m % 256 ^ size = n % 256 ^ size := by
    rw [← two_pow_eight_mul]
    refine Nat.eq_of_testBit_eq fun i => ?_
    rw [Nat.testBit_mod_two_pow, Nat.testBit_mod_two_pow]
    by_cases inside : i < 8 * size
    · rw [same i inside]
    · simp [inside]
  rw [← ofNat_mod size m, hmod, ofNat_mod]

end Bytes

/-! ## §2. Fields as runs of bits. -/

namespace Field

/-- A run of bits of a run of bits. -/
theorem bitsOf_bitsOf (n low width : Nat) {low' width' : Nat} (inside : low' + width' ≤ width) :
    bitsOf (bitsOf n low width) low' width' = bitsOf n (low + low') width' := by
  refine Nat.eq_of_testBit_eq fun i => ?_
  simp only [testBit_bitsOf]
  by_cases hi : i < width'
  · rw [decide_eq_true (show low' + i < width by omega), Bool.true_and, Nat.add_assoc]
  · simp [hi]

variable {α β : Type} {f : Field α} {low width : Nat} {read : Nat → α} {write : α → Nat}

/-- **The field is a run of bits** of the number in its window; values are read
from and written as the number in the run. -/
structure IsRun (f : Field α) (low width : Nat) (read : Nat → α) (write : α → Nat) : Prop where
  room : low + width ≤ 8 * f.size
  decode_eq : ∀ w, w.length = f.size → f.decode w = read (bitsOf (Bytes.toNat w) low width)
  encode_eq : ∀ v w, w.length = f.size →
    f.encode v w = Bytes.ofNat f.size (putBits (Bytes.toNat w) low width (write v))

theorem isRun_bits (α : Type) [Coded α] (first : Nat) {size low width : Nat}
    (room : low + width ≤ 8 * size) :
    (bits α first size low width).IsRun low width Coded.ofNat Coded.toNat where
  room := room
  decode_eq _ _ := rfl
  encode_eq _ _ _ := rfl

/-- A window that is written as a whole is a run of all its bits. -/
theorem isRun_whole {read : Nat → α} {write : α → Nat}
    (decode : ∀ w, w.length = f.size → f.decode w = read (Bytes.toNat w))
    (encode : ∀ v w, w.length = f.size → f.encode v w = Bytes.ofNat f.size (write v)) :
    f.IsRun 0 (8 * f.size) read write where
  room := Nat.le_of_eq (Nat.zero_add _)
  decode_eq w length := by
    have hlt := Bytes.toNat_lt w
    rw [length, ← Bytes.two_pow_eight_mul] at hlt
    rw [decode w length, bitsOf_eq, Nat.pow_zero, Nat.div_one, Nat.mod_eq_of_lt hlt]
  encode_eq v w length := by
    rw [encode v w length]
    refine Bytes.ofNat_congr fun i inside => ?_
    rw [testBit_putBits, if_pos ⟨Nat.zero_le i, by omega⟩, Nat.sub_zero]

theorem isRun_word (α : Type) [Coded α] (first size : Nat) :
    (word α first size).IsRun 0 (8 * size) Coded.ofNat Coded.toNat :=
  isRun_whole (f := word α first size) (fun _ _ => rfl) fun _ _ _ => rfl

theorem isRun_octets (first n : Nat) :
    (octets first n).IsRun 0 (8 * n) (Octets.ofNat n) Octets.toNat := by
  refine isRun_whole (f := octets first n) (fun w length => ?_) fun v _ _ => ?_
  · obtain rfl : w.length = n := length
    have hnumber : Octets.ofNat w.length (Bytes.toNat w) = ⟨w, rfl⟩ := by
      rw [Octets.ofNat, Octets.mk.injEq]
      exact Bytes.ofNat_toNat w
    rw [hnumber]
    exact Octets.fit_bytes ⟨w, rfl⟩
  · obtain ⟨b, rfl⟩ := v
    exact (Bytes.ofNat_toNat b).symm

theorem IsRun.map (run : f.IsRun low width read write) (read' : α → β) (write' : β → α) :
    (f.map read' write').IsRun low width (fun n => read' (read n)) (fun v => write (write' v)) where
  room := run.room
  decode_eq w length := congrArg read' (run.decode_eq w length)
  encode_eq v w length := run.encode_eq (write' v) w length

namespace IsRun

theorem lawful (run : f.IsRun low width read write) : f.Lawful where
  length_encode v w length := by rw [run.encode_eq v w length, Bytes.length_ofNat]
  encode_encode u v w length := by
    have hu : (f.encode u w).length = f.size := by
      rw [run.encode_eq u w length, Bytes.length_ofNat]
    rw [run.encode_eq v _ hu, run.encode_eq u w length, run.encode_eq v w length,
      Bytes.toNat_ofNat]
    refine Bytes.ofNat_congr fun i inside => ?_
    -- inside the run the last value counts, and outside both are the window
    rw [testBit_putBits, testBit_putBits, ← Bytes.two_pow_eight_mul, Nat.testBit_mod_two_pow,
      testBit_putBits, decide_eq_true inside, Bool.true_and]
    split <;> rfl

variable {size n : Nat}

theorem window_ofNat (inside : f.stop ≤ size) (n : Nat) :
    f.window (Bytes.ofNat size n) = Bytes.ofNat f.size (n / 2 ^ (8 * (size - f.stop))) := by
  unfold stop at inside ⊢
  have hback : size - f.first - f.size = size - (f.first + f.size) := Nat.sub_sub _ _ _
  rw [window, Bytes.drop_ofNat, Bytes.take_ofNat (by omega), Bytes.two_pow_eight_mul, hback]

/-- **Reading a header** takes the run out of its number. -/
theorem value_ofNat (run : f.IsRun low width read write) (inside : f.stop ≤ size) (n : Nat) :
    f.value (Bytes.ofNat size n) = read (bitsOf n (8 * (size - f.stop) + low) width) := by
  have hlength : (f.window (Bytes.ofNat size n)).length = f.size := by
    rw [window_ofNat inside, Bytes.length_ofNat]
  rw [value_eq, run.decode_eq _ hlength, window_ofNat inside, Bytes.toNat_ofNat,
    ← Bytes.two_pow_eight_mul]
  have hroom := run.room
  refine congrArg read (Nat.eq_of_testBit_eq fun i => ?_)
  rw [testBit_bitsOf, testBit_bitsOf, Nat.testBit_mod_two_pow, Nat.testBit_div_two_pow]
  by_cases hi : i < width
  · rw [decide_eq_true (show low + i < 8 * f.size by omega), Bool.true_and]
    congr 2
    omega
  · simp [hi]

/-- **Writing a header** puts the value into the run of its number. -/
theorem put_ofNat (run : f.IsRun low width read write) (inside : f.stop ≤ size) (n : Nat) (v : α) :
    f.put v (Bytes.ofNat size n)
      = Bytes.ofNat size (putBits n (8 * (size - f.stop) + low) width (write v)) := by
  have hroom := run.room
  have hlength : (f.window (Bytes.ofNat size n)).length = f.size := by
    rw [window_ofNat inside, Bytes.length_ofNat]
  have hstop : f.stop = f.first + f.size := rfl
  -- the new header, cut at both ends of the window
  have hcut (m : Nat) : Bytes.ofNat size m
      = Bytes.ofNat f.first (m / 2 ^ (8 * (size - f.first)))
        ++ f.window (Bytes.ofNat size m) ++ Bytes.ofNat (size - f.stop) m := by
    have hfront := Bytes.take_ofNat (show f.first ≤ size by omega) m
    have hback := Bytes.drop_ofNat size m f.stop
    rw [Bytes.two_pow_eight_mul, ← hfront, ← hback, List.append_assoc, window, stop,
      ← List.drop_drop, List.take_append_drop, List.take_append_drop]
  rw [put, Bytes.take_ofNat (by omega), Bytes.drop_ofNat, ← Bytes.two_pow_eight_mul,
    run.encode_eq v _ hlength, window_ofNat inside, Bytes.toNat_ofNat, ← Bytes.two_pow_eight_mul,
    hcut (putBits n _ width (write v)), window_ofNat inside]
  congr 1
  · congr 1
    · -- in front of the window
      refine Bytes.ofNat_congr fun i _ => ?_
      rw [Nat.testBit_div_two_pow, Nat.testBit_div_two_pow, testBit_putBits, if_neg (by omega)]
    · -- the window itself
      refine Bytes.ofNat_congr fun i hi => ?_
      rw [testBit_putBits, Nat.testBit_mod_two_pow, Nat.testBit_div_two_pow,
        Nat.testBit_div_two_pow, testBit_putBits, decide_eq_true hi, Bool.true_and]
      by_cases inRun : low ≤ i ∧ i < low + width
      · rw [if_pos inRun, if_pos (by omega)]
        congr 1
        omega
      · rw [if_neg inRun, if_neg (by omega)]
  · -- behind the window
    refine Bytes.ofNat_congr fun i hi => ?_
    rw [testBit_putBits, if_neg (by omega)]

end IsRun

end Field

/-! ## §3. The runs of a header. -/

/-- A run of bits of a number, counted from the last one, and the value put
there. -/
structure Run where
  low : Nat
  width : Nat
  value : Nat

namespace Run

open PacketLayers.Field

/-- The number with the value in the run. -/
def put (n : Nat) (r : Run) : Nat := putBits n r.low r.width r.value

/-- The number with the values in the runs, one after the other. -/
def putAll (runs : List Run) (n : Nat) : Nat := runs.foldl put n

/-- The bytes that the runs make out of nothing. -/
def bytes (size : Nat) (runs : List Run) : Bytes := Bytes.ofNat size (putAll runs 0)

/-- A bit that belongs to some run. -/
def Covers : List Run → Nat → Prop
  | [], _ => False
  | r :: rest, i => (r.low ≤ i ∧ i < r.low + r.width) ∨ Covers rest i

/-- Every bit of the bytes belongs to some run. -/
def Tile (size : Nat) (runs : List Run) : Prop := ∀ i, i < 8 * size → Covers runs i

/-- Runs and others behind them cover what either of them covers. -/
theorem covers_append {runs more : List Run} {i : Nat} :
    Covers (runs ++ more) i ↔ Covers runs i ∨ Covers more i := by
  induction runs with
  | nil => exact (or_iff_right id).symm
  | cons r rest ih => rw [List.cons_append, Covers, Covers, ih, or_assoc]

/-- A bit is that of the last run that has it, or of the old number. -/
theorem testBit_putAll_congr {runs : List Run} {i m n : Nat}
    (same : Covers runs i ∨ m.testBit i = n.testBit i) :
    (putAll runs m).testBit i = (putAll runs n).testBit i := by
  induction runs generalizing m n with
  | nil => exact same.resolve_left id
  | cons r rest ih =>
    refine ih ?_
    rcases same with (here | later) | old
    · exact .inr (by rw [put, put, testBit_putBits, testBit_putBits, if_pos here, if_pos here])
    · exact .inl later
    · exact .inr (by rw [put, put, testBit_putBits, testBit_putBits, old])

/-- **Where all bits are written** the old number does not show. -/
theorem ofNat_putAll_of_tile {runs : List Run} {size : Nat} (tile : Tile size runs) (n : Nat) :
    Bytes.ofNat size (putAll runs n) = bytes size runs :=
  Bytes.ofNat_congr fun i inside => testBit_putAll_congr (.inl (tile i inside))

/-- The run lies apart from some other bits. -/
def Apart (r : Run) (low width : Nat) : Prop := low + width ≤ r.low ∨ r.low + r.width ≤ low

instance (r : Run) (low width : Nat) : Decidable (r.Apart low width) :=
  inferInstanceAs (Decidable (_ ∨ _))

/-- The value that was last put into exactly these bits, if nothing else was
put into any of them later. -/
def lastAt? (low width : Nat) : List Run → Option Nat
  | [] => none
  | r :: rest =>
    if ∀ s ∈ rest, s.Apart low width then
      if r.low = low ∧ r.width = width then some r.value else none
    else lastAt? low width rest

theorem bitsOf_putAll_of_apart {runs : List Run} {low width : Nat}
    (apart : ∀ r ∈ runs, r.Apart low width) (n : Nat) :
    bitsOf (putAll runs n) low width = bitsOf n low width := by
  induction runs generalizing n with
  | nil => rfl
  | cons r rest ih =>
    have hrest := ih (fun s later => apart s (List.mem_cons_of_mem r later)) (put n r)
    exact hrest.trans (bitsOf_putBits_of_apart _ _ (apart r List.mem_cons_self))

/-- Runs elsewhere do not change it. -/
theorem lastAt?_append {runs more : List Run} {low width v : Nat}
    (apart : ∀ s ∈ more, s.Apart low width) (last : lastAt? low width runs = some v) :
    lastAt? low width (runs ++ more) = some v := by
  induction runs with
  | nil => cases last
  | cons r rest ih =>
    have hsame : (∀ t ∈ rest ++ more, t.Apart low width) ↔ ∀ t ∈ rest, t.Apart low width := by
      simp only [List.mem_append]
      exact ⟨fun all t known => all t (.inl known), fun all t => Or.rec (all t) (apart t)⟩
    rw [List.cons_append, lastAt?]
    rw [lastAt?] at last
    by_cases later : ∀ t ∈ rest, t.Apart low width
    · rw [if_pos (hsame.2 later)]
      rwa [if_pos later] at last
    · rw [if_neg (mt hsame.1 later)]
      rw [if_neg later] at last
      exact ih last

/-- The last run holds its own value. -/
theorem lastAt?_concat (runs : List Run) {s : Run} (some_bit : 0 < s.width) :
    lastAt? s.low s.width (runs ++ [s]) = some s.value := by
  induction runs with
  | nil => simp [lastAt?]
  | cons r rest ih =>
    have hreaches : ¬ ∀ t ∈ rest ++ [s], t.Apart s.low s.width := by
      intro all
      have hself := all s (List.mem_append_right rest (List.mem_singleton.2 rfl))
      unfold Apart at hself
      omega
    rw [List.cons_append, lastAt?, if_neg hreaches, ih]

/-- The last value is what is there. -/
theorem bitsOf_putAll {runs : List Run} {low width v : Nat} (last : lastAt? low width runs = some v)
    (n : Nat) : bitsOf (putAll runs n) low width = v % 2 ^ width := by
  induction runs generalizing n with
  | nil => cases last
  | cons r rest ih =>
    by_cases apart : ∀ s ∈ rest, s.Apart low width
    · rw [lastAt?, if_pos apart] at last
      split at last
      · next same =>
        obtain ⟨rfl, rfl⟩ := same
        obtain rfl := Option.some.inj last
        exact (bitsOf_putAll_of_apart apart _).trans (bitsOf_putBits n _ _ _)
      · cases last
    · rw [lastAt?, if_neg apart] at last
      exact ih last (put n r)

end Run

/-! ## §4. Writing over a buffer. -/

/-- A buffer of so many bytes in which the runs were written. -/
def Written (size : Nat) (runs : List Run) (buffer : Bytes) (x : Access Bytes) : Prop :=
  x = .ok (Bytes.ofNat size (Run.putAll runs (Bytes.toNat buffer)))

namespace Written

open PacketLayers.Field

variable {size : Nat} {runs : List Run} {buffer : Bytes} {x : Access Bytes}

theorem start (length : buffer.length = size) : Written size [] buffer (.ok buffer) := by
  rw [Written, ← length, Run.putAll, List.foldl, Bytes.ofNat_toNat]

/-- **One more field.** -/
theorem set (written : Written size runs buffer x) {α : Type} {f : Field α} {low width : Nat}
    {read : Nat → α} {write : α → Nat} (run : f.IsRun low width read write)
    (inside : f.stop ≤ size) (v : α) :
    Written size (runs ++ [⟨8 * (size - f.stop) + low, width, write v⟩]) buffer
      (x >>= f.set v) := by
  have hcovers : f.stop ≤ (Bytes.ofNat size (Run.putAll runs (Bytes.toNat buffer))).length := by
    rw [Bytes.length_ofNat]
    exact inside
  unfold Written at written ⊢
  rw [written, ok_bind, set_eq_put run.lawful hcovers, run.put_ofNat inside, Run.putAll,
    Run.putAll, List.foldl_append]
  rfl

/-- Any further step, on what was written so far. -/
theorem bind (written : Written size runs buffer x) {more : List Run} {g : Bytes → Access Bytes}
    (next : Written size more buffer (g (Bytes.ofNat size (Run.putAll runs (Bytes.toNat buffer))))) :
    Written size more buffer (x >>= g) := by
  unfold Written at written
  rw [written, ok_bind]
  exact next

/-- If every bit was written, the buffer does not show. -/
theorem eq_ok_of_tile (written : Written size runs buffer x) (tile : Run.Tile size runs) :
    x = .ok (Run.bytes size runs) := by
  rw [written, Run.ofNat_putAll_of_tile tile]

end Written

/-! ## §5. Values that are read back. -/

namespace Field

variable {α : Type} {f : Field α} {low width : Nat} {read : Nat → α} {write : α → Nat}

/-- A value that a run of some width has room for. -/
def Keeps (width : Nat) (read : Nat → α) (write : α → Nat) (v : α) : Prop :=
  read (write v % 2 ^ width) = v

theorem keeps_of_fits [Coded α] {size : Nat} (fits : Fits α (256 ^ size)) (v : α) :
    Keeps (8 * size) Coded.ofNat Coded.toNat v := by
  rw [Keeps, Bytes.two_pow_eight_mul, Nat.mod_eq_of_lt (fits v).1]
  exact (fits v).2

/-- A value of a number space, if it is read as it was written. -/
theorem keeps_assigned {κ : Type} [Assigned α κ] [DecidableEq κ] [Coded κ] {size : Nat}
    (fits : Fits κ (256 ^ size)) {v : α} (canonical : Assigned.canonical v = v) :
    Keeps (8 * size) Coded.ofNat Coded.toNat v := by
  rw [Keeps, Bytes.two_pow_eight_mul, ofNat_toNat_assigned fits, canonical]

theorem keeps_byte (v : UInt8) : Keeps 8 Coded.ofNat Coded.toNat v :=
  @keeps_of_fits UInt8 _ 1 fits_byte v

theorem keeps_word (v : UInt16) : Keeps 16 Coded.ofNat Coded.toNat v :=
  @keeps_of_fits UInt16 _ 2 fits_word v

theorem keeps_double (v : UInt32) : Keeps 32 Coded.ofNat Coded.toNat v :=
  @keeps_of_fits UInt32 _ 4 (fun v => ⟨v.toNat_lt, UInt32.ofNat_toNat⟩) v

theorem keeps_octets {n : Nat} (a : Octets n) : Keeps (8 * n) (Octets.ofNat n) Octets.toNat a := by
  obtain ⟨b, rfl⟩ := a
  have hlt := Bytes.toNat_lt b
  rw [← Bytes.two_pow_eight_mul] at hlt
  show Octets.ofNat b.length (Bytes.toNat b % _) = _
  rw [Nat.mod_eq_of_lt hlt, Octets.ofNat, Octets.mk.injEq]
  exact Bytes.ofNat_toNat b

/-- There is room for what was read from a run of that width. -/
theorem IsRun.keeps_value (run : f.IsRun low width read write) {h : Bytes}
    (covers : f.stop ≤ h.length) (whole : ∀ n, n < 2 ^ width → write (read n) = n) :
    Keeps width read write (f.value h) := by
  have hlt : bitsOf (Bytes.toNat (f.window h)) low width < 2 ^ width := by
    rw [bitsOf_eq]
    exact Nat.mod_lt _ (Nat.two_pow_pos width)
  rw [Keeps, value_eq, run.decode_eq _ (length_window covers), whole _ hlt, Nat.mod_eq_of_lt hlt]

/-- A field reads what was last put into its run. -/
theorem IsRun.value_putAll (run : f.IsRun low width read write) {size : Nat}
    (inside : f.stop ≤ size) {v : α} (keeps : Keeps width read write v) {runs : List Run}
    (last : Run.lastAt? (8 * (size - f.stop) + low) width runs = some (write v)) (n : Nat) :
    f.value (Bytes.ofNat size (Run.putAll runs n)) = v := by
  rw [run.value_ofNat inside, Run.bitsOf_putAll last, keeps]

theorem IsRun.value_bytes (run : f.IsRun low width read write) {size : Nat}
    (inside : f.stop ≤ size) {v : α} (keeps : Keeps width read write v) {runs : List Run}
    (last : Run.lastAt? (8 * (size - f.stop) + low) width runs = some (write v)) :
    f.value (Run.bytes size runs) = v := run.value_putAll inside keeps last 0

end Field

/-! ## §6. Contents that come back. -/

section RoundTrips

variable {ρ ε : Type} {parse : Bytes → Except Error ρ} {size : ρ → Nat}

/-- **What was read comes back.**  For all contents that are read from any
bytes there is one header, of the length that the contents state, which is what
is written for them over any buffer of that length, and which is read as these
contents. -/
def RoundTrips (parse : Bytes → Except Error ρ) (size : ρ → Nat)
    (emit : ρ → Bytes → Except ε Bytes) : Prop :=
  ∀ data r, parse data = .ok r → ∃ header : Bytes, header.length = size r
    ∧ (∀ buffer : Bytes, buffer.length = size r → emit r buffer = .ok header)
    ∧ parse header = .ok r

/-- Contents come back if their runs tile the header and are read again. -/
theorem roundTrips_of_runs {emit : ρ → Bytes → Access Bytes} (runs : ρ → List Run)
    (tile : ∀ r, Run.Tile (size r) (runs r))
    (written : ∀ r (buffer : Bytes), buffer.length = size r →
      Written (size r) (runs r) buffer (emit r buffer))
    (again : ∀ data r, parse data = .ok r → parse (Run.bytes (size r) (runs r)) = .ok r) :
    RoundTrips parse size emit := by
  intro data r parsed
  exact ⟨_, Bytes.length_ofNat _ _, fun buffer length =>
    (written r buffer length).eq_ok_of_tile (tile r), again data r parsed⟩

end RoundTrips

end PacketLayers
