import Mathlib.Tactic

/-!
# Bit fields of fixed-width words

A packing is a base word followed by guarded field placements, the way a
generated instruction encoder is written: every placement ORs a shifted value
into the word, and a guard that fails abandons the whole packing. The slots of
a packing are disjoint from each other and from the base; the structure carries
that fact, so no later proof repeats the check.

Two facts are derived once for every packing: each slot of the packed word
reads back the value that was put there, and every bit outside the slots is the
bit of the base. A word is determined by these two observations.
-/
namespace TwMonitor.BitLayout

/-- The low `width` bits set. -/
def mask (n width : ℕ) : BitVec n := (1#n <<< width) - 1#n

/-- Shift down and mask, the value widened or narrowed to `m` bits. -/
def extract (m : ℕ) {n : ℕ} (w : BitVec n) (pos width : ℕ) : BitVec m :=
  (w >>> pos).setWidth m &&& mask m width

/-- No bit of the value lies outside its low `width` bits. -/
def fits {m : ℕ} (v : BitVec m) (width : ℕ) : Bool := v &&& ~~~(mask m width) == 0

theorem mask_eq_ofNat (n width : ℕ) : mask n width = BitVec.ofNat n (2 ^ width - 1) := by
  have h : 1#n <<< width = BitVec.ofNat n (2 ^ width) := by
    apply BitVec.eq_of_toNat_eq
    simp only [BitVec.toNat_shiftLeft,BitVec.toNat_ofNat,Nat.shiftLeft_eq,Nat.mod_mul_mod,
      one_mul]
  rw [mask,h,BitVec.sub_eq_iff_eq_add,← BitVec.ofNat_add,
    Nat.sub_add_cancel Nat.one_le_two_pow]

@[simp] theorem getLsbD_mask (n width i : ℕ) :
    (mask n width).getLsbD i = (decide (i < n) && decide (i < width)) := by
  rw [mask_eq_ofNat,BitVec.getLsbD_ofNat,Nat.testBit_two_pow_sub_one]

@[simp] theorem getLsbD_extract {m n : ℕ} (w : BitVec n) (pos width i : ℕ) :
    (extract m w pos width).getLsbD i =
      (decide (i < m) && decide (i < width) && w.getLsbD (pos + i)) := by
  simp only [extract,BitVec.getLsbD_and,BitVec.getLsbD_setWidth,BitVec.getLsbD_ushiftRight,
    getLsbD_mask]
  cases decide (i < m) <;> cases decide (i < width) <;> simp

theorem fits_iff {m : ℕ} (v : BitVec m) (width : ℕ) :
    fits v width = true ↔ ∀ i, width ≤ i → v.getLsbD i = false := by
  simp only [fits,beq_iff_eq]
  constructor
  · intro h i hi
    have hb := congrArg (fun x : BitVec m => x.getLsbD i) h
    simp only [BitVec.getLsbD_and,BitVec.getLsbD_not,getLsbD_mask,Nat.not_lt.mpr hi,
      decide_false,Bool.and_false,Bool.not_false,Bool.and_true,BitVec.ofNat_eq_ofNat,
      BitVec.getLsbD_zero] at hb
    by_cases hm : i < m
    · simpa only [hm,decide_true,Bool.and_true] using hb
    · exact BitVec.getLsbD_of_ge v i (Nat.le_of_not_lt hm)
  · intro h
    apply BitVec.eq_of_getLsbD_eq
    intro i hi
    simp only [BitVec.getLsbD_and,BitVec.getLsbD_not,getLsbD_mask,hi,decide_true,
      Bool.true_and,BitVec.ofNat_eq_ofNat,BitVec.getLsbD_zero]
    by_cases hw : i < width
    · simp only [hw,decide_true,Bool.not_true,Bool.and_false]
    · rw [h i (Nat.le_of_not_lt hw),Bool.false_and]

theorem fits_extract {m n : ℕ} (w : BitVec n) (pos width : ℕ) :
    fits (extract m w pos width) width = true := by
  rw [fits_iff]
  intro i hi
  simp [Nat.not_lt.mpr hi]

theorem fits_iff_toNat {m : ℕ} (v : BitVec m) (width : ℕ) :
    fits v width = true ↔ v.toNat < 2 ^ width := by
  rw [fits_iff]
  constructor
  · intro h
    apply Nat.lt_pow_two_of_testBit
    intro i hi
    exact h i hi
  · intro h i hi
    exact Nat.testBit_lt_two_pow (lt_of_lt_of_le h (Nat.pow_le_pow_right (by norm_num) hi))

theorem extract_toNat {m n : ℕ} (w : BitVec n) (pos width : ℕ) (hw : width ≤ m) :
    (extract m w pos width).toNat = w.toNat / 2 ^ pos % 2 ^ width := by
  apply Nat.eq_of_testBit_eq
  intro i
  have h := getLsbD_extract (m := m) w pos width i
  rw [Nat.testBit_mod_two_pow,Nat.testBit_div_two_pow]
  rw [BitVec.getLsbD] at h
  rw [h,BitVec.getLsbD,Nat.add_comm pos i]
  by_cases hi : i < width
  · simp [hi,lt_of_lt_of_le hi hw]
  · simp [hi]

/-- A value that fits is the extraction of its own low bits. -/
theorem extract_of_fits {m : ℕ} {v : BitVec m} {width : ℕ} (h : fits v width = true) :
    extract m v 0 width = v := by
  rw [fits_iff] at h
  apply BitVec.eq_of_getLsbD_eq
  intro i hi
  rw [getLsbD_extract,Nat.zero_add]
  by_cases hw : i < width
  · simp only [hi,hw,decide_true,Bool.true_and]
  · rw [h i (Nat.le_of_not_lt hw),Bool.and_false]

/-- Two neighbouring pieces of a word, the upper one moved back to its place,
are the piece that spans both. -/
theorem extract_join {m n : ℕ} (w : BitVec n) (pos low high : ℕ) :
    (extract m w (pos + low) high <<< low) ||| extract m w pos low =
      extract m w pos (low + high) := by
  apply BitVec.eq_of_getLsbD_eq
  intro i hi
  simp only [BitVec.getLsbD_or,BitVec.getLsbD_shiftLeft,getLsbD_extract,hi,decide_true,
    Bool.true_and]
  by_cases h : i < low
  · have hboth : i < low + high := by omega
    simp [h,hboth]
  · have he : pos + low + (i - low) = pos + i := by omega
    by_cases hj : i < low + high
    · have hm : i - low < m := by omega
      have hhigh : i - low < high := by omega
      simp [h,hj,he,hm,hhigh]
    · have hhigh : ¬ i - low < high := by omega
      simp [h,hj,hhigh]

/-- A value that fits is joined from its upper and lower bits. -/
theorem extract_join_of_fits {m : ℕ} {v : BitVec m} (low high : ℕ)
    (h : fits v (low + high) = true) :
    (extract m v low high <<< low) ||| extract m v 0 low = v := by
  have hj := extract_join (m := m) v 0 low high
  rw [Nat.zero_add,extract_of_fits h] at hj
  exact hj

theorem extract_join_shift {m n : ℕ} (w : BitVec n) (pos low high k : ℕ) :
    (extract m w (pos + low) high <<< (k + low)) ||| (extract m w pos low <<< k) =
      extract m w pos (low + high) <<< k := by
  rw [← extract_join,BitVec.shiftLeft_or_distrib,Nat.add_comm k low,BitVec.shiftLeft_add]

@[simp] theorem extract_extract {m k n : ℕ} (w : BitVec n) {pos width start len : ℕ}
    (h : start + len ≤ width) (hk : width ≤ k) :
    extract m (extract k w pos width) start len = extract m w (pos + start) len := by
  apply BitVec.eq_of_getLsbD_eq
  intro i hi
  simp only [getLsbD_extract,Nat.add_assoc]
  by_cases hl : i < len
  · have hwidth : start + i < width := by omega
    have hfield : start + i < k := by omega
    simp [hl,hwidth,hfield]
  · simp [hl]

@[simp] theorem extract_extract_ge {m k n : ℕ} (w : BitVec n) {pos width start len : ℕ}
    (h : width ≤ start) : extract m (extract k w pos width) start len = 0 := by
  apply BitVec.eq_of_getLsbD_eq
  intro i _
  have hwidth : ¬ start + i < width := by omega
  rw [getLsbD_extract,getLsbD_extract,decide_eq_false hwidth]
  simp

/-! ### Joined values

A value is joined from pieces by shifts and ORs; these rules read a piece back
and bound the whole. -/

@[simp] theorem extract_or {m n : ℕ} (a b : BitVec n) (pos width : ℕ) :
    extract m (a ||| b) pos width = extract m a pos width ||| extract m b pos width := by
  apply BitVec.eq_of_getLsbD_eq
  intro i _
  simp only [getLsbD_extract,BitVec.getLsbD_or,Bool.and_or_distrib_left]

/-- A read above a shift reads the unshifted value. -/
@[simp] theorem extract_shiftLeft_ge {m n : ℕ} (a : BitVec n) {k pos width : ℕ} (hk : k ≤ pos)
    (hn : pos + width ≤ n) : extract m (a <<< k) pos width = extract m a (pos - k) width := by
  apply BitVec.eq_of_getLsbD_eq
  intro i _
  simp only [getLsbD_extract,BitVec.getLsbD_shiftLeft]
  by_cases hw : i < width
  · have hlt : pos + i < n := by omega
    have hge : ¬ pos + i < k := by omega
    have hback : pos + i - k = pos - k + i := by omega
    simp [hw,hlt,hge,hback]
  · simp [hw]

/-- A read below a shift reads zeros. -/
@[simp] theorem extract_shiftLeft_lt {m n : ℕ} (a : BitVec n) {k pos width : ℕ}
    (hk : pos + width ≤ k) :
    extract m (a <<< k) pos width = 0 := by
  apply BitVec.eq_of_getLsbD_eq
  intro i _
  simp only [getLsbD_extract,BitVec.getLsbD_shiftLeft]
  by_cases hw : i < width
  · have hlt : pos + i < k := by omega
    simp [hw,hlt]
  · simp [hw]

theorem fits_or {n width : ℕ} {a b : BitVec n} (ha : fits a width = true)
    (hb : fits b width = true) : fits (a ||| b) width = true := by
  rw [fits_iff] at ha hb ⊢
  intro i hi
  rw [BitVec.getLsbD_or,ha i hi,hb i hi]
  rfl

theorem fits_extract_of_le {m n : ℕ} (w : BitVec n) (pos : ℕ) {width width' : ℕ}
    (h : width ≤ width') : fits (extract m w pos width) width' = true := by
  rw [fits_iff]
  intro i hi
  have hwidth : ¬ i < width := by omega
  rw [getLsbD_extract,decide_eq_false hwidth]
  simp

theorem fits_extract_shiftLeft {m n : ℕ} (w : BitVec n) (pos : ℕ) {width k width' : ℕ}
    (h : width + k ≤ width') : fits (extract m w pos width <<< k) width' = true := by
  rw [fits_iff]
  intro i hi
  have hwidth : ¬ i - k < width := by omega
  rw [BitVec.getLsbD_shiftLeft,getLsbD_extract,decide_eq_false hwidth]
  simp

/-! ## Slots -/

structure Slot where
  pos : ℕ
  width : ℕ
deriving DecidableEq, Repr

def Slot.Covers (s : Slot) (i : ℕ) : Prop := s.pos ≤ i ∧ i < s.pos + s.width

instance (s : Slot) (i : ℕ) : Decidable (s.Covers i) := by
  unfold Slot.Covers; infer_instance

/-- The bits of an `n`-bit word that belong to the slot. -/
def Slot.bits (n : ℕ) (s : Slot) : BitVec n := mask n s.width <<< s.pos

theorem Slot.getLsbD_bits (n : ℕ) (s : Slot) (i : ℕ) :
    (s.bits n).getLsbD i = (decide (i < n) && decide (s.Covers i)) := by
  have hc : s.Covers i ↔ ¬ i < s.pos ∧ i - s.pos < s.width := by
    unfold Slot.Covers
    omega
  rw [Slot.bits,BitVec.getLsbD_shiftLeft,getLsbD_mask,decide_eq_decide.mpr hc,Bool.decide_and,
    decide_not]
  by_cases hn : i < n
  · have hsub : i - s.pos < n := by omega
    simp [hn,hsub]
  · simp [hn]

def slotBits (n : ℕ) (ss : List Slot) : BitVec n := ss.foldr (fun s b => s.bits n ||| b) 0

theorem getLsbD_slotBits (n : ℕ) (ss : List Slot) (i : ℕ) :
    (slotBits n ss).getLsbD i = (decide (i < n) && decide (∃ s ∈ ss, s.Covers i)) := by
  induction ss with
  | nil => simp [slotBits]
  | cons s ss ih =>
      change (s.bits n ||| slotBits n ss).getLsbD i = _
      rw [BitVec.getLsbD_or,ih,Slot.getLsbD_bits]
      by_cases hn : i < n <;> by_cases hs : s.Covers i <;> simp [hn,hs]

/-- Every slot lies inside the word and touches no bit used before it. -/
def placeable {n : ℕ} : BitVec n → List Slot → Bool
  | _,[] => true
  | used,s::ss => decide (s.pos + s.width ≤ n) && (used &&& s.bits n == 0) &&
      placeable (used ||| s.bits n) ss

/-! ## Packings -/

/-- One step of a packing. A `field` is checked against its width before it is
placed; a `slice` places `width` bits of its value from bit `start` on. -/
inductive Step (m : ℕ) where
  | check (ok : Bool)
  | field (value : BitVec m) (width pos : ℕ)
  | slice (value : BitVec m) (start width pos : ℕ)

structure Piece (m : ℕ) where
  slot : Slot
  value : BitVec m

def pieces {m : ℕ} : List (Step m) → List (Piece m)
  | [] => []
  | .check _::ss => pieces ss
  | .field v width pos::ss => ⟨⟨pos,width⟩,v⟩::pieces ss
  | .slice v start width pos::ss => ⟨⟨pos,width⟩,extract m v start width⟩::pieces ss

def slots {m : ℕ} : List (Step m) → List Slot
  | [] => []
  | .check _::ss => slots ss
  | .field _ width pos::ss => ⟨pos,width⟩::slots ss
  | .slice _ _ width pos::ss => ⟨pos,width⟩::slots ss

/-- Every piece can be read back from the word. -/
def Reads {m n : ℕ} (w : BitVec n) : List (Piece m) → Prop
  | [] => True
  | p::ps => extract m w p.slot.pos p.slot.width = p.value ∧ Reads w ps

theorem reads_iff {m n : ℕ} (w : BitVec n) (ps : List (Piece m)) :
    Reads w ps ↔ ∀ p ∈ ps, extract m w p.slot.pos p.slot.width = p.value := by
  induction ps with
  | nil => simp [Reads]
  | cons p ps ih => rw [Reads,ih,List.forall_mem_cons]

theorem map_slot_pieces {m : ℕ} (ss : List (Step m)) : (pieces ss).map Piece.slot = slots ss := by
  induction ss with
  | nil => rfl
  | cons s ss ih => cases s <;> simp [pieces,slots,ih]

/-- Run the steps on the word built so far. -/
def run {m n : ℕ} : List (Step m) → BitVec n → Option (BitVec n)
  | [],w => some w
  | .check ok::ss,w => if ok then run ss w else none
  | .field v width pos::ss,w =>
      if fits v width then run ss (w ||| v.setWidth n <<< pos) else none
  | .slice v start width pos::ss,w =>
      run ss (w ||| (extract m v start width).setWidth n <<< pos)

/-- All guards of the steps hold. -/
def guards {m : ℕ} : List (Step m) → Bool
  | [] => true
  | .check ok::ss => ok && guards ss
  | .field v width _::ss => fits v width && guards ss
  | .slice _ _ _ _::ss => guards ss

/-! ## What a run leaves in the word -/

def Piece.place {m : ℕ} (n : ℕ) (p : Piece m) : BitVec n := p.value.setWidth n <<< p.slot.pos

def Piece.Fits {m : ℕ} (p : Piece m) : Prop := fits p.value p.slot.width = true

def pack {m n : ℕ} (ps : List (Piece m)) (w : BitVec n) : BitVec n :=
  ps.foldl (fun w p => w ||| p.place n) w

@[simp] theorem pack_cons {m n : ℕ} (p : Piece m) (ps : List (Piece m)) (w : BitVec n) :
    pack (p::ps) w = pack ps (w ||| p.place n) := rfl

theorem run_eq {m n : ℕ} (ss : List (Step m)) (w : BitVec n) :
    run ss w = if guards ss then some (pack (pieces ss) w) else none := by
  induction ss generalizing w with
  | nil => rfl
  | cons s ss ih =>
      cases s with
      | check ok => cases ok <;> simp [run,guards,pieces,ih]
      | field v width pos =>
          cases h : fits v width <;>
            simp [run,guards,pieces,ih,h,Piece.place]
      | slice v start width pos =>
          rw [run,ih]
          rfl

theorem pieces_fit {m : ℕ} {ss : List (Step m)} (h : guards ss = true) :
    ∀ p ∈ pieces ss, p.Fits := by
  induction ss with
  | nil => simp [pieces]
  | cons s ss ih =>
      cases s with
      | check ok =>
          rw [guards,Bool.and_eq_true] at h
          exact ih h.2
      | field v width pos =>
          rw [guards,Bool.and_eq_true] at h
          intro p hp
          rcases List.mem_cons.mp hp with rfl | hp
          · exact h.1
          · exact ih h.2 p hp
      | slice v start width pos =>
          intro p hp
          rcases List.mem_cons.mp hp with rfl | hp
          · exact fits_extract v start width
          · exact ih h p hp

theorem Piece.getLsbD_place {m n : ℕ} {p : Piece m} (hp : p.Fits) {i : ℕ}
    (hi : (p.place n).getLsbD i = true) : i < n ∧ p.slot.Covers i := by
  rw [Piece.place,BitVec.getLsbD_shiftLeft,BitVec.getLsbD_setWidth] at hi
  simp only [Bool.and_eq_true,decide_eq_true_eq,Bool.not_eq_true',decide_eq_false_iff_not] at hi
  have hw : i - p.slot.pos < p.slot.width := by
    by_contra hc
    have := (fits_iff _ _).mp hp _ (Nat.le_of_not_lt hc)
    simp [this] at hi
  exact ⟨hi.1.1,by omega,by omega⟩

/-- A bit that no piece covers keeps the value it had. -/
theorem getLsbD_pack {m n : ℕ} {ps : List (Piece m)} (hf : ∀ p ∈ ps, p.Fits) (w : BitVec n)
    {i : ℕ} (hc : ∀ p ∈ ps, ¬ p.slot.Covers i) : (pack ps w).getLsbD i = w.getLsbD i := by
  induction ps generalizing w with
  | nil => rfl
  | cons p ps ih =>
      rw [pack_cons,ih (fun q hq => hf q (by simp [hq])) _ (fun q hq => hc q (by simp [hq])),
        BitVec.getLsbD_or]
      have hp : (p.place n).getLsbD i = false := by
        rw [← Bool.not_eq_true]
        exact fun h => hc p (by simp) (Piece.getLsbD_place (hf p (by simp)) h).2
      rw [hp,Bool.or_false]

theorem placeable_clear {n : ℕ} {used : BitVec n} {ss : List Slot}
    (h : placeable used ss = true) {s : Slot} (hs : s ∈ ss) {i : ℕ} (hi : s.Covers i) :
    i < n ∧ used.getLsbD i = false := by
  induction ss generalizing used with
  | nil => simp at hs
  | cons t ss ih =>
      simp only [placeable,Bool.and_eq_true,decide_eq_true_eq,beq_iff_eq] at h
      rcases List.mem_cons.mp hs with rfl | hs
      · have hn : i < n := by
          unfold Slot.Covers at hi
          omega
        have hb := congrArg (fun x : BitVec n => x.getLsbD i) h.1.2
        simp only [BitVec.getLsbD_and,Slot.getLsbD_bits,hn,hi,decide_true,Bool.and_true,
          BitVec.ofNat_eq_ofNat,BitVec.getLsbD_zero] at hb
        exact ⟨hn,hb⟩
      · have hr := ih h.2 hs
        rw [BitVec.getLsbD_or,Bool.or_eq_false_iff] at hr
        exact ⟨hr.1,hr.2.1⟩

/-- A word with the bits of a piece in its slot reads as the value of the piece. -/
theorem Piece.extract_of_place {m n : ℕ} {p : Piece m} (hp : p.Fits) {w : BitVec n}
    (h : ∀ i, p.slot.Covers i → i < n ∧ w.getLsbD i = (p.place n).getLsbD i) :
    extract m w p.slot.pos p.slot.width = p.value := by
  apply BitVec.eq_of_getLsbD_eq
  intro i hi
  rw [getLsbD_extract]
  by_cases hlt : i < p.slot.width
  · obtain ⟨hn,hplaced⟩ := h (p.slot.pos + i) ⟨by omega,by omega⟩
    rw [hplaced,Piece.place,BitVec.getLsbD_shiftLeft,BitVec.getLsbD_setWidth]
    simp only [hi,hlt,hn,decide_true,Bool.true_and,Nat.add_sub_cancel_left,
      show ¬ p.slot.pos + i < p.slot.pos by omega,decide_false,Bool.not_false,
      show i < n by omega]
  · rw [(fits_iff _ _).mp hp i (Nat.le_of_not_lt hlt)]
    simp only [hlt,decide_false,Bool.and_false,Bool.false_and]

/-- A piece that is placed stays inside of the bits used and its own. -/
theorem used_of_place {m n : ℕ} {p : Piece m} (hp : p.Fits) {w used : BitVec n}
    (hw : ∀ i, w.getLsbD i = true → used.getLsbD i = true) (i : ℕ)
    (hi : (w ||| p.place n).getLsbD i = true) : (used ||| p.slot.bits n).getLsbD i = true := by
  rw [BitVec.getLsbD_or,Bool.or_eq_true] at hi ⊢
  rcases hi with hi | hi
  · exact Or.inl (hw i hi)
  · obtain ⟨hn,hc⟩ := Piece.getLsbD_place hp hi
    exact Or.inr (by rw [Slot.getLsbD_bits]; simp [hn,hc])

/-- Slots that are placed later do not touch a bit of this one. -/
theorem not_covers_of_placeable {n : ℕ} {used : BitVec n} {s t : Slot} {ss : List Slot}
    (h : placeable (used ||| s.bits n) ss = true) (ht : t ∈ ss) {i : ℕ} (hn : i < n)
    (hs : s.Covers i) : ¬ t.Covers i := by
  intro hc
  have hclear := (placeable_clear h ht hc).2
  rw [BitVec.getLsbD_or,Slot.getLsbD_bits,decide_eq_true hn,decide_eq_true hs,Bool.and_true,
    Bool.or_true] at hclear
  exact absurd hclear (by simp)

/-- Reading a slot of a packed word gives the value that was placed there.
The induction carries the bits used so far: the word stays inside them, and no
later slot touches them. -/
theorem extract_pack {m n : ℕ} {ps : List (Piece m)} (hf : ∀ p ∈ ps, p.Fits)
    {w used : BitVec n} (hw : ∀ i, w.getLsbD i = true → used.getLsbD i = true)
    (h : placeable used (ps.map Piece.slot) = true) {p : Piece m} (hp : p ∈ ps) :
    extract m (pack ps w) p.slot.pos p.slot.width = p.value := by
  induction ps generalizing w used with
  | nil => simp at hp
  | cons q qs ih =>
      have hq := hf q (by simp)
      have hqs : ∀ p ∈ qs, p.Fits := fun p hp => hf p (by simp [hp])
      have hclear := fun i => placeable_clear (i := i) h (s := q.slot) (by simp)
      rw [List.map_cons,placeable,Bool.and_eq_true] at h
      rw [pack_cons]
      rcases List.mem_cons.mp hp with rfl | hp
      · refine Piece.extract_of_place hq fun i hcov => ?_
        obtain ⟨hn,hu⟩ := hclear i hcov
        have hlater : ∀ r ∈ qs, ¬ r.slot.Covers i := fun r hr =>
          not_covers_of_placeable h.2 (List.mem_map_of_mem hr) hn hcov
        have hb : w.getLsbD i = false := by
          rw [← Bool.not_eq_true]
          exact fun hc => by simp [hw _ hc] at hu
        rw [getLsbD_pack hqs _ hlater,BitVec.getLsbD_or,hb,Bool.false_or]
        exact ⟨hn,rfl⟩
      · exact ih hqs (used_of_place hq hw) h.2 hp

/-- A word is determined by its slots and by the bits outside them. -/
theorem eq_of_slots {m n : ℕ} (hnm : n ≤ m) (ss : List Slot) {v w : BitVec n}
    (hin : ∀ s ∈ ss, extract m v s.pos s.width = extract m w s.pos s.width)
    (hout : ∀ i, (∀ s ∈ ss, ¬ s.Covers i) → v.getLsbD i = w.getLsbD i) : v = w := by
  apply BitVec.eq_of_getLsbD_eq
  intro i hi
  by_cases h : ∃ s ∈ ss, s.Covers i
  · obtain ⟨s,hs,hc⟩ := h
    unfold Slot.Covers at hc
    have hm : i - s.pos < m := by omega
    have hwidth : i - s.pos < s.width := by omega
    have hback : s.pos + (i - s.pos) = i := by omega
    have hb := congrArg (fun x : BitVec m => x.getLsbD (i - s.pos)) (hin s hs)
    simpa only [getLsbD_extract,hm,hwidth,hback,decide_true,Bool.true_and] using hb
  · exact hout i (fun s hs hc => h ⟨s,hs,hc⟩)

/-! ## Packings -/

/-- A base word and its steps, with the slots of the steps disjoint from each
other and from the base. -/
structure Packing (n m : ℕ) where
  base : BitVec n
  steps : List (Step m)
  wellPlaced : placeable base (slots steps) = true := by rfl

namespace Packing
variable {n m : ℕ}

def word (p : Packing n m) : Option (BitVec n) := run p.steps p.base

theorem word_eq_some {p : Packing n m} {w : BitVec n} (h : p.word = some w) :
    guards p.steps = true ∧ pack (pieces p.steps) p.base = w := by
  rw [word,run_eq] at h
  split at h
  · next hg => exact ⟨hg,Option.some.inj h⟩
  · exact absurd h (by simp)

theorem guards_word {p : Packing n m} {w : BitVec n} (h : p.word = some w) :
    guards p.steps = true := (word_eq_some h).1

theorem word_isSome (p : Packing n m) : p.word.isSome = guards p.steps := by
  rw [word,run_eq]
  cases guards p.steps <;> rfl

theorem reads_word {p : Packing n m} {w : BitVec n} (h : p.word = some w) :
    Reads w (pieces p.steps) := by
  obtain ⟨hg,rfl⟩ := word_eq_some h
  rw [reads_iff]
  intro q hq
  refine extract_pack (pieces_fit hg) (fun _ hi => hi) ?_ hq
  rw [map_slot_pieces]
  exact p.wellPlaced

theorem getLsbD_word {p : Packing n m} {w : BitVec n} (h : p.word = some w) {i : ℕ}
    (hc : ∀ s ∈ slots p.steps, ¬ s.Covers i) : w.getLsbD i = p.base.getLsbD i := by
  obtain ⟨hg,rfl⟩ := word_eq_some h
  rw [← map_slot_pieces] at hc
  exact getLsbD_pack (pieces_fit hg) _ (fun q hq => hc _ (List.mem_map_of_mem hq))

/-- A word that shows the base outside the slots and the given values inside
them is the word the packing produces. -/
theorem word_of_slots (hnm : n ≤ m) {p : Packing n m} {w : BitVec n}
    (hg : guards p.steps = true)
    (hin : Reads w (pieces p.steps))
    (hout : ∀ i, (∀ s ∈ slots p.steps, ¬ s.Covers i) → w.getLsbD i = p.base.getLsbD i) :
    p.word = some w := by
  obtain ⟨v,hv⟩ := Option.isSome_iff_exists.mp (p.word_isSome.trans hg)
  have hread := reads_word hv
  rw [reads_iff] at hin hread
  rw [hv,Option.some.injEq]
  refine eq_of_slots hnm (slots p.steps) ?_ (fun i hi => ?_)
  · intro s hs
    rw [← map_slot_pieces] at hs
    obtain ⟨q,hq,rfl⟩ := List.mem_map.mp hs
    rw [hread q hq,hin q hq]
  · rw [getLsbD_word hv hi,hout i hi]

end Packing

end TwMonitor.BitLayout
