import TwMonitor.BitLayout

/-!
# Registers of a device

Two ways in which a device packs its state into words. A register of fields keeps
one field at each position; the driver assigns a field by clearing its bits and
setting those of the new value. A set is seen through an array of registers, one
bit for each element, where a write acts on the elements whose bits are one and a
read returns the bits of the set.
-/
namespace TwMonitor.DeviceRegisters
open BitLayout

/-! ## Fields -/

section
variable {m n pos width : ℕ} {v : BitVec n}

/-- Clear the bits of the field, then set the bits of the value. -/
def assign (w : BitVec n) (pos width : ℕ) (v : BitVec n) : BitVec n :=
  (w &&& ~~~(mask n width <<< pos)) ||| (v <<< pos)

theorem getLsbD_assign (w : BitVec n) (hv : fits v width = true) {i : ℕ} (hi : i < n) :
    (assign w pos width v).getLsbD i =
      if pos ≤ i ∧ i < pos + width then v.getLsbD (i - pos) else w.getLsbD i := by
  rw [assign,BitVec.getLsbD_or,BitVec.getLsbD_and,BitVec.getLsbD_not,BitVec.getLsbD_shiftLeft,
    BitVec.getLsbD_shiftLeft,getLsbD_mask]
  by_cases hlow : i < pos
  · have hout : ¬ (pos ≤ i ∧ i < pos + width) := by omega
    simp [hi,hlow,hout]
  · by_cases hhigh : i < pos + width
    · have hin : pos ≤ i ∧ i < pos + width := by omega
      have hsub : i - pos < width ∧ i - pos < n := by omega
      simp [hi,hlow,hin,hsub]
    · have hout : ¬ (pos ≤ i ∧ i < pos + width) := by omega
      have hsub : ¬ i - pos < width := by omega
      have hzero := (fits_iff v width).mp hv (i - pos) (by omega)
      simp [hi,hlow,hout,hsub,hzero]

/-- The field holds the value that was assigned. -/
theorem extract_assign (w : BitVec n) (hv : fits v width = true) (hn : pos + width ≤ n) :
    extract n (assign w pos width v) pos width = v := by
  apply BitVec.eq_of_getLsbD_eq
  intro i hi
  rw [getLsbD_extract]
  by_cases hw : i < width
  · have hin : pos ≤ pos + i ∧ pos + i < pos + width := by omega
    rw [getLsbD_assign w hv (by omega),if_pos hin]
    simp [hi,hw]
  · have hzero := (fits_iff v width).mp hv i (by omega)
    simp [hw,hzero]

/-- Fields elsewhere keep their values. -/
theorem extract_assign_of_disjoint (w : BitVec n) (hv : fits v width = true) {pos' width' : ℕ}
    (hn : pos' + width' ≤ n) (h : pos + width ≤ pos' ∨ pos' + width' ≤ pos) :
    extract m (assign w pos width v) pos' width' = extract m w pos' width' := by
  apply BitVec.eq_of_getLsbD_eq
  intro i _
  rw [getLsbD_extract,getLsbD_extract]
  by_cases hw : i < width'
  · have hout : ¬ (pos ≤ pos' + i ∧ pos' + i < pos + width) := by omega
    rw [getLsbD_assign w hv (by omega),if_neg hout]
  · simp [hw]

end

/-! ## Sets -/

section
variable {n : ℕ} {width : ℕ} (s : BitVec n)

/-- Register `x` of a set. -/
def readSet (width : ℕ) (x : ℕ) : BitVec width := extract width s (width * x) width

/-- The elements whose bits are one in register `x`. -/
def selected (n : ℕ) (x : ℕ) (v : BitVec width) : BitVec n := v.setWidth n <<< (width * x)

/-- A write to register `x` puts elements into the set. -/
def writeOneSet (x : ℕ) (v : BitVec width) : BitVec n := s ||| selected n x v

/-- A write to register `x` takes elements out of the set. -/
def writeOneClear (x : ℕ) (v : BitVec width) : BitVec n := s &&& ~~~selected n x v

theorem getLsbD_readSet (x i : ℕ) :
    (readSet s width x).getLsbD i = (decide (i < width) && s.getLsbD (width * x + i)) := by
  rw [readSet,getLsbD_extract,Bool.and_self]

/-- Element `k` is bit `k % width` of register `k / width`. -/
theorem getLsbD_selected (hw : 0 < width) (x : ℕ) (v : BitVec width) {k : ℕ} (hk : k < n) :
    (selected n x v).getLsbD k = (decide (k / width = x) && v.getLsbD (k % width)) := by
  rw [selected,BitVec.getLsbD_shiftLeft,BitVec.getLsbD_setWidth]
  have hdiv := Nat.div_add_mod k width
  by_cases hx : k / width = x
  · have hge : ¬ k < width * x := by
      rw [← hx]
      omega
    have hsub : k - width * x = k % width := by
      rw [← hx]
      omega
    have hmod : k % width < n := by omega
    simp [hk,hx,hge,hsub,hmod]
  · by_cases hlow : k < width * x
    · simp [hx,hlow]
    · have hbig : width ≤ k - width * x := by
        have hlt : x < k / width := by
          refine lt_of_le_of_ne ?_ (Ne.symm hx)
          exact (Nat.le_div_iff_mul_le hw).mpr (by rw [Nat.mul_comm]; omega)
        have hnext : width * (x + 1) ≤ k := by
          rw [Nat.mul_comm]
          exact (Nat.le_div_iff_mul_le hw).mp hlt
        rw [Nat.mul_succ] at hnext
        omega
      simp [hx,BitVec.getLsbD_of_ge v _ hbig]

theorem getLsbD_writeOneSet (hw : 0 < width) (x : ℕ) (v : BitVec width) {k : ℕ} (hk : k < n) :
    (writeOneSet s x v).getLsbD k =
      (s.getLsbD k || (decide (k / width = x) && v.getLsbD (k % width))) := by
  rw [writeOneSet,BitVec.getLsbD_or,getLsbD_selected hw x v hk]

theorem getLsbD_writeOneClear (hw : 0 < width) (x : ℕ) (v : BitVec width) {k : ℕ} (hk : k < n) :
    (writeOneClear s x v).getLsbD k =
      (s.getLsbD k && !(decide (k / width = x) && v.getLsbD (k % width))) := by
  rw [writeOneClear,BitVec.getLsbD_and,BitVec.getLsbD_not,getLsbD_selected hw x v hk,
    decide_eq_true hk,Bool.true_and]

theorem getLsbD_readSet_mod (hw : 0 < width) {k x : ℕ} (hx : k / width = x) :
    (readSet s width x).getLsbD (k % width) = s.getLsbD k := by
  rw [getLsbD_readSet,decide_eq_true (Nat.mod_lt k hw),Bool.true_and,← hx,Nat.div_add_mod]

theorem getLsbD_one_shiftLeft {i j : ℕ} (hj : j < width) :
    (BitVec.ofNat width 1 <<< i).getLsbD j = decide (j = i) := by
  rw [BitVec.getLsbD_shiftLeft,BitVec.getLsbD_one]
  by_cases hlow : j < i
  · have hne : j ≠ i := by omega
    simp [hlow,hne]
  · have hsame : j - i = 0 ↔ j = i := by omega
    simp [hj,hlow,hsame]
    omega

/-! ## Reading, changing a bit, and writing back -/

/-- The element with the bit that is set joins the set. -/
theorem getLsbD_writeOneSet_or (hw : 0 < width) {k : ℕ} (hk : k < n) (j : ℕ) :
    (writeOneSet s (k / width)
      (readSet s width (k / width) ||| BitVec.ofNat width 1 <<< (k % width))).getLsbD j =
      (s.getLsbD j || decide (j = k)) := by
  by_cases hj : j < n
  · rw [getLsbD_writeOneSet s hw _ _ hj]
    by_cases hx : j / width = k / width
    · have hsame : j % width = k % width ↔ j = k := by
        have hjdiv := Nat.div_add_mod j width
        have hkdiv := Nat.div_add_mod k width
        rw [hx] at hjdiv
        omega
      rw [BitVec.getLsbD_or,getLsbD_readSet_mod s hw hx,
        getLsbD_one_shiftLeft (Nat.mod_lt j hw),decide_eq_decide.mpr hsame,decide_eq_true hx,
        Bool.true_and,← Bool.or_assoc,Bool.or_self]
    · have hne : j ≠ k := fun h => hx (by rw [h])
      rw [decide_eq_false hx,decide_eq_false hne,Bool.false_and]
  · have hne : j ≠ k := by omega
    rw [BitVec.getLsbD_of_ge _ j (Nat.le_of_not_lt hj),
      BitVec.getLsbD_of_ge s j (Nat.le_of_not_lt hj),decide_eq_false hne]
    rfl

/-- Bits of the set that are written back do nothing. -/
theorem writeOneSet_and (hw : 0 < width) (x : ℕ) (v : BitVec width) :
    writeOneSet s x (readSet s width x &&& v) = s := by
  apply BitVec.eq_of_getLsbD_eq
  intro j hj
  rw [getLsbD_writeOneSet s hw _ _ hj]
  by_cases hx : j / width = x
  · rw [BitVec.getLsbD_and,getLsbD_readSet_mod s hw hx]
    cases s.getLsbD j <;> simp
  · rw [decide_eq_false hx,Bool.false_and,Bool.or_false]

/-- All elements of the register leave the set, not the one alone. -/
theorem getLsbD_writeOneClear_or (hw : 0 < width) (k j : ℕ) :
    (writeOneClear s (k / width)
      (readSet s width (k / width) ||| BitVec.ofNat width 1 <<< (k % width))).getLsbD j =
      (s.getLsbD j && !decide (j / width = k / width)) := by
  by_cases hj : j < n
  · rw [getLsbD_writeOneClear s hw _ _ hj]
    by_cases hx : j / width = k / width
    · rw [BitVec.getLsbD_or,getLsbD_readSet_mod s hw hx,decide_eq_true hx]
      cases s.getLsbD j <;> simp
    · rw [decide_eq_false hx,Bool.false_and]
  · rw [BitVec.getLsbD_of_ge _ j (Nat.le_of_not_lt hj),
      BitVec.getLsbD_of_ge s j (Nat.le_of_not_lt hj),Bool.false_and]

end

end TwMonitor.DeviceRegisters
