import Mathlib.Tactic

/-!
# Lists split into groups by a separator

A list is written from its last element on, and a separator goes in front of
every full group. Groups are counted from the right, so only the first group can
be short. The length, the elements besides the separators and the groups are read
back from the written list.
-/
namespace TwMonitor.DigitGroups

variable {α : Type*}

/-- Every element but the last is followed by a separator where full groups follow. -/
def grouped (sep : α) (k : ℕ) : List α → List α
  | [] => []
  | x::xs =>
      if xs ≠ [] ∧ xs.length % k = 0 then x::sep::grouped sep k xs else x::grouped sep k xs

/-- The length of so many elements in groups. -/
def groupedLength (k n : ℕ) : ℕ := n + (n - 1) / k

theorem groupedLength_succ (k n : ℕ) :
    groupedLength k (n + 1) =
      groupedLength k n + (if n ≠ 0 ∧ n % k = 0 then 2 else 1) := by
  unfold groupedLength
  cases n with
  | zero => simp
  | succ n =>
      have hdiv : (n + 1) / k = n / k + if k ∣ n + 1 then 1 else 0 := Nat.succ_div
      have hdvd : k ∣ n + 1 ↔ (n + 1) % k = 0 := Nat.dvd_iff_mod_eq_zero
      simp only [Nat.add_sub_cancel,hdiv,hdvd]
      split <;> split <;> omega

theorem groupedLength_strictMono (k : ℕ) : StrictMono (groupedLength k) := by
  refine strictMono_nat_of_lt_succ (fun n => ?_)
  rw [groupedLength_succ]
  split <;> omega

theorem grouped_length (sep : α) (k : ℕ) (xs : List α) :
    (grouped sep k xs).length = groupedLength k xs.length := by
  induction xs with
  | nil => simp [grouped,groupedLength]
  | cons x xs ih =>
      rw [List.length_cons,groupedLength_succ,← ih,grouped]
      simp only [ne_eq,List.length_eq_zero_iff]
      split <;> simp

/-- A separator is due exactly where the length with it is a multiple of the group's. -/
theorem groupedLength_full_iff {k : ℕ} (hk : 0 < k) (n : ℕ) :
    (groupedLength k n + 1) % (k + 1) = 0 ↔ n ≠ 0 ∧ n % k = 0 := by
  cases n with
  | zero =>
      have hone : (groupedLength k 0 + 1) % (k + 1) = 1 := by
        rw [groupedLength,Nat.zero_sub,Nat.zero_div]
        exact Nat.mod_eq_of_lt (by omega)
      omega
  | succ n =>
      have hn := Nat.div_add_mod n k
      have hr := Nat.mod_lt n hk
      have hsum : groupedLength k (n + 1) + 1 = (k + 1) * (n / k) + (n % k + 2) := by
        rw [groupedLength,Nat.add_sub_cancel]
        calc n + 1 + n / k + 1 = (k * (n / k) + n % k) + n / k + 2 := by rw [hn]; omega
          _ = (k + 1) * (n / k) + (n % k + 2) := by ring
      have hsucc : (n + 1) % k = (n % k + 1) % k := by rw [Nat.mod_add_mod]
      rw [hsum,Nat.mul_add_mod_self_left,hsucc]
      by_cases hfull : n % k + 1 = k
      · have htwo : n % k + 2 = k + 1 := by omega
        rw [hfull,htwo,Nat.mod_self,Nat.mod_self]
        simp
      · have hone : (n % k + 1) % k = n % k + 1 := Nat.mod_eq_of_lt (by omega)
        have htwo : (n % k + 2) % (k + 1) = n % k + 2 := Nat.mod_eq_of_lt (by omega)
        rw [hone,htwo]
        omega

theorem grouped_head (sep : α) (k : ℕ) (xs : List α) :
    (grouped sep k xs).head? = xs.head? := by
  cases xs with
  | nil => rfl
  | cons x xs =>
      rw [grouped]
      split <;> rfl

theorem mem_grouped {sep : α} {k : ℕ} {xs : List α} {x : α} (h : x ∈ grouped sep k xs) :
    x = sep ∨ x ∈ xs := by
  induction xs with
  | nil => simp [grouped] at h
  | cons y xs ih =>
      rw [grouped] at h
      rw [List.mem_cons]
      split at h <;> simp only [List.mem_cons] at h <;> tauto

variable [DecidableEq α]

theorem filter_grouped {sep : α} (k : ℕ) {xs : List α} (h : sep ∉ xs) :
    (grouped sep k xs).filter (· ≠ sep) = xs := by
  induction xs with
  | nil => rfl
  | cons x xs ih =>
      simp only [List.mem_cons,not_or] at h
      have hx : x ≠ sep := fun heq => h.1 heq.symm
      rw [grouped]
      split
      · rw [List.filter_cons_of_pos (by simpa using hx),List.filter_cons_of_neg (by simp),ih h.2]
      · rw [List.filter_cons_of_pos (by simpa using hx),ih h.2]

/-- Full groups behind a first one that is not empty and not longer. -/
def FullGroups (k : ℕ) (groups : List (List α)) : Prop :=
  ∃ first rest, groups = first::rest ∧ 0 < first.length ∧ first.length ≤ k ∧
    ∀ group ∈ rest, group.length = k

theorem splitOn_sep (sep : α) (xs : List α) : (sep::xs).splitOn sep = []::xs.splitOn sep := by
  simp [List.splitOn_eq_splitOnP,List.splitOnP_cons_eq_if_splitOnPPrepend]

theorem splitOn_other {sep x : α} (hx : x ≠ sep) {xs first : List α} {rest : List (List α)}
    (h : xs.splitOn sep = first::rest) : (x::xs).splitOn sep = (x::first)::rest := by
  rw [List.splitOn_eq_splitOnP] at h ⊢
  rw [List.splitOnP_cons_eq_if_splitOnPPrepend,if_neg (by simpa using hx),
    List.splitOnPPrepend_eq_modifyHead,h]
  rfl

/-- One more element starts a new group exactly when the first one is full. -/
theorem mod_full_iff {k n : ℕ} (hk : 0 < k) (hn : 0 < n) : n % k = 0 ↔ (n - 1) % k + 1 = k := by
  have hmod : n % k = ((n - 1) % k + 1) % k := by
    rw [Nat.mod_add_mod,Nat.sub_add_cancel hn]
  have hlt := Nat.mod_lt (n - 1) hk
  rw [hmod]
  constructor
  · intro hzero
    by_contra hne
    rw [Nat.mod_eq_of_lt (by omega)] at hzero
    omega
  · intro hfull
    rw [hfull,Nat.mod_self]

theorem mod_succ_of_part {k n : ℕ} (hk : 0 < k) (hn : 0 < n) (h : n % k ≠ 0) :
    n % k = (n - 1) % k + 1 := by
  have hpart := (mod_full_iff hk hn).not.mp h
  have hlt := Nat.mod_lt (n - 1) hk
  have hone : n = n - 1 + 1 := by omega
  conv_lhs => rw [hone,← Nat.mod_add_mod]
  exact Nat.mod_eq_of_lt (by omega)

/-- The first group holds what the full ones leave over. -/
theorem splitOn_grouped {sep : α} {k : ℕ} (hk : 0 < k) {xs : List α} (h : sep ∉ xs)
    (hne : xs ≠ []) : ∃ first rest, (grouped sep k xs).splitOn sep = first::rest ∧
      first.length = (xs.length - 1) % k + 1 ∧ ∀ group ∈ rest, group.length = k := by
  induction xs with
  | nil => exact absurd rfl hne
  | cons x xs ih =>
      simp only [List.mem_cons,not_or] at h
      have hx : x ≠ sep := fun heq => h.1 heq.symm
      rw [List.length_cons,Nat.add_sub_cancel,grouped]
      by_cases hnil : xs = []
      · subst hnil
        have hsplit := @splitOn_other _ _ sep x hx [] [] []
          (by simp [List.splitOn_eq_splitOnP])
        exact ⟨[x],[],by simpa [grouped] using hsplit,by simp,by simp⟩
      · obtain ⟨first,rest,hsplit,hfirst,hrest⟩ := ih h.2 hnil
        have hpos : 0 < xs.length := List.length_pos_iff.mpr hnil
        split
        · next hfull =>
            have hk' : first.length = k := hfirst.trans ((mod_full_iff hk hpos).mp hfull.2)
            refine ⟨[x],first::rest,splitOn_other hx (by rw [splitOn_sep,hsplit]),?_,?_⟩
            · simp [hfull.2]
            · simpa using ⟨hk',hrest⟩
        · next hpart =>
            have hne' : xs.length % k ≠ 0 := fun hmod => hpart ⟨hnil,hmod⟩
            refine ⟨x::first,rest,splitOn_other hx hsplit,?_,hrest⟩
            rw [List.length_cons,hfirst,mod_succ_of_part hk hpos hne']

theorem fullGroups_grouped {sep : α} {k : ℕ} (hk : 0 < k) {xs : List α} (h : sep ∉ xs)
    (hne : xs ≠ []) : FullGroups k ((grouped sep k xs).splitOn sep) := by
  obtain ⟨first,rest,hsplit,hfirst,hrest⟩ := splitOn_grouped hk h hne
  have hlt := Nat.mod_lt (xs.length - 1) hk
  exact ⟨first,rest,hsplit,by omega,by omega,hrest⟩

end TwMonitor.DigitGroups
