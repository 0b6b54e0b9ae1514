import Mathlib.Data.List.Basic

/-!
# Chains that end at null

The nodes of a chain hold the next one, and the last one holds null. A walk along
the chain stops at the first node that is looked for, or at null.
-/
namespace TwMonitor.NullChain

variable {α : Type*} {next next' : α → α} {null p q r : α} {ps : List α}

/-- Following `next` from `p` passes these nodes and arrives at `q`. -/
def Path (next : α → α) : α → List α → α → Prop
  | p,[],q => p = q
  | p,r::ps,q => p = r ∧ Path next (next r) ps q

theorem path_append (qs : List α) :
    Path next p (ps ++ qs) r ↔ ∃ q, Path next p ps q ∧ Path next q qs r := by
  induction ps generalizing p with
  | nil =>
      constructor
      · exact fun h => ⟨p,rfl,h⟩
      · rintro ⟨_,rfl,h⟩
        exact h
  | cons s ps ih =>
      constructor
      · rintro ⟨hs,h⟩
        obtain ⟨q,hq,hr⟩ := ih.mp h
        exact ⟨q,⟨hs,hq⟩,hr⟩
      · rintro ⟨q,⟨hs,hq⟩,hr⟩
        exact ⟨hs,ih.mpr ⟨q,hq,hr⟩⟩

theorem path_concat : Path next p (ps ++ [q]) r ↔ Path next p ps q ∧ next q = r := by
  rw [path_append]
  constructor
  · rintro ⟨_,h,rfl,hr⟩
    exact ⟨h,hr⟩
  · rintro ⟨h,hr⟩
    exact ⟨q,h,rfl,hr⟩

/-- Only the nodes of the path matter. -/
theorem Path.congr (h : Path next p ps q) (hnext : ∀ r ∈ ps, next' r = next r) :
    Path next' p ps q := by
  induction ps generalizing p with
  | nil => exact h
  | cons r ps ih =>
      refine ⟨h.1,?_⟩
      rw [hnext r List.mem_cons_self]
      exact ih h.2 fun s hs => hnext s (List.mem_cons_of_mem r hs)

/-! ## Walking -/

variable [DecidableEq α] {fuel : ℕ}

/-- The first node that is looked for, or null. -/
def walk (next : α → α) (null : α) (found : α → Bool) : ℕ → α → Option α
  | 0,_ => none
  | fuel + 1,p =>
      if p = null then some null
      else if found p then some p
      else walk next null found fuel (next p)

/-- All nodes up to null. -/
def collect (next : α → α) (null : α) : ℕ → α → Option (List α)
  | 0,_ => none
  | fuel + 1,p =>
      if p = null then some [] else (collect next null fuel (next p)).map fun ps => p::ps

theorem walk_eq (h : Path next p ps null) (hnull : null ∉ ps) (hfuel : ps.length < fuel)
    (found : α → Bool) : walk next null found fuel p = some ((ps.find? found).getD null) := by
  induction ps generalizing p fuel with
  | nil =>
      obtain rfl : p = null := h
      obtain ⟨fuel,rfl⟩ := Nat.exists_eq_succ_of_ne_zero (Nat.ne_zero_of_lt hfuel)
      rw [walk,if_pos rfl]
      rfl
  | cons q ps ih =>
      obtain ⟨rfl,hrest⟩ := h
      obtain ⟨fuel,rfl⟩ := Nat.exists_eq_succ_of_ne_zero (Nat.ne_zero_of_lt hfuel)
      have hp : p ≠ null := fun he => hnull (he ▸ List.mem_cons_self)
      rw [walk,if_neg hp,List.find?_cons]
      cases hfound : found p with
      | true => rfl
      | false =>
          rw [if_neg Bool.false_ne_true]
          exact ih hrest (fun hin => hnull (List.mem_cons_of_mem p hin))
            (Nat.lt_of_succ_lt_succ hfuel)

theorem collect_eq (h : Path next p ps null) (hnull : null ∉ ps) (hfuel : ps.length < fuel) :
    collect next null fuel p = some ps := by
  induction ps generalizing p fuel with
  | nil =>
      obtain rfl : p = null := h
      obtain ⟨fuel,rfl⟩ := Nat.exists_eq_succ_of_ne_zero (Nat.ne_zero_of_lt hfuel)
      exact if_pos rfl
  | cons q ps ih =>
      obtain ⟨rfl,hrest⟩ := h
      obtain ⟨fuel,rfl⟩ := Nat.exists_eq_succ_of_ne_zero (Nat.ne_zero_of_lt hfuel)
      have hp : p ≠ null := fun he => hnull (he ▸ List.mem_cons_self)
      have hcollect := ih hrest (fun hin => hnull (List.mem_cons_of_mem p hin))
        (Nat.lt_of_succ_lt_succ hfuel)
      rw [collect,if_neg hp,hcollect]
      rfl

end TwMonitor.NullChain
