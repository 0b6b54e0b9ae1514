import Mathlib.Data.List.Basic
import Mathlib.Tactic

/-!
# Bounded rings

A ring keeps its elements in a buffer of `capacity` places, from the place
`front` on and around the end of the buffer. `back` is the place of the next
element. Appending and removing move one of the two on by one place.
-/
namespace TwMonitor.BoundedRing

variable {α : Type*} {capacity : ℕ}

/-- The indices of a ring of `len` elements. -/
structure Valid (capacity front len back : ℕ) : Prop where
  front_lt : front < capacity
  len_le : len ≤ capacity
  back_eq : back = (front + len) % capacity

namespace Valid
variable {front len back : ℕ}

theorem back_lt (h : Valid capacity front len back) : back < capacity := by
  rw [h.back_eq]
  exact Nat.mod_lt _ (Nat.zero_lt_of_lt h.front_lt)

theorem push (h : Valid capacity front len back) (hroom : len < capacity) :
    Valid capacity front (len + 1) ((back + 1) % capacity) where
  front_lt := h.front_lt
  len_le := hroom
  back_eq := by rw [h.back_eq,Nat.mod_add_mod,Nat.add_assoc]

theorem pop (h : Valid capacity front len back) (hsome : 0 < len) :
    Valid capacity ((front + 1) % capacity) (len - 1) back where
  front_lt := Nat.mod_lt _ (Nat.zero_lt_of_lt h.front_lt)
  len_le := (Nat.sub_le _ _).trans h.len_le
  back_eq := by
    have hshift : front + len = front + 1 + (len - 1) := by omega
    rw [h.back_eq,hshift,Nat.mod_add_mod]

end Valid

/-- The elements, the oldest first. -/
def contents (capacity : ℕ) (buffer : ℕ → α) (front len : ℕ) : List α :=
  (List.range len).map fun i => buffer ((front + i) % capacity)

@[simp] theorem length_contents (buffer : ℕ → α) (front len : ℕ) :
    (contents capacity buffer front len).length = len := by
  simp [contents]

/-- Only the places of the ring matter. -/
theorem contents_congr {buffer buffer' : ℕ → α} (hcapacity : 0 < capacity)
    (h : ∀ i < capacity, buffer' i = buffer i) (front len : ℕ) :
    contents capacity buffer' front len = contents capacity buffer front len :=
  List.map_congr_left fun _ _ => h _ (Nat.mod_lt _ hcapacity)

/-- Two places that are less than the capacity apart differ. -/
theorem place_ne {front i j : ℕ} (hij : i < j) (hj : j < capacity) :
    (front + i) % capacity ≠ (front + j) % capacity := by
  intro h
  have hmod : i ≡ j [MOD capacity] := Nat.ModEq.add_left_cancel' front h
  have hsame : i = j := hmod.eq_of_lt_of_lt (hij.trans hj) hj
  exact hij.ne hsame

/-- Writing the place after the last element appends to the ring. -/
theorem contents_push (buffer : ℕ → α) {front len : ℕ} (hroom : len < capacity) (b : α) :
    contents capacity (Function.update buffer ((front + len) % capacity) b) front (len + 1) =
      contents capacity buffer front len ++ [b] := by
  have hold : ∀ i ∈ List.range len,
      Function.update buffer ((front + len) % capacity) b ((front + i) % capacity) =
        buffer ((front + i) % capacity) := by
    intro i hi
    exact Function.update_of_ne (place_ne (List.mem_range.mp hi) hroom) b buffer
  rw [contents,List.range_succ,List.map_append,List.map_congr_left hold]
  simp [contents]

/-- The first element is at the front, and the others follow. -/
theorem contents_pop (buffer : ℕ → α) {front len : ℕ} (hfront : front < capacity)
    (hsome : 0 < len) :
    contents capacity buffer front len =
      buffer front::contents capacity buffer ((front + 1) % capacity) (len - 1) := by
  obtain ⟨n,rfl⟩ := Nat.exists_eq_succ_of_ne_zero hsome.ne'
  have hrest : ∀ i, (front + (i + 1)) % capacity = ((front + 1) % capacity + i) % capacity := by
    intro i
    rw [Nat.mod_add_mod]
    congr 1
    omega
  rw [contents,List.range_succ_eq_map,List.map_cons,List.map_map,Nat.add_zero,
    Nat.mod_eq_of_lt hfront,Nat.succ_sub_one]
  congr 1
  refine List.map_congr_left fun i _ => ?_
  exact congrArg buffer (hrest i)

end TwMonitor.BoundedRing
