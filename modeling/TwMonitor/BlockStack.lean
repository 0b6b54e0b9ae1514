import Mathlib.Data.List.Basic
import Mathlib.Tactic

/-!
# Blocks stacked downward

Blocks that grow from the top of a region down, each one right below the one
before it. They tile the region between the bottom of the last block and the
top, so two of them never overlap.
-/
namespace TwMonitor.BlockStack

variable {α : Type*} {base size base' size' : α → ℕ} {top bottom : ℕ} {b : α} {bs : List α}

/-- The blocks fill the region from `top` down to `bottom`, in this order. -/
def Stacked (base size : α → ℕ) : ℕ → List α → ℕ → Prop
  | top,[],bottom => bottom = top
  | top,b::bs,bottom => base b + size b = top ∧ Stacked base size (base b) bs bottom

theorem stacked_concat : Stacked base size top (bs ++ [b]) bottom ↔
    Stacked base size top bs (base b + size b) ∧ bottom = base b := by
  induction bs generalizing top with
  | nil => exact Iff.rfl
  | cons c bs ih => exact (and_congr_right fun _ => ih).trans and_assoc.symm

namespace Stacked

theorem congr (h : Stacked base size top bs bottom) (hbase : ∀ b ∈ bs, base' b = base b)
    (hsize : ∀ b ∈ bs, size' b = size b) : Stacked base' size' top bs bottom := by
  induction bs generalizing top with
  | nil => exact h
  | cons b bs ih =>
      have hb := hbase b List.mem_cons_self
      refine ⟨by rw [hb,hsize b List.mem_cons_self]; exact h.1,?_⟩
      rw [hb]
      exact ih h.2 (fun c hc => hbase c (List.mem_cons_of_mem b hc))
        fun c hc => hsize c (List.mem_cons_of_mem b hc)

theorem le (h : Stacked base size top bs bottom) : bottom ≤ top := by
  induction bs generalizing top with
  | nil => exact h.le
  | cons b bs ih =>
      have hle := ih h.2
      have htop := h.1
      omega

/-- Every block lies in the region. -/
theorem bounds (h : Stacked base size top bs bottom) (hb : b ∈ bs) :
    bottom ≤ base b ∧ base b + size b ≤ top := by
  induction bs generalizing top with
  | nil => exact absurd hb List.not_mem_nil
  | cons c bs ih =>
      have htop := h.1
      rcases List.mem_cons.mp hb with rfl | hb
      · exact ⟨h.2.le,htop.le⟩
      · obtain ⟨hlow,hhigh⟩ := ih h.2 hb
        exact ⟨hlow,by omega⟩

/-- A later block lies below an earlier one. -/
theorem pairwise (h : Stacked base size top bs bottom) :
    bs.Pairwise fun b c => base c + size c ≤ base b := by
  induction bs generalizing top with
  | nil => exact List.Pairwise.nil
  | cons b bs ih => exact List.pairwise_cons.mpr ⟨fun c hc => (h.2.bounds hc).2,ih h.2⟩

/-- Blocks that are not empty have different bases. -/
theorem nodup (h : Stacked base size top bs bottom) (hsize : ∀ b ∈ bs, 0 < size b) :
    bs.Nodup := by
  refine h.pairwise.imp_of_mem fun {b c} _ hc hbelow he => ?_
  have hpos := hsize c hc
  rw [he] at hbelow
  omega

/-- Two blocks never overlap. -/
theorem disjoint (h : Stacked base size top bs bottom) {c : α} (hb : b ∈ bs) (hc : c ∈ bs)
    (hne : b ≠ c) : base b + size b ≤ base c ∨ base c + size c ≤ base b := by
  induction bs generalizing top with
  | nil => exact absurd hb List.not_mem_nil
  | cons d bs ih =>
      rcases List.mem_cons.mp hb with rfl | hb'
      · rcases List.mem_cons.mp hc with rfl | hc'
        · exact absurd rfl hne
        · exact Or.inr (h.2.bounds hc').2
      · rcases List.mem_cons.mp hc with rfl | hc'
        · exact Or.inl (h.2.bounds hb').2
        · exact ih h.2 hb' hc'

/-- Blocks of a least size are not too many. -/
theorem length_le (h : Stacked base size top bs bottom) {least : ℕ}
    (hsize : ∀ b ∈ bs, least ≤ size b) : least * bs.length + bottom ≤ top := by
  induction bs generalizing top with
  | nil =>
      rw [List.length_nil,Nat.mul_zero,Nat.zero_add]
      exact h.le
  | cons b bs ih =>
      have hrest := ih h.2 fun c hc => hsize c (List.mem_cons_of_mem b hc)
      have hb := hsize b List.mem_cons_self
      have htop := h.1
      rw [List.length_cons,Nat.mul_succ]
      omega

/-- Blocks of aligned sizes below an aligned top are aligned. -/
theorem dvd (h : Stacked base size top bs bottom) {k : ℕ} (htop : k ∣ top)
    (hsize : ∀ b ∈ bs, k ∣ size b) (hb : b ∈ bs) : k ∣ base b := by
  induction bs generalizing top with
  | nil => exact absurd hb List.not_mem_nil
  | cons c bs ih =>
      rw [← h.1] at htop
      have hc : k ∣ base c := (Nat.dvd_add_left (hsize c List.mem_cons_self)).mp htop
      rcases List.mem_cons.mp hb with rfl | hb
      · exact hc
      · exact ih h.2 hc (fun d hd => hsize d (List.mem_cons_of_mem c hd)) hb

end Stacked

end TwMonitor.BlockStack
