import Mathlib.Tactic

/-!
# Byte-addressed little-endian memory

Addresses are 32-bit and wrap. A halfword or word store writes two or four
consecutive bytes, low byte first; every other byte keeps its value.
-/
namespace TwMonitor.ByteMemory

abbrev Address := BitVec 32

abbrev Memory := Address → BitVec 8

def load16 (m : Memory) (p : Address) : BitVec 16 := m (p + 1) ++ m p

def load32 (m : Memory) (p : Address) : BitVec 32 := load16 m (p + 2) ++ load16 m p

def store8 (m : Memory) (p : Address) (v : BitVec 8) : Memory :=
  fun a => if a = p then v else m a

def store16 (m : Memory) (p : Address) (v : BitVec 16) : Memory :=
  store8 (store8 m p (v.extractLsb' 0 8)) (p + 1) (v.extractLsb' 8 8)

def store32 (m : Memory) (p : Address) (v : BitVec 32) : Memory :=
  store16 (store16 m p (v.extractLsb' 0 16)) (p + 2) (v.extractLsb' 16 16)

/-- The address lies among the `k` bytes from `p` on. -/
def InRange (p : Address) (k : ℕ) (a : Address) : Prop := (a - p).toNat < k

instance (p : Address) (k : ℕ) (a : Address) : Decidable (InRange p k a) := by
  unfold InRange; infer_instance

/-- A range that does not wrap is an interval. -/
theorem inRange_iff {p a : Address} {k : ℕ} (h : p.toNat + k ≤ 2 ^ 32) :
    InRange p k a ↔ p.toNat ≤ a.toNat ∧ a.toNat < p.toNat + k := by
  unfold InRange
  bv_omega

@[simp] theorem store8_same (m : Memory) (p : Address) (v : BitVec 8) : store8 m p v p = v :=
  if_pos rfl

@[simp] theorem store8_ne (m : Memory) {p a : Address} (v : BitVec 8) (h : a ≠ p) :
    store8 m p v a = m a := if_neg h

theorem store16_ne (m : Memory) {p a : Address} (v : BitVec 16) (h : ¬ InRange p 2 a) :
    store16 m p v a = m a := by
  unfold InRange at h
  have h₀ : a ≠ p := by bv_omega
  have h₁ : a ≠ p + 1 := by bv_omega
  rw [store16,store8_ne _ _ h₁,store8_ne _ _ h₀]

theorem store32_ne (m : Memory) {p a : Address} (v : BitVec 32) (h : ¬ InRange p 4 a) :
    store32 m p v a = m a := by
  unfold InRange at h
  have h₀ : ¬ InRange p 2 a := by unfold InRange; bv_omega
  have h₂ : ¬ InRange (p + 2) 2 a := by unfold InRange; bv_omega
  rw [store32,store16_ne _ _ h₂,store16_ne _ _ h₀]

theorem load16_congr {m m' : Memory} {p : Address} (h₀ : m' p = m p)
    (h₁ : m' (p + 1) = m (p + 1)) : load16 m' p = load16 m p := by
  rw [load16,load16,h₀,h₁]

theorem load32_congr {m m' : Memory} {p : Address} (h : ∀ a, InRange p 4 a → m' a = m a) :
    load32 m' p = load32 m p := by
  unfold InRange at h
  rw [load32,load32,load16,load16,load16,load16,h p (by bv_omega),h (p + 1) (by bv_omega),
    h (p + 2) (by bv_omega),h (p + 2 + 1) (by bv_omega)]

theorem load32_zero {m : Memory} {p : Address} (h : ∀ i < 4, m (p + BitVec.ofNat 32 i) = 0) :
    load32 m p = 0 := by
  have h₀ : m p = 0 := (congrArg m (BitVec.add_zero p)).symm.trans (h 0 (by decide))
  have h₁ : m (p + 1) = 0 := h 1 (by decide)
  have h₂ : m (p + 2) = 0 := h 2 (by decide)
  have h₃ : m (p + 2 + 1) = 0 := (congrArg m (BitVec.add_assoc p 2 1)).trans (h 3 (by decide))
  rw [load32,load16,load16,h₀,h₁,h₂,h₃]
  decide

theorem load32_store32_of_disjoint (m : Memory) {p q : Address} (v : BitVec 32)
    (h : 4 ≤ (q - p).toNat ∧ 4 ≤ (p - q).toNat) : load32 (store32 m p v) q = load32 m q := by
  refine load32_congr fun a ha => store32_ne m v ?_
  unfold InRange at ha ⊢
  bv_omega

theorem load16_store16 (m : Memory) (p : Address) (v : BitVec 16) :
    load16 (store16 m p v) p = v := by
  have hp : p ≠ p + 1 := by bv_omega
  rw [load16,store16,store8_same,store8_ne _ _ hp,store8_same]
  exact @BitVec.extractLsb'_append_extractLsb' 8 8 v

/-- A halfword is unaffected by a halfword store two bytes above it. -/
theorem load16_store16_above (m : Memory) (p : Address) (v : BitVec 16) :
    load16 (store16 m (p + 2) v) p = load16 m p := by
  apply load16_congr <;> apply store16_ne <;> unfold InRange <;> bv_omega

theorem load32_store32 (m : Memory) (p : Address) (v : BitVec 32) :
    load32 (store32 m p v) p = v := by
  rw [load32,store32,load16_store16,load16_store16_above,load16_store16]
  exact @BitVec.extractLsb'_append_extractLsb' 16 16 v

/-- Writing back what is there changes nothing. -/
theorem store8_self (m : Memory) (p : Address) : store8 m p (m p) = m := by
  funext a
  unfold store8
  split
  · next heq => rw [heq]
  · rfl

theorem store16_load16 (m : Memory) (p : Address) : store16 m p (load16 m p) = m := by
  have hlow : (load16 m p).extractLsb' 0 8 = m p := BitVec.extractLsb'_append_eq_right
  have hhigh : (load16 m p).extractLsb' 8 8 = m (p + 1) := BitVec.extractLsb'_append_eq_left
  rw [store16,hlow,hhigh,store8_self,store8_self]

theorem store32_load32 (m : Memory) (p : Address) : store32 m p (load32 m p) = m := by
  have hlow : (load32 m p).extractLsb' 0 16 = load16 m p := BitVec.extractLsb'_append_eq_right
  have hhigh : (load32 m p).extractLsb' 16 16 = load16 m (p + 2) :=
    BitVec.extractLsb'_append_eq_left
  rw [store32,hlow,hhigh,store16_load16,store16_load16]

/-- Store bytes one after the other. -/
def storeBytes (m : Memory) (p : Address) : List (BitVec 8) → Memory
  | [] => m
  | b::bytes => storeBytes (store8 m p b) (p + 1) bytes

theorem storeBytes_concat (m : Memory) (p : Address) (bytes : List (BitVec 8)) (b : BitVec 8) :
    storeBytes m p (bytes ++ [b]) =
      store8 (storeBytes m p bytes) (p + BitVec.ofNat 32 bytes.length) b := by
  induction bytes generalizing m p with
  | nil =>
      have hp : p + BitVec.ofNat 32 0 = p := BitVec.add_zero p
      rw [List.length_nil,hp]
      rfl
  | cons c bytes ih =>
      have hnext : p + 1 + BitVec.ofNat 32 bytes.length =
          p + BitVec.ofNat 32 (bytes.length + 1) := by
        rw [BitVec.ofNat_add,BitVec.add_assoc]
        exact congrArg (p + ·) (BitVec.add_comm 1 _)
      rw [List.cons_append,storeBytes,ih,hnext]
      rfl

theorem storeBytes_frame (m : Memory) (p : Address) (bytes : List (BitVec 8)) {a : Address}
    (h : ¬ InRange p bytes.length a) : storeBytes m p bytes a = m a := by
  induction bytes using List.reverseRecOn with
  | nil => rfl
  | append_singleton bytes b ih =>
      rw [InRange,List.length_append,List.length_singleton] at h
      have hlast : a ≠ p + BitVec.ofNat 32 bytes.length := by
        rintro rfl
        rw [BitVec.add_comm,BitVec.add_sub_cancel,BitVec.toNat_ofNat] at h
        have hle := Nat.mod_le bytes.length (2 ^ 32)
        omega
      have hbefore : ¬ InRange p bytes.length a := fun hin => h (Nat.lt_succ_of_lt hin)
      rw [storeBytes_concat,store8_ne _ _ hlast,ih hbefore]

/-- Bytes that do not wrap onto themselves can be read back. -/
theorem storeBytes_get (m : Memory) (p : Address) {bytes : List (BitVec 8)}
    (hlen : bytes.length ≤ 2 ^ 32) {i : ℕ} (hi : i < bytes.length) :
    bytes[i]? = some (storeBytes m p bytes (p + BitVec.ofNat 32 i)) := by
  induction bytes using List.reverseRecOn with
  | nil => exact absurd hi (Nat.not_lt_zero i)
  | append_singleton bytes b ih =>
      rw [List.length_append,List.length_singleton] at hlen hi
      rw [storeBytes_concat]
      by_cases hlast : i = bytes.length
      · rw [hlast,store8_same,List.getElem?_concat_length]
      · have hne : p + BitVec.ofNat 32 i ≠ p + BitVec.ofNat 32 bytes.length := by
          intro he
          have hsame := congrArg BitVec.toNat ((BitVec.add_right_inj p).mp he)
          rw [BitVec.toNat_ofNat,BitVec.toNat_ofNat] at hsame
          omega
        rw [store8_ne _ _ hne,List.getElem?_append_left (by omega),ih (by omega) (by omega)]

/-- The `k` bytes from `p` on. -/
def readBytes (m : Memory) (p : Address) : ℕ → List (BitVec 8)
  | 0 => []
  | k + 1 => m p::readBytes m (p + 1) k

theorem readBytes_congr {m m' : Memory} {p : Address} {k : ℕ} (hk : k ≤ 2 ^ 32)
    (h : ∀ a, InRange p k a → m' a = m a) : readBytes m' p k = readBytes m p k := by
  induction k generalizing p with
  | zero => rfl
  | succ k ih =>
      have hfirst : InRange p (k + 1) p := by
        rw [InRange,BitVec.sub_self]
        exact Nat.succ_pos k
      have hrest : readBytes m' (p + 1) k = readBytes m (p + 1) k := by
        refine ih (by omega) fun a ha => h a ?_
        unfold InRange at ha ⊢
        bv_omega
      rw [readBytes,readBytes,h p hfirst,hrest]

/-- Bytes that were stored are read back. -/
theorem readBytes_storeBytes (m : Memory) (p : Address) {bytes : List (BitVec 8)}
    (hlen : bytes.length < 2 ^ 32) :
    readBytes (storeBytes m p bytes) p bytes.length = bytes := by
  induction bytes generalizing m p with
  | nil => rfl
  | cons b bytes ih =>
      rw [List.length_cons] at hlen
      have hbefore : ¬ InRange (p + 1) bytes.length p := by
        unfold InRange
        bv_omega
      have hfirst : storeBytes (store8 m p b) (p + 1) bytes p = b := by
        rw [storeBytes_frame _ _ _ hbefore,store8_same]
      rw [List.length_cons,storeBytes,readBytes,hfirst,ih _ _ (by omega)]

/-- The first halfword of a word is its low half. -/
theorem setWidth_load32 (m : Memory) (p : Address) : (load32 m p).setWidth 16 = load16 m p := by
  rw [load32,BitVec.setWidth_append]
  simp

end TwMonitor.ByteMemory
