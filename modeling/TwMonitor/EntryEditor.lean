import TwMonitor.MonitorEnter

/-!
# An editor of entries

What the memory editor is for. The entries follow each other from the start address
on. The editor stands at one of them and keeps the digits typed there. An entry that
is left with digits takes them in from the right, and an entry that is left without
digits keeps its value. Every visit that ends with digits is kept.
-/
namespace TwMonitor.EntryEditor
open ByteMemory MonitorEnter NumberPad

/-- A number with digits shifted in behind it, modulo its width. -/
def digitsInto (width content : ℕ) (digits : List ℕ) : ℕ :=
  digits.foldl (fun v d => v * 16 + d) content % 16 ^ width

/-- An entry that was left with digits. -/
structure Visit where
  index : ℕ
  digits : List ℕ
  deriving DecidableEq

structure Editor where
  memory : Memory
  index : ℕ := 0
  farthest : ℕ := 0
  col : ℕ := 0
  typed : List ℕ := []
  left : List Visit := []

section
variable (k : EnterConst) (start : Address)

def entryAddr (n : ℕ) : Address := start + BitVec.ofNat 32 (n * k.entType.bytes)

/-- The digits of a visit go into the entry. -/
def enterVisit (m : Memory) (v : Visit) : Memory :=
  let p := entryAddr k start v.index
  k.entType.store m p
    (BitVec.ofNat 32 (digitsInto k.entType.digitWidth (k.entType.load m p).toNat v.digits))

def Editor.leave (e : Editor) : Editor :=
  if e.typed = [] then e
  else
    { e with
      memory := enterVisit k start e.memory ⟨e.index,e.typed⟩
      typed := []
      left := e.left ++ [⟨e.index,e.typed⟩] }

def Editor.advance (e : Editor) : Editor :=
  let e := e.leave k start
  let content := k.entType.load e.memory (entryAddr k start e.index)
  { e with
    index := e.index + 1
    farthest := max e.farthest (e.index + 1)
    col := if columnOverflow k content e.col then 0 else e.col + 1 }

/-- A backspace takes the digits back, or goes back in the row. -/
def Editor.back (e : Editor) : Editor :=
  if e.typed ≠ [] then { e with typed := [] }
  else if 0 < e.col then { e with index := e.index - 1, col := e.col - 1 }
  else e

def Editor.type (e : Editor) (digit : ℕ) : Editor :=
  let e := { e with typed := e.typed ++ [digit] }
  if e.typed.length = k.entType.digitWidth then e.advance k start else e

def Editor.key (e : Editor) (c : Key) : Editor :=
  if c = NumberPad.key '\r' then e.leave k start
  else if c = NumberPad.key '\x08' then e.back
  else if c = NumberPad.key ' ' then e.advance k start
  else if keyDigit c ≠ 0xFF then e.type k start (keyDigit c)
  else e

end
def openEditor (m₀ : Memory) : Editor := { memory := m₀ }

/-- The keys up to the one that quits. -/
def runEditor (k : EnterConst) (start : Address) : Editor → List Key → Editor
  | e,[] => e
  | e,c::keys =>
      if c = NumberPad.key '\r' then e.leave k start else runEditor k start (e.key k start c) keys

/-! ## Values of entries -/

theorem digitsInto_nil {width content : ℕ} (h : content < 16 ^ width) :
    digitsInto width content [] = content := Nat.mod_eq_of_lt h

theorem digitsInto_lt (width content : ℕ) (digits : List ℕ) :
    digitsInto width content digits < 16 ^ width := Nat.mod_lt _ (by positivity)

/-- The next digit only needs the digits that are still kept. -/
theorem digitsInto_snoc (width content : ℕ) (digits : List ℕ) (d : ℕ) :
    digitsInto width content (digits ++ [d]) =
      (digitsInto width content digits * 16 + d) % 16 ^ width := by
  unfold digitsInto
  rw [List.foldl_append,List.foldl_cons,List.foldl_nil,Nat.add_mod,Nat.mul_mod]
  conv_rhs => rw [Nat.add_mod,Nat.mul_mod,Nat.mod_mod]

/-! ## The entries that were changed -/

section
variable {k : EnterConst} {start : Address}

/-- Entries are the same or have no byte in common, also where they wrap. -/
theorem entryAddr_disjoint {i j : ℕ} (hne : entryAddr k start i ≠ entryAddr k start j)
    {a : Address} (ha : InRange (entryAddr k start i) k.entType.bytes a) :
    ¬InRange (entryAddr k start j) k.entType.bytes a := by
  unfold entryAddr InRange at *
  cases ht : k.entType <;> simp only [ht,EntType.bytes] at hne ha ⊢ <;> bv_omega

theorem enterVisit_frame (m : Memory) (v : Visit) {a : Address}
    (h : ¬InRange (entryAddr k start v.index) k.entType.bytes a) :
    enterVisit k start m v a = m a := k.entType.store_frame m _ h

theorem enterVisits_frame (m : Memory) (visits : List Visit) {a : Address}
    (h : ∀ v ∈ visits, ¬InRange (entryAddr k start v.index) k.entType.bytes a) :
    visits.foldl (enterVisit k start) m a = m a := by
  induction visits generalizing m with
  | nil => rfl
  | cons v visits ih =>
      rw [List.forall_mem_cons] at h
      rw [List.foldl_cons,ih _ h.2,enterVisit_frame m v h.1]

theorem load_enterVisit (m : Memory) (v : Visit) :
    k.entType.load (enterVisit k start m v) (entryAddr k start v.index) =
      BitVec.ofNat 32 (digitsInto k.entType.digitWidth
        (k.entType.load m (entryAddr k start v.index)).toNat v.digits) := by
  refine k.entType.load_store m _ ?_
  have hlt := digitsInto_lt k.entType.digitWidth
    (k.entType.load m (entryAddr k start v.index)).toNat v.digits
  rw [BitVec.toNat_ofNat]
  exact lt_of_le_of_lt (Nat.mod_le _ _) hlt

/-- The last visit with digits decides what an entry holds. -/
theorem load_enterVisits (m : Memory) (before : List Visit) (v : Visit) {after : List Visit}
    (h : ∀ v' ∈ after, entryAddr k start v'.index ≠ entryAddr k start v.index) :
    k.entType.load ((before ++ v::after).foldl (enterVisit k start) m)
        (entryAddr k start v.index) =
      BitVec.ofNat 32 (digitsInto k.entType.digitWidth
        (k.entType.load (before.foldl (enterVisit k start) m)
          (entryAddr k start v.index)).toNat v.digits) := by
  rw [List.foldl_append,List.foldl_cons,← load_enterVisit]
  refine k.entType.load_congr (fun a ha => enterVisits_frame _ after (fun v' hv' => ?_))
  exact entryAddr_disjoint (h v' hv').symm ha

end

/-! ## What every editor keeps -/

section
variable {k : EnterConst} {start : Address} {m₀ : Memory} {e : Editor}

structure Editor.Sound (k : EnterConst) (start : Address) (m₀ : Memory) (e : Editor) : Prop where
  memory : e.memory = e.left.foldl (enterVisit k start) m₀
  typed : ∀ v ∈ e.left, v.digits ≠ []
  reached : ∀ v ∈ e.left, v.index ≤ e.farthest
  index : e.index ≤ e.farthest
  row : e.col ≤ e.index
  short : e.typed.length < k.entType.digitWidth
  digits : ∀ d ∈ e.typed, d < 16

theorem Editor.sound_start (k : EnterConst) (start : Address) (m₀ : Memory) :
    (openEditor m₀).Sound k start m₀ where
  memory := rfl
  typed := by simp [openEditor]
  reached := by simp [openEditor]
  index := le_rfl
  row := le_rfl
  short := by
    show 0 < k.entType.digitWidth
    cases k.entType <;> decide
  digits := by simp [openEditor]

/-- Leaving does not need the typed digits to be short of the width. -/
theorem Editor.leave_sound (hmemory : e.memory = e.left.foldl (enterVisit k start) m₀)
    (htyped : ∀ v ∈ e.left, v.digits ≠ []) (hreached : ∀ v ∈ e.left, v.index ≤ e.farthest)
    (hindex : e.index ≤ e.farthest) (hrow : e.col ≤ e.index) :
    (e.leave k start).Sound k start m₀ := by
  have hwidth : 0 < k.entType.digitWidth := by cases k.entType <;> decide
  unfold Editor.leave
  split
  · next hnil =>
      exact ⟨hmemory,htyped,hreached,hindex,hrow,by rwa [hnil],by rw [hnil]; simp⟩
  · next hne =>
      refine ⟨?_,?_,?_,hindex,hrow,hwidth,by simp⟩
      · rw [List.foldl_append,← hmemory]
        rfl
      · intro v hv
        rcases List.mem_append.mp hv with hold | hnew
        · exact htyped v hold
        · rw [List.mem_singleton.mp hnew]
          exact hne
      · intro v hv
        rcases List.mem_append.mp hv with hold | hnew
        · exact hreached v hold
        · rw [List.mem_singleton.mp hnew]
          exact hindex

theorem Editor.leave_typed (e : Editor) : (e.leave k start).typed = [] := by
  unfold Editor.leave
  split
  · next hnil => exact hnil
  · rfl

theorem Editor.advance_sound (h : (e.leave k start).Sound k start m₀) :
    (e.advance k start).Sound k start m₀ where
  memory := h.memory
  typed := h.typed
  reached v hv := le_trans (h.reached v hv) (by
    unfold Editor.advance Editor.leave
    split <;> exact le_max_left _ _)
  index := by
    unfold Editor.advance Editor.leave
    split <;> exact le_max_right _ _
  row := by
    have hrow := h.row
    have hindex : (e.advance k start).index = (e.leave k start).index + 1 := rfl
    have hcol : (e.advance k start).col ≤ (e.leave k start).col + 1 := by
      unfold Editor.advance
      dsimp only
      split <;> omega
    omega
  short := h.short
  digits := h.digits

theorem Editor.leave_sound' (h : e.Sound k start m₀) : (e.leave k start).Sound k start m₀ :=
  Editor.leave_sound h.memory h.typed h.reached h.index h.row

theorem Editor.back_sound (h : e.Sound k start m₀) : e.back.Sound k start m₀ := by
  have hwidth := lt_of_le_of_lt (Nat.zero_le _) h.short
  unfold Editor.back
  split
  · exact { h with short := hwidth, digits := by simp }
  split
  · have hrow := h.row
    have hindex := h.index
    exact { h with index := by show e.index - 1 ≤ e.farthest; omega
                   row := by show e.col - 1 ≤ e.index - 1; omega }
  · exact h

theorem Editor.type_sound (h : e.Sound k start m₀) {digit : ℕ} (hdigit : digit < 16) :
    (e.type k start digit).Sound k start m₀ := by
  have hshort := h.short
  unfold Editor.type
  dsimp only
  split
  · exact Editor.advance_sound (Editor.leave_sound h.memory h.typed h.reached h.index h.row)
  · next hlen =>
      rw [List.length_append,List.length_singleton] at hlen
      refine { h with short := ?_, digits := ?_ }
      · rw [List.length_append,List.length_singleton]
        omega
      · intro d hd
        rcases List.mem_append.mp hd with hold | hnew
        · exact h.digits d hold
        · rw [List.mem_singleton.mp hnew]
          exact hdigit

theorem Editor.key_sound (h : e.Sound k start m₀) (c : Key) :
    (e.key k start c).Sound k start m₀ := by
  unfold Editor.key
  split
  · exact Editor.leave_sound' h
  split
  · exact Editor.back_sound h
  split
  · exact Editor.advance_sound (Editor.leave_sound' h)
  split
  · next hdigit => exact Editor.type_sound h (charToDigit_lt hdigit)
  · exact h

theorem runEditor_sound (keys : List Key) (h : e.Sound k start m₀) :
    (runEditor k start e keys).Sound k start m₀ := by
  induction keys generalizing e with
  | nil => exact h
  | cons c keys ih =>
      rw [runEditor]
      split
      · exact Editor.leave_sound' h
      · exact ih (Editor.key_sound h c)

/-- Entries below the top of the address space lie above the start. -/
theorem entryAddr_ge {n farthest : ℕ} (hn : n ≤ farthest)
    (htop : start.toNat + (farthest + 1) * k.entType.bytes ≤ 2 ^ 32) {a : Address}
    (ha : InRange (entryAddr k start n) k.entType.bytes a) : start.toNat ≤ a.toNat := by
  unfold InRange entryAddr at ha
  cases ht : k.entType <;> simp only [ht,EntType.bytes] at htop ha <;> bv_omega

end

end TwMonitor.EntryEditor
