import TwMonitor.EntryEditor

/-!
# The memory editor edits entries

The cached entry of `monitor_enter` is what the typed digits make of the entry in
memory, and its address is that of the entry the editor stands at. The line in front
of the cursor holds the address of the row and the entries up to the current one, so
that erasing one of them leaves those before it.
-/
namespace TwMonitor.EnterRefinement
open ByteMemory EntryEditor MonitorEnter NumberPad Terminal

/-- An entry as it is printed. -/
def entryText (t : EntType) (number : BitVec 32) : List Char := ' '::hexText t.digitWidth number

theorem entryText_length (t : EntType) {number : BitVec 32}
    (h : number.toNat < 16 ^ t.digitWidth) :
    (entryText t number).length =
      t.digitWidth + 1 + if t.extraSpaceInNumber then 1 else 0 := by
  have hwidth : t.digitWidth = 2 ∨ t.digitWidth = 4 ∨ t.digitWidth = 8 := by cases t <;> decide
  rw [entryText,List.length_cons,hexText_length hwidth h,EntType.extraSpaceInNumber]
  simp only [decide_eq_true_eq]
  omega

/-- A row of entries: what stands on the line before it, its address and its entries. -/
structure Row where
  lead : List Char
  address : Address
  shown : List (BitVec 32)

def Row.text (t : EntType) (r : Row) : List Char :=
  r.lead ++ hexText 8 r.address ++ r.shown.flatMap (entryText t)

def Row.snoc (r : Row) (number : BitVec 32) : Row := { r with shown := r.shown ++ [number] }

theorem Row.text_snoc (t : EntType) (r : Row) (number : BitVec 32) :
    (r.snoc number).text t = r.text t ++ entryText t number := by
  simp [Row.text,Row.snoc]

/-- One entry of a row was erased, with its leading space and its separator. -/
def ErasesEntry (t : EntType) (e : Erasure) : Prop :=
  ∃ (r : Row) (number : BitVec 32), ErasesText (r.text t) (entryText t number) e

/-! ## What the loop does -/

section
variable {k : EnterConst} {s : EnterState}

theorem printEntry_eq (k : EnterConst) (s : EnterState) :
    printEntry k s = some
      { s with
        screen := { s.screen with line := s.screen.line ++ entryText k.entType s.current } } := by
  have hwidth : k.entType.digitWidth ≤ 8 := by cases k.entType <;> decide
  have hspace : s.screen.putchar ' ' = { s.screen with line := s.screen.line ++ [' '] } :=
    if_neg (by decide)
  rw [printEntry,hspace,puthexnumber_eq _ hwidth,Option.map_some]
  simp [entryText]

theorem printRow_eq (s : EnterState) :
    printRow s = some
      { s with screen := { s.screen with line := hexText 8 s.addr }, col := 0 } := by
  rw [printRow,puthexword_eq]
  rfl

theorem enterRound_stay (h : s.digitIdx < k.entType.digitWidth) :
    enterRound k s = some
      { s with
        screen := { s.screen with line := s.screen.line ++ entryText k.entType s.current } } := by
  rw [enterRound,printEntry_eq,Option.bind_eq_bind,Option.bind_some,enterNext,if_pos h]

/-- The state behind an entry that is stored. -/
def moved (k : EnterConst) (s : EnterState) : EnterState :=
  let memory := k.entType.store s.memory s.addr s.current
  let addr := s.addr + BitVec.ofNat 32 k.entType.bytes
  let current := k.entType.load memory addr
  let overflow := columnOverflow k s.current s.col
  { memory
    stores := s.stores ++ [s.addr]
    addr
    current
    digitIdx := 0
    col := if overflow then 0 else s.col + 1
    screen :=
      { s.screen with
        line := (if overflow then hexText 8 addr
          else s.screen.line ++ entryText k.entType s.current) ++ entryText k.entType current } }

theorem enterRound_move (h : k.entType.digitWidth ≤ s.digitIdx) :
    enterRound k s = some (moved k s) := by
  rw [enterRound,printEntry_eq,Option.bind_eq_bind,Option.bind_some,enterNext,if_neg (by
    simpa using h)]
  unfold moved nextColumn storeCurrent loadCurrent
  dsimp only
  split
  · rw [printRow_eq,Option.bind_eq_bind,Option.bind_some,printEntry_eq]
  · rw [Option.bind_eq_bind,Option.bind_some,printEntry_eq]

theorem eraseNumber_eq {before : List Char} {number : BitVec 32}
    (hline : s.screen.line = before ++ entryText k.entType number)
    (hnumber : number.toNat < 16 ^ k.entType.digitWidth) :
    eraseNumber k s =
      { s with
        screen := ⟨before,
          s.screen.erasures ++ [⟨s.screen.line,(entryText k.entType number).length⟩]⟩ } := by
  rw [eraseNumber,← entryText_length k.entType hnumber,eraseLastChars_line s.screen hline]

end

/-! ## The cached entry -/

structure Refines (k : EnterConst) (start : Address) (s : EnterState) (e : Editor) : Prop where
  memory : s.memory = e.memory
  addr : s.addr = entryAddr k start e.index
  col : s.col = e.col
  current : s.current.toNat = digitsInto k.entType.digitWidth
    (k.entType.load e.memory (entryAddr k start e.index)).toNat e.typed
  stores : ∀ a ∈ s.stores, ∃ n ≤ e.farthest, a = entryAddr k start n

section
variable {k : EnterConst} {start : Address} {s : EnterState} {e : Editor} {m₀ : Memory}

theorem Refines.current_lt (h : Refines k start s e) :
    s.current.toNat < 16 ^ k.entType.digitWidth := by
  rw [h.current]
  exact digitsInto_lt _ _ _

/-- Storing the cached entry is what leaving does. -/
theorem Refines.store (h : Refines k start s e) :
    k.entType.store s.memory s.addr s.current = (e.leave k start).memory := by
  have hcurrent : s.current = BitVec.ofNat 32 (digitsInto k.entType.digitWidth
      (k.entType.load e.memory (entryAddr k start e.index)).toNat e.typed) := by
    rw [← h.current,BitVec.ofNat_toNat,BitVec.setWidth_eq]
  rw [h.memory,h.addr,hcurrent]
  unfold Editor.leave
  split
  · next hnil =>
      rw [hnil,digitsInto_nil (k.entType.load_lt _ _),BitVec.ofNat_toNat,BitVec.setWidth_eq,
        k.entType.store_load]
  · rfl

theorem Refines.load_leave (h : Refines k start s e) :
    k.entType.load (e.leave k start).memory (entryAddr k start e.index) = s.current := by
  rw [← h.store,← h.addr]
  exact k.entType.load_store s.memory s.addr h.current_lt

theorem entryAddr_succ (n : ℕ) :
    entryAddr k start (n + 1) = entryAddr k start n + BitVec.ofNat 32 k.entType.bytes := by
  rw [entryAddr,entryAddr,Nat.succ_mul,BitVec.ofNat_add,BitVec.add_assoc]

theorem Refines.stores_leave (h : Refines k start s e) (hindex : e.index ≤ e.farthest) :
    ∀ a ∈ s.stores ++ [s.addr], ∃ n ≤ e.farthest, a = entryAddr k start n := by
  intro a ha
  rcases List.mem_append.mp ha with hold | hnew
  · exact h.stores a hold
  · rw [List.mem_singleton.mp hnew]
    exact ⟨e.index,hindex,h.addr⟩

theorem Editor.leave_index (e : Editor) : (e.leave k start).index = e.index := by
  unfold Editor.leave
  split <;> rfl

theorem Editor.leave_farthest (e : Editor) : (e.leave k start).farthest = e.farthest := by
  unfold Editor.leave
  split <;> rfl

theorem Editor.leave_col (e : Editor) : (e.leave k start).col = e.col := by
  unfold Editor.leave
  split <;> rfl

theorem Refines.moved (h : Refines k start s e) (hindex : e.index ≤ e.farthest) :
    Refines k start (moved k s) (e.advance k start) := by
  have haddr : s.addr + BitVec.ofNat 32 k.entType.bytes =
      entryAddr k start ((e.leave k start).index + 1) := by
    rw [h.addr,Editor.leave_index,entryAddr_succ]
  have htyped : (e.advance k start).typed = [] := e.leave_typed
  refine ⟨h.store,haddr,?_,?_,fun a ha => ?_⟩
  · show (if columnOverflow k s.current s.col then 0 else s.col + 1) = _
    unfold Editor.advance
    dsimp only
    rw [Editor.leave_index,h.load_leave,Editor.leave_col,h.col]
  · rw [htyped,digitsInto_nil (k.entType.load_lt _ _)]
    show (k.entType.load (k.entType.store s.memory s.addr s.current) _).toNat = _
    rw [h.store,haddr]
    rfl
  · obtain ⟨n,hn,rfl⟩ := h.stores_leave hindex a ha
    refine ⟨n,le_trans hn ?_,rfl⟩
    show e.farthest ≤ max (e.leave k start).farthest _
    rw [Editor.leave_farthest]
    exact le_max_left _ _

/-- A digit is shifted into the cached entry. -/
theorem Refines.type (h : Refines k start s e) {digit : ℕ} (hdigit : digit < 16) (digitIdx : ℕ) :
    Refines k start
      { s with
        current := (s.current <<< 4 ||| BitVec.ofNat 32 digit) &&& k.entType.mask
        digitIdx }
      { e with typed := e.typed ++ [digit] } := by
  refine ⟨h.memory,h.addr,h.col,?_,h.stores⟩
  have hshift : (s.current <<< 4 ||| BitVec.ofNat 32 digit).toNat =
      (s.current.toNat * 16) % 2 ^ 32 + digit := by
    have hd : (BitVec.ofNat 32 digit).toNat = digit := by
      rw [BitVec.toNat_ofNat]
      exact Nat.mod_eq_of_lt (by omega)
    have hs : (s.current <<< 4).toNat = 2 ^ 4 * (s.current.toNat % 2 ^ 28) := by
      rw [BitVec.toNat_shiftLeft,Nat.shiftLeft_eq]
      omega
    rw [BitVec.toNat_or,hs,hd,← Nat.two_pow_add_eq_or_of_lt hdigit]
    omega
  show ((s.current <<< 4 ||| BitVec.ofNat 32 digit) &&& k.entType.mask).toNat = _
  rw [digitsInto_snoc,← h.current,k.entType.and_mask,hshift]
  cases k.entType <;> simp only [EntType.digitWidth,EntType.bytes] <;> omega

/-- Loading the entry again takes the digits back. -/
theorem Refines.reload (h : Refines k start s e) :
    Refines k start { loadCurrent k s with digitIdx := 0 } { e with typed := [] } := by
  refine ⟨h.memory,h.addr,h.col,?_,h.stores⟩
  rw [digitsInto_nil (k.entType.load_lt _ _),← h.memory,← h.addr]
  rfl

theorem Refines.goBack (h : Refines k start s e) (hcol : 0 < s.col) (hrow : e.col ≤ e.index)
    (htyped : e.typed = []) (screen : Screen) :
    Refines k start
      { loadCurrent k
          { s with
            col := s.col - 1
            addr := s.addr - BitVec.ofNat 32 k.entType.bytes
            screen } with digitIdx := 0 }
      { e with index := e.index - 1, col := e.col - 1 } := by
  have hsucc : e.index - 1 + 1 = e.index := by
    have hcol' := h.col
    omega
  have haddr : s.addr - BitVec.ofNat 32 k.entType.bytes = entryAddr k start (e.index - 1) := by
    rw [h.addr,← hsucc,entryAddr_succ,BitVec.add_sub_cancel,hsucc]
  refine ⟨h.memory,haddr,congrArg (· - 1) h.col,?_,h.stores⟩
  rw [htyped,digitsInto_nil (k.entType.load_lt _ _),← h.memory,← haddr]
  rfl

end

/-! ## The line -/

/-- The entries of the row up to an address. -/
structure OnRow (k : EnterConst) (r : Row) (addr : Address) (col : ℕ) : Prop where
  addr : addr = r.address + BitVec.ofNat 32 (col * k.entType.bytes)
  col : r.shown.length = col
  shown : ∀ v ∈ r.shown, v.toNat < 16 ^ k.entType.digitWidth

structure ShowsLine (k : EnterConst) (line : List Char) (t : Screen) : Prop where
  line : t.line = line
  erasures : ∀ e ∈ t.erasures, ErasesEntry k.entType e

/-- The row ends with the current entry. -/
def ShowsRow (k : EnterConst) (s : EnterState) : Prop :=
  ∃ r : Row, OnRow k r s.addr s.col ∧
    ShowsLine k (r.text k.entType ++ entryText k.entType s.current) s.screen

section
variable {k : EnterConst} {r : Row} {s : EnterState}

theorem eraseNumber_line {number : BitVec 32}
    (hline : ShowsLine k (r.text k.entType ++ entryText k.entType number) s.screen)
    (hnumber : number.toNat < 16 ^ k.entType.digitWidth) :
    ∃ t, eraseNumber k s = { s with screen := t } ∧ ShowsLine k (r.text k.entType) t := by
  refine ⟨_,eraseNumber_eq hline.line hnumber,rfl,fun e he => ?_⟩
  rcases List.mem_append.mp he with hold | hnew
  · exact hline.erasures e hold
  · rw [List.mem_singleton.mp hnew]
    exact ⟨r,number,hline.line,rfl⟩

/-- The row behind the erased last entry. -/
theorem OnRow.goBack {addr : Address} {col : ℕ} (h : OnRow k r addr col) (hcol : 0 < col) :
    ∃ (r' : Row) (number : BitVec 32),
      r.text k.entType = r'.text k.entType ++ entryText k.entType number ∧
      number.toNat < 16 ^ k.entType.digitWidth ∧
      OnRow k r' (addr - BitVec.ofNat 32 k.entType.bytes) (col - 1) := by
  have hne : r.shown ≠ [] := by
    intro hnil
    have hlen := h.col
    rw [hnil,List.length_nil] at hlen
    omega
  have hlast := List.dropLast_append_getLast hne
  have hr : Row.snoc { r with shown := r.shown.dropLast } (r.shown.getLast hne) = r := by
    rw [Row.snoc,hlast]
  refine ⟨{ r with shown := r.shown.dropLast },r.shown.getLast hne,?_,
    h.shown _ (List.getLast_mem hne),?_,?_,fun v hv => h.shown v (List.mem_of_mem_dropLast hv)⟩
  · rw [← Row.text_snoc,hr]
  · have hsucc : col - 1 + 1 = col := by omega
    rw [h.addr,← hsucc,Nat.succ_mul,BitVec.ofNat_add,← BitVec.add_assoc,BitVec.add_sub_cancel,hsucc]
  · rw [List.length_dropLast,h.col]

theorem enterRound_stay_shows (hline : ShowsLine k (r.text k.entType) s.screen)
    (hidx : s.digitIdx < k.entType.digitWidth) :
    ∃ t, enterRound k s = some { s with screen := t } ∧
      ShowsLine k (r.text k.entType ++ entryText k.entType s.current) t :=
  ⟨_,enterRound_stay hidx,by rw [hline.line],hline.erasures⟩

/-- The next entry stands on the row, or starts one. -/
theorem moved_shows (hrow : OnRow k r s.addr s.col)
    (hline : ShowsLine k (r.text k.entType) s.screen)
    (hcurrent : s.current.toNat < 16 ^ k.entType.digitWidth) : ShowsRow k (moved k s) := by
  unfold ShowsRow moved
  dsimp only
  cases columnOverflow k s.current s.col with
  | true =>
      refine ⟨⟨[],s.addr + BitVec.ofNat 32 k.entType.bytes,[]⟩,⟨?_,rfl,by simp⟩,?_,hline.erasures⟩
      · simp
      · simp [Row.text]
  | false =>
      refine ⟨r.snoc s.current,⟨?_,?_,?_⟩,?_,hline.erasures⟩
      · simp only [Bool.false_eq_true,if_false]
        rw [hrow.addr,Nat.succ_mul,BitVec.ofNat_add,← BitVec.add_assoc]
        rfl
      · simp [Row.snoc,hrow.col]
      · intro v hv
        rcases List.mem_append.mp hv with hold | hnew
        · exact hrow.shown v hold
        · rw [List.mem_singleton.mp hnew]
          exact hcurrent
      · simp [Row.text_snoc,hline.line]

end

/-! ## A key -/

/-- The editor at a prompt, and the line in front of the cursor. -/
structure Follows (k : EnterConst) (start : Address) (s : EnterState) (e : Editor) : Prop where
  refines : Refines k start s e
  digitIdx : s.digitIdx = e.typed.length
  row : ShowsRow k s

section
variable {k : EnterConst} {start : Address} {s : EnterState} {e e' : Editor} {m₀ : Memory}
  {r : Row}

/-- The loop prints the entry again and waits. -/
theorem enterRound_stays (hrefines : Refines k start s e) (hidx : s.digitIdx = e.typed.length)
    (hshort : e.typed.length < k.entType.digitWidth) (hrow : OnRow k r s.addr s.col)
    (hline : ShowsLine k (r.text k.entType) s.screen) :
    ∃ s', enterRound k s = some s' ∧ Follows k start s' e := by
  obtain ⟨t,hround,hshown⟩ := enterRound_stay_shows (s := s) hline (by omega)
  exact ⟨_,hround,⟨hrefines.memory,hrefines.addr,hrefines.col,hrefines.current,hrefines.stores⟩,
    hidx,r,hrow,hshown⟩

/-- The loop stores the entry and waits at the next one. -/
theorem enterRound_moves (hrefines : Refines k start s e) (hindex : e.index ≤ e.farthest)
    (hidx : k.entType.digitWidth ≤ s.digitIdx) (hrow : OnRow k r s.addr s.col)
    (hline : ShowsLine k (r.text k.entType) s.screen) :
    ∃ s', enterRound k s = some s' ∧ Follows k start s' (e.advance k start) := by
  have htyped : (e.advance k start).typed = [] := e.leave_typed
  exact ⟨_,enterRound_move hidx,hrefines.moved hindex,by rw [htyped]; rfl,
    moved_shows hrow hline hrefines.current_lt⟩

/-- The number that is erased first is the one shown at the prompt. -/
theorem Follows.erase (h : Follows k start s e) {s₁ : EnterState} (haddr : s₁.addr = s.addr)
    (hcol : s₁.col = s.col) (hscreen : s₁.screen = s.screen) :
    ∃ (r : Row) (t : Screen), eraseNumber k s₁ = { s₁ with screen := t } ∧
      OnRow k r s₁.addr s₁.col ∧ ShowsLine k (r.text k.entType) t := by
  obtain ⟨r,hrow,hline⟩ := h.row
  rw [← hscreen] at hline
  obtain ⟨t,herase,hleft⟩ := eraseNumber_line hline h.refines.current_lt
  exact ⟨r,t,herase,by rwa [haddr,hcol],hleft⟩

/-- A key that stays at the entry. -/
theorem Follows.stays (h : Follows k start s e) {s₁ : EnterState} (haddr : s₁.addr = s.addr)
    (hcol : s₁.col = s.col) (hscreen : s₁.screen = s.screen) (hrefines : Refines k start s₁ e')
    (hidx : s₁.digitIdx = e'.typed.length) (hshort : e'.typed.length < k.entType.digitWidth) :
    ∃ s', enterRound k (eraseNumber k s₁) = some s' ∧ Follows k start s' e' := by
  obtain ⟨r,t,herase,hrow,hline⟩ := h.erase haddr hcol hscreen
  rw [herase]
  exact enterRound_stays (s := { s₁ with screen := t })
    ⟨hrefines.memory,hrefines.addr,hrefines.col,hrefines.current,hrefines.stores⟩ hidx hshort hrow
    hline

/-- A key that completes the entry. -/
theorem Follows.moves (h : Follows k start s e) {s₁ : EnterState} (haddr : s₁.addr = s.addr)
    (hcol : s₁.col = s.col) (hscreen : s₁.screen = s.screen) (hrefines : Refines k start s₁ e')
    (hidx : k.entType.digitWidth ≤ s₁.digitIdx) (hindex : e'.index ≤ e'.farthest) :
    ∃ s', enterRound k (eraseNumber k s₁) = some s' ∧ Follows k start s' (e'.advance k start) := by
  obtain ⟨r,t,herase,hrow,hline⟩ := h.erase haddr hcol hscreen
  rw [herase]
  exact enterRound_moves (s := { s₁ with screen := t })
    ⟨hrefines.memory,hrefines.addr,hrefines.col,hrefines.current,hrefines.stores⟩ hindex hidx hrow
    hline

/-- Going back erases two entries, and prints the first of them again. -/
theorem Follows.goesBack (h : Follows k start s e) (hcol : 0 < s.col) (hrow : e.col ≤ e.index)
    (htyped : e.typed = []) (hwidth : 0 < k.entType.digitWidth) :
    ∃ s', enterRound k (eraseNumber k
        { loadCurrent k (eraseNumber k
          { s with col := s.col - 1, addr := s.addr - BitVec.ofNat 32 k.entType.bytes }) with
          digitIdx := 0 }) = some s' ∧
      Follows k start s' { e with index := e.index - 1, col := e.col - 1 } := by
  obtain ⟨r,hon,hline⟩ := h.row
  obtain ⟨t,herase,hleft⟩ := eraseNumber_line
    (s := { s with col := s.col - 1, addr := s.addr - BitVec.ofNat 32 k.entType.bytes }) hline
    h.refines.current_lt
  obtain ⟨r',number,htext,hnumber,hon'⟩ := hon.goBack hcol
  rw [htext] at hleft
  have hrefines := h.refines.goBack hcol hrow htyped t
  obtain ⟨t',herase',hleft'⟩ := eraseNumber_line (s := { loadCurrent k
    { s with
      col := s.col - 1
      addr := s.addr - BitVec.ofNat 32 k.entType.bytes
      screen := t } with digitIdx := 0 }) hleft hnumber
  rw [herase,herase']
  exact enterRound_stays (r := r')
    ⟨hrefines.memory,hrefines.addr,hrefines.col,hrefines.current,hrefines.stores⟩
    (by rw [htyped]; rfl) (by rwa [htyped]) hon' hleft'

theorem enterStep_goOn {c : Key} {s₁ : EnterState} (hinput : handleInput k s c = (s₁,true)) :
    enterStep k (.waiting s) c = (enterRound k (eraseNumber k s₁)).map .waiting := by
  rw [enterStep,hinput]
  rfl

/-- A key, by what it leaves to the loop. -/
theorem enterStep_of_input {c : Key} {s₁ : EnterState} (hinput : handleInput k s c = (s₁,true))
    (hround : ∃ s', enterRound k (eraseNumber k s₁) = some s' ∧ Follows k start s' e') :
    ∃ s', enterStep k (.waiting s) c = some (.waiting s') ∧ Follows k start s' e' := by
  obtain ⟨s',hs',hfollows⟩ := hround
  exact ⟨s',by rw [enterStep_goOn hinput,hs',Option.map_some],hfollows⟩

/-- A backspace takes back what is typed, or goes back if nothing is. -/
theorem enterStep_back (h : Follows k start s e) (hsound : e.Sound k start m₀) :
    ∃ s', enterStep k (.waiting s) (key '\x08') = some (.waiting s') ∧
      Follows k start s' e.back := by
  have hwidth := lt_of_le_of_lt (Nat.zero_le _) hsound.short
  have hc : key '\x08' ≠ key '\r' := by decide
  unfold Editor.back
  by_cases hnil : e.typed = []
  · have hidx : s.digitIdx = 0 := by rw [h.digitIdx,hnil]; rfl
    rw [if_neg (not_not.mpr hnil),← h.refines.col]
    by_cases hcol : 0 < s.col
    · rw [if_pos hcol]
      refine enterStep_of_input ?_
        (by rw [h.refines.col]; exact h.goesBack hcol hsound.row hnil hwidth)
      rw [handleInput,if_neg hc,if_pos rfl,if_pos hidx,if_pos hcol]
    · rw [if_neg hcol]
      have hinput : handleInput k s (key '\x08') = (s,true) := by
        rw [handleInput,if_neg hc,if_pos rfl,if_pos hidx,if_neg hcol]
      exact enterStep_of_input hinput (h.stays rfl rfl rfl h.refines h.digitIdx hsound.short)
  · have hidx : s.digitIdx ≠ 0 := by
      rw [h.digitIdx]
      exact fun hlen => hnil (List.length_eq_zero_iff.mp hlen)
    rw [if_pos hnil]
    have hinput : handleInput k s (key '\x08') = ({ loadCurrent k s with digitIdx := 0 },true) := by
      rw [handleInput,if_neg hc,if_pos rfl,if_neg hidx]
    exact enterStep_of_input hinput (h.stays rfl rfl rfl h.refines.reload rfl hwidth)

/-- The last digit of an entry goes on to the next one. -/
theorem digit_follows (h : Follows k start s e) (hsound : e.Sound k start m₀) {digit : ℕ}
    (hdigit : digit < 16) :
    ∃ s', enterRound k (eraseNumber k { s with
        current := (s.current <<< 4 ||| BitVec.ofNat 32 digit) &&& k.entType.mask
        digitIdx := s.digitIdx + 1 }) = some s' ∧
      Follows k start s' (e.type k start digit) := by
  have hrefines := h.refines.type hdigit (s.digitIdx + 1)
  have hlen : s.digitIdx + 1 = (e.typed ++ [digit]).length := by
    rw [h.digitIdx,List.length_append,List.length_singleton]
  have hshort := hsound.short
  unfold Editor.type
  dsimp only
  split
  · next hfull =>
      have hidx : k.entType.digitWidth ≤ s.digitIdx + 1 := by omega
      exact h.moves rfl rfl rfl hrefines hidx hsound.index
  · next hpart =>
      have hshort' : (e.typed ++ [digit]).length < k.entType.digitWidth := by
        have hidx := h.digitIdx
        omega
      exact h.stays rfl rfl rfl hrefines hlen hshort'

/-- Every key but the one that quits does the same to the editor. -/
theorem enterStep_follows (h : Follows k start s e) (hsound : e.Sound k start m₀) {c : Key}
    (hc : c ≠ key '\r') :
    ∃ s', enterStep k (.waiting s) c = some (.waiting s') ∧
      Follows k start s' (e.key k start c) := by
  unfold Editor.key
  rw [if_neg hc]
  by_cases hback : c = key '\x08'
  · rw [if_pos hback,hback]
    exact enterStep_back h hsound
  rw [if_neg hback]
  by_cases hspace : c = key ' '
  · rw [if_pos hspace]
    have hinput : handleInput k s c = ({ s with digitIdx := k.entType.digitWidth },true) := by
      rw [handleInput,if_neg hc,if_neg hback,if_pos hspace]
    have hrefines : Refines k start { s with digitIdx := k.entType.digitWidth } e :=
      ⟨h.refines.memory,h.refines.addr,h.refines.col,h.refines.current,h.refines.stores⟩
    exact enterStep_of_input hinput (h.moves rfl rfl rfl hrefines le_rfl hsound.index)
  rw [if_neg hspace]
  by_cases hdigit : keyDigit c ≠ 0xFF
  · rw [if_pos hdigit]
    refine enterStep_of_input ?_ (digit_follows h hsound (charToDigit_lt hdigit))
    rw [handleInput,if_neg hc,if_neg hback,if_neg hspace,if_pos hdigit]
  · rw [if_neg hdigit]
    have hinput : handleInput k s c = (s,true) := by
      rw [handleInput,if_neg hc,if_neg hback,if_neg hspace,if_neg hdigit]
    exact enterStep_of_input hinput (h.stays rfl rfl rfl h.refines h.digitIdx hsound.short)

/-! ## Every run -/

/-- The prompt follows the editor, and behind the last key the memory does. -/
def PromptFollows (k : EnterConst) (start : Address) (e : Editor) : EnterPrompt → Prop
  | .waiting s => Follows k start s e
  | .finished s => s.memory = e.memory ∧
      (∀ a ∈ s.stores, ∃ n ≤ e.farthest, a = entryAddr k start n) ∧
      ∀ x ∈ s.screen.erasures, ErasesEntry k.entType x

theorem enterStep_quits (h : Follows k start s e) (hsound : e.Sound k start m₀) :
    ∃ s', enterStep k (.waiting s) (key '\r') = some (.finished s') ∧
      PromptFollows k start (e.leave k start) (.finished s') := by
  obtain ⟨r,_,hline⟩ := h.row
  refine ⟨_,rfl,h.refines.store,fun a ha => ?_,hline.erasures⟩
  rw [Editor.leave_farthest]
  exact h.refines.stores_leave hsound.index a ha

theorem foldlM_finished (k : EnterConst) (s : EnterState) (keys : List Key) :
    keys.foldlM (enterStep k) (.finished s) = some (.finished s) := by
  induction keys with
  | nil => rfl
  | cons c keys ih => exact ih

theorem enterRun_follows (keys : List Key) : ∀ {s : EnterState} {e : Editor},
    Follows k start s e → e.Sound k start m₀ →
    ∃ p, keys.foldlM (enterStep k) (.waiting s) = some p ∧
      PromptFollows k start (runEditor k start e keys) p ∧
      (key '\r' ∈ keys → ∃ s', p = .finished s') := by
  induction keys with
  | nil => exact fun h _ => ⟨_,rfl,h,fun hmem => absurd hmem List.not_mem_nil⟩
  | cons c keys ih =>
      intro s e h hsound
      rw [List.foldlM_cons,runEditor]
      by_cases hc : c = key '\r'
      · obtain ⟨s',hstep,hfinished⟩ := enterStep_quits h hsound
        rw [if_pos hc,hc,hstep,Option.bind_eq_bind,Option.bind_some,foldlM_finished]
        exact ⟨_,rfl,hfinished,fun _ => ⟨s',rfl⟩⟩
      · obtain ⟨s',hstep,hfollows⟩ := enterStep_follows h hsound hc
        rw [if_neg hc,hstep,Option.bind_eq_bind,Option.bind_some]
        obtain ⟨p,hrun,hprompt,hquit⟩ := ih hfollows (Editor.key_sound hsound c)
        refine ⟨p,hrun,hprompt,fun hmem => hquit ?_⟩
        exact (List.mem_cons.mp hmem).resolve_left (Ne.symm hc)

theorem enterStart_follows (k : EnterConst) (m₀ : Memory) (start : Address) (line : List Char) :
    ∃ s, enterStart k m₀ start line = some s ∧ Follows k start s (openEditor m₀) := by
  have hfirst : entryAddr k start 0 = start := by simp [entryAddr]
  have hwidth : 0 < k.entType.digitWidth := by cases k.entType <;> decide
  rw [enterStart,puthexword_eq,Option.bind_eq_bind,Option.bind_some]
  refine enterRound_stays (r := ⟨line,start,[]⟩) ⟨rfl,hfirst.symm,rfl,?_,by simp [loadCurrent]⟩ rfl
    hwidth ⟨?_,rfl,by simp⟩ ⟨?_,by simp [loadCurrent]⟩
  · show (k.entType.load m₀ start).toNat =
        digitsInto _ (k.entType.load m₀ (entryAddr k start 0)).toNat []
    rw [digitsInto_nil (k.entType.load_lt _ _),hfirst]
  · simp [loadCurrent]
  · simp [loadCurrent,Row.text]

end

theorem monitorEnter_follows (m₀ : Memory) (start : Address) (entType : EnterType)
    (line : List Char) (keys : List Key) :
    ∃ p, monitorEnter m₀ start entType line keys = some p ∧
      PromptFollows (enterConst entType) start
        (runEditor (enterConst entType) start (openEditor m₀) keys) p ∧
      (key '\r' ∈ keys → ∃ s, p = .finished s) := by
  obtain ⟨s,hstart,hfollows⟩ := enterStart_follows (enterConst entType) m₀ start line
  rw [monitorEnter,hstart,Option.bind_eq_bind,Option.bind_some]
  exact enterRun_follows keys hfollows (Editor.sound_start _ _ _)

end TwMonitor.EnterRefinement
