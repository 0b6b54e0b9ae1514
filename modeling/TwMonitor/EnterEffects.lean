import TwMonitor.EnterRefinement

/-!
# What the memory editor changes

The entries that were left with digits account for everything the memory editor
changes, and each of them holds what its last digits make of its previous content.
Entries wrap at the top of the address space, so an editor that goes on past it
writes below its start address.
-/
namespace TwMonitor.EnterEffects
open ByteMemory EnterRefinement EntryEditor MonitorEnter NumberPad Terminal

/-- The memory after the visits of an editor. -/
structure Effects (k : EnterConst) (start : Address) (m₀ : Memory) (e : Editor) (m : Memory) :
    Prop where
  visits : m = e.left.foldl (enterVisit k start) m₀
  typed : ∀ v ∈ e.left, v.digits ≠ []
  elsewhere : ∀ a, (∀ v ∈ e.left, ¬InRange (entryAddr k start v.index) k.entType.bytes a) →
    m a = m₀ a
  last : ∀ before v after, e.left = before ++ v::after →
    (∀ v' ∈ after, entryAddr k start v'.index ≠ entryAddr k start v.index) →
    k.entType.load m (entryAddr k start v.index) =
      BitVec.ofNat 32 (digitsInto k.entType.digitWidth
        (k.entType.load (before.foldl (enterVisit k start) m₀)
          (entryAddr k start v.index)).toNat v.digits)

theorem effects_of_sound {k : EnterConst} {start : Address} {m₀ : Memory} {e : Editor}
    (h : e.Sound k start m₀) : Effects k start m₀ e e.memory where
  visits := h.memory
  typed := h.typed
  elsewhere a ha := by
    rw [h.memory]
    exact enterVisits_frame m₀ e.left ha
  last before v after hsplit hafter := by
    rw [h.memory,hsplit]
    exact load_enterVisits m₀ before v hafter

/-- Every entry the editor stood at ends below the top of the address space. -/
def Fits (k : EnterConst) (start : Address) (e : Editor) : Prop :=
  start.toNat + (e.farthest + 1) * k.entType.bytes ≤ 2 ^ 32

/-- Neither a store nor a changed byte lies below the start address. -/
def StaysAbove (k : EnterConst) (start : Address) (m₀ : Memory) (s : EnterState) : Prop :=
  (∀ p ∈ s.stores, ∀ a, InRange p k.entType.bytes a → start.toNat ≤ a.toNat) ∧
    ∀ a : Address, a.toNat < start.toNat → s.memory a = m₀ a

theorem staysAbove_of_fits {k : EnterConst} {start : Address} {m₀ : Memory} {e : Editor}
    {s : EnterState} (hsound : e.Sound k start m₀) (hmemory : s.memory = e.memory)
    (hstores : ∀ p ∈ s.stores, ∃ n ≤ e.farthest, p = entryAddr k start n)
    (hfits : Fits k start e) : StaysAbove k start m₀ s := by
  refine ⟨fun p hp a ha => ?_,fun a ha => ?_⟩
  · obtain ⟨n,hn,rfl⟩ := hstores p hp
    exact entryAddr_ge hn hfits ha
  · rw [hmemory]
    refine (effects_of_sound hsound).elsewhere a (fun v hv hin => ?_)
    have hge := entryAddr_ge (hsound.reached v hv) hfits hin
    omega

/-- The address of a prompt is that of its row and its column. -/
def OnPrintedRow (k : EnterConst) (s : EnterState) : Prop :=
  ∃ r : Row, s.screen.line = r.text k.entType ++ entryText k.entType s.current ∧
    r.shown.length = s.col ∧ s.addr = r.address + BitVec.ofNat 32 (s.col * k.entType.bytes)

theorem Follows.onPrintedRow {k : EnterConst} {start : Address} {s : EnterState} {e : Editor}
    (h : Follows k start s e) : OnPrintedRow k s := by
  obtain ⟨r,hrow,hline⟩ := h.row
  exact ⟨r,hline.line,hrow.col,hrow.addr⟩

/-- After any keys the memory is that of the visits that ended with digits, the prompt stands on
the printed row, and nothing below the start address is written before the editor reaches the top
of the address space. -/
theorem monitorEnter_effects (m₀ : Memory) (start : Address) (entType : EnterType)
    (line : List Char) (keys : List Key) :
    ∃ p, monitorEnter m₀ start entType line keys = some p ∧
      (key '\r' ∈ keys → ∃ s, p = .finished s) ∧
      Effects (enterConst entType) start m₀
        (runEditor (enterConst entType) start (openEditor m₀) keys) p.state.memory ∧
      (Fits (enterConst entType) start
          (runEditor (enterConst entType) start (openEditor m₀) keys) →
        StaysAbove (enterConst entType) start m₀ p.state) ∧
      ∀ s, p = .waiting s → OnPrintedRow (enterConst entType) s := by
  obtain ⟨p,hrun,hprompt,hquit⟩ := monitorEnter_follows m₀ start entType line keys
  have hsound := runEditor_sound keys (Editor.sound_start (enterConst entType) start m₀)
  cases p with
  | waiting s =>
      have hmemory : s.memory = _ := hprompt.refines.memory
      refine ⟨_,hrun,hquit,?_,staysAbove_of_fits hsound hmemory hprompt.refines.stores,?_⟩
      · show Effects _ start m₀ _ s.memory
        rw [hmemory]
        exact effects_of_sound hsound
      · intro s' hs'
        obtain rfl := EnterPrompt.waiting.inj hs'
        exact Follows.onPrintedRow hprompt
  | finished s =>
      obtain ⟨hmemory,hstores,_⟩ := hprompt
      refine ⟨_,hrun,hquit,?_,staysAbove_of_fits hsound hmemory hstores,fun s' hs' => nomatch hs'⟩
      show Effects _ start m₀ _ s.memory
      rw [hmemory]
      exact effects_of_sound hsound

/-- From the last address on, the second byte is entered at address 0. -/
theorem monitorEnter_wraps :
    ∃ s, monitorEnter (fun _ => 0) 0xFFFFFFFF (.ofEntry .etByte) [] [key ' ',key '5',key '\r'] =
        some (.finished s) ∧
      (0 : Address).toNat < (0xFFFFFFFF : Address).toNat ∧ s.memory 0 = 5 ∧ 0 ∈ s.stores := by
  refine ⟨_,rfl,by decide,rfl,?_⟩
  decide

/-! ## Erasing -/

/-- A number was erased, and the cursor is where the number began. -/
def ErasesNumber (before number : List Char) (e : Erasure) : Prop :=
  e.line = before ++ number ∧ e.n = number.length ∧
    (Screen.terminalEraseLastChars ⟨e.line,[]⟩ e.n).line = before

theorem ErasesText.returns {before number : List Char} {e : Erasure}
    (h : ErasesText before number e) : ErasesNumber before number e := by
  refine ⟨h.1,h.2,?_⟩
  rw [h.2,eraseLastChars_line _ h.1]

/-- Every erasure of `gethexword` and of `monitor_enter` takes the characters of one printed
number, and the number to be replaced next stands in front of the cursor. -/
theorem erased_is_printed :
    (∀ (defaultValue : BitVec 32) (line : List Char) (keys : List Key),
      ∃ p, gethexword defaultValue ⟨line,[]⟩ keys = some p ∧
        (∀ e ∈ p.screen.erasures, ∃ number, ErasesNumber line (hexText 8 number) e) ∧
        ∀ result t, p = .waiting result t → t.line = line ++ hexText 8 result) ∧
    ∀ (m₀ : Memory) (start : Address) (entType : EnterType) (line : List Char) (keys : List Key),
      ∃ p, monitorEnter m₀ start entType line keys = some p ∧
        (∀ e ∈ p.state.screen.erasures, ∃ (r : Row) (number : BitVec 32),
          ErasesNumber (r.text (enterConst entType).entType)
            (entryText (enterConst entType).entType number) e) ∧
        ∀ s, p = .waiting s → OnPrintedRow (enterConst entType) s := by
  constructor
  · intro defaultValue line keys
    obtain ⟨p,hrun,hshows⟩ := gethexword_shows defaultValue line keys
    have herasures : ∀ e ∈ p.screen.erasures, ∃ number,
        ErasesText line (hexText 8 number) e := by
      cases p with
      | waiting result t => exact hshows.erasures
      | returned result t => exact hshows
    refine ⟨p,hrun,fun e he => ?_,?_⟩
    · obtain ⟨number,herases⟩ := herasures e he
      exact ⟨number,ErasesText.returns herases⟩
    · rintro result t rfl
      exact hshows.shown
  · intro m₀ start entType line keys
    obtain ⟨p,hrun,hprompt,_⟩ := monitorEnter_follows m₀ start entType line keys
    have herasures : ∀ e ∈ p.state.screen.erasures, ErasesEntry (enterConst entType).entType e := by
      cases p with
      | waiting s =>
          obtain ⟨r,_,hline⟩ := hprompt.row
          exact hline.erasures
      | finished s => exact hprompt.2.2
    refine ⟨p,hrun,fun e he => ?_,?_⟩
    · obtain ⟨r,number,herases⟩ := herasures e he
      exact ⟨r,number,ErasesText.returns herases⟩
    · rintro s rfl
      exact Follows.onPrintedRow hprompt

end TwMonitor.EnterEffects
