import TwMonitor.DebugMonitor

/-!
# Sessions of automatic stepping

A session is what the user sees: it begins with its address and ends when the
debugger is shown. It should depend on its own calls only. The code keeps the
last program counter in a static variable that beginning a session does not
clear, so the last call of a session that was abandoned passes for the call
before the first one of the next session.
-/
namespace TwMonitor.Debug
open ByteMemory MemoryStore Thumb

structure Session where
  target : Address
  previous : Option Address := none
  leftover : Option Address := none
deriving DecidableEq, Repr

/-- The last call since the debugger was last shown, of this session or of one
that was abandoned for it. -/
def Session.lastCall (session : Session) : Option Address := session.previous <|> session.leftover

def beginSession (h : Option Session) (address : Address) : Option Session :=
  some
    { target := armAddressSetThumbIntwrkBit address false
      leftover := h.bind Session.lastCall }

/-- A call that shows the debugger ends the session. -/
def continueSession (h : Option Session) (pc : Address) (shown : Bool) : Option Session :=
  if shown then none else h.map fun session => { session with previous := some pc }

/-- The program counter should run on to the target of the session. -/
def RunsOn (h : Option Session) (pc : Address) : Prop :=
  ∃ session, h = some session ∧ pc ≠ session.target ∧ session.previous ≠ some pc

/-- The call does what the calls of its own session ask for. -/
structure Independent (h : Option Session) (pc : Address) (r : DebugResult) : Prop where
  silent : RunsOn h pc → r.shown = false ∧ r.pc = pc
  other : ¬ RunsOn h pc → r.shown = true ∧ r.state.startSteppingAddress = 0
  stuck : r.stuck = true → ∃ session, h = some session ∧ session.previous = some pc

/-- The first call of a session is where an abandoned session made its last. -/
def Stale (h : Option Session) (pc : Address) : Prop :=
  ∃ session, h = some session ∧ session.previous = none ∧ session.leftover = some pc

/-! ## The static variables follow the session -/

/-- The variables of the code beside the session they stand for. -/
def Tracks (s : DebugState) : Option Session → Prop
  | none => s.startSteppingAddress = 0 ∧ s.lastPc = 0
  | some session =>
      session.target ≠ 0 ∧ s.startSteppingAddress = session.target ∧
        s.lastPc = session.lastCall.getD 0 ∧ session.lastCall ≠ some 0

theorem Tracks.begin {s : DebugState} {h : Option Session} (ht : Tracks s h) {address : Address}
    (haddress : armAddressSetThumbIntwrkBit address false ≠ 0) :
    Tracks (armBeginSteppingAt s address) (beginSession h address) := by
  cases h with
  | none => exact ⟨haddress,rfl,ht.2,(Option.some_ne_none _).symm⟩
  | some session =>
      obtain ⟨_,_,hlast,hzero⟩ := ht
      exact ⟨haddress,rfl,hlast,hzero⟩

section
variable {s : DebugState} {m : Memory} {exitToMonitor : Address} {options : List DebugOption}
  {pc : Address} {stuck : Bool} {r : DebugResult} {session : Session}

/-- Whatever the user chooses, the debugger leaves the static variables alone. -/
theorem showDebugger_eq_some (hr : showDebugger s m exitToMonitor options pc stuck = some r) :
    r.shown = true ∧ r.stuck = stuck ∧ r.state.startSteppingAddress = s.startSteppingAddress ∧
      r.state.lastPc = s.lastPc := by
  obtain ⟨left,_,rfl⟩ := Option.map_eq_some_iff.mp hr
  exact ⟨rfl,rfl,rfl,rfl⟩

/-- Without a session the debugger is shown. -/
theorem debugMonitor_idle (ht : Tracks s none)
    (hr : debugMonitor s m exitToMonitor options pc = some r) :
    r.shown = true ∧ r.stuck = false ∧ Tracks r.state none := by
  obtain ⟨hstart,hlast⟩ := ht
  rw [debugMonitor,if_neg (not_not.mpr hstart)] at hr
  obtain ⟨hshown,hstuck,hstart',hlast'⟩ := showDebugger_eq_some hr
  exact ⟨hshown,hstuck,hstart'.trans hstart,hlast'.trans hlast⟩

/-- In a session the code compares with the last call of all. -/
theorem debugMonitor_active (ht : Tracks s (some session)) (hpc : pc ≠ 0)
    (hr : debugMonitor s m exitToMonitor options pc = some r) :
    ((pc = session.target ∨ session.lastCall = some pc) ∧ r.shown = true ∧
        r.stuck = decide (session.lastCall = some pc) ∧ Tracks r.state none) ∨
      (¬ (pc = session.target ∨ session.lastCall = some pc) ∧ r.shown = false ∧ r.pc = pc ∧
        r.stuck = false ∧ Tracks r.state (some { session with previous := some pc })) := by
  obtain ⟨htarget,hstart,hlast,hzero⟩ := ht
  have hstuck : (pc == s.lastPc) = decide (session.lastCall = some pc) := by
    rw [hlast]
    cases hcall : session.lastCall with
    | none => simpa using hpc
    | some last =>
        rw [Option.getD_some,beq_eq_decide]
        exact decide_eq_decide.mpr (eq_comm.trans Option.some_inj.symm)
  rw [debugMonitor,if_pos (hstart ▸ htarget),hstart,hstuck] at hr
  simp only [decide_eq_true_eq] at hr
  by_cases hstop : pc = session.target ∨ session.lastCall = some pc
  · rw [if_pos hstop] at hr
    obtain ⟨hshown,hprinted,hstart',hlast'⟩ := showDebugger_eq_some hr
    exact Or.inl ⟨hstop,hshown,hprinted,hstart',hlast'⟩
  · rw [if_neg hstop] at hr
    obtain rfl := Option.some.inj hr
    have hpc' : (some pc : Option Address) ≠ some 0 := fun h => hpc (Option.some.inj h)
    exact Or.inr ⟨hstop,rfl,rfl,rfl,htarget,rfl,rfl,hpc'⟩

theorem Tracks.call {h : Option Session} (ht : Tracks s h) (hpc : pc ≠ 0)
    (hr : debugMonitor s m exitToMonitor options pc = some r) :
    Tracks r.state (continueSession h pc r.shown) := by
  cases h with
  | none =>
      obtain ⟨hshown,_,hidle⟩ := debugMonitor_idle ht hr
      rwa [hshown]
  | some session =>
      rcases debugMonitor_active ht hpc hr with ⟨_,hshown,_,hidle⟩ | ⟨_,hshown,_,_,hactive⟩
      · rwa [hshown]
      · rwa [hshown]

/-! ## One call -/

/-- Outside of a session nothing can go wrong. -/
theorem independent_idle (ht : Tracks s none)
    (hr : debugMonitor s m exitToMonitor options pc = some r) : Independent none pc r := by
  obtain ⟨hshown,hstuck,hidle⟩ := debugMonitor_idle ht hr
  refine ⟨?_,fun _ => ⟨hshown,hidle.1⟩,fun hprinted => ?_⟩
  · rintro ⟨session,hnone,_⟩
    exact absurd hnone (Option.some_ne_none session).symm
  · rw [hstuck] at hprinted
    exact Bool.noConfusion hprinted

/-- A call after the first one of its session only sees that session. -/
theorem independent_active_iff (ht : Tracks s (some session)) (hpc : pc ≠ 0)
    (hr : debugMonitor s m exitToMonitor options pc = some r) :
    Independent (some session) pc r ↔
      (session.lastCall = some pc → session.previous = some pc) := by
  have hrunsOn : RunsOn (some session) pc ↔
      pc ≠ session.target ∧ session.previous ≠ some pc := by
    constructor
    · rintro ⟨session',he,hruns⟩
      obtain rfl := Option.some.inj he
      exact hruns
    · exact fun hruns => ⟨session,rfl,hruns⟩
  rcases debugMonitor_active ht hpc hr with
    ⟨hstop,hshown,hstuck,hidle⟩ | ⟨hstop,hshown,hsame,hstuck,_⟩
  · constructor
    · intro hind hlast
      obtain ⟨session',he,hprevious⟩ := hind.stuck (by rw [hstuck,hlast,decide_eq_true_eq])
      obtain rfl := Option.some.inj he
      exact hprevious
    · intro hown
      refine ⟨fun hruns => ?_,fun _ => ⟨hshown,hidle.1⟩,fun hprinted => ?_⟩
      · obtain ⟨htarget,hprevious⟩ := hrunsOn.mp hruns
        rcases hstop with hreached | hlast
        · exact absurd hreached htarget
        · exact absurd (hown hlast) hprevious
      · rw [hstuck,decide_eq_true_eq] at hprinted
        exact ⟨session,rfl,hown hprinted⟩
  · obtain ⟨htarget,hlast⟩ := not_or.mp hstop
    refine ⟨fun _ hcall => absurd hcall hlast,fun _ => ⟨fun _ => ⟨hshown,hsame⟩,fun hruns => ?_,?_⟩⟩
    · have hprevious : session.previous ≠ some pc := by
        intro hprevious
        exact hlast (by rw [Session.lastCall,hprevious]; rfl)
      exact absurd (hrunsOn.mpr ⟨htarget,hprevious⟩) hruns
    · intro hprinted
      rw [hstuck] at hprinted
      exact Bool.noConfusion hprinted

theorem not_stale_iff (session : Session) (pc : Address) :
    ¬ Stale (some session) pc ↔ (session.lastCall = some pc → session.previous = some pc) := by
  have hstale : Stale (some session) pc ↔
      session.previous = none ∧ session.leftover = some pc := by
    constructor
    · rintro ⟨session',he,hfirst⟩
      obtain rfl := Option.some.inj he
      exact hfirst
    · exact fun hfirst => ⟨session,rfl,hfirst⟩
  rw [hstale,Session.lastCall]
  cases session.previous with
  | none => simp
  | some previous => simp

end

/-! ## Runs -/

/-- A call of one of the two functions. The session is what was seen of it. -/
inductive CallStep (exitToMonitor : Address) :
    DebugState × Option Session → DebugState × Option Session → Prop
  | begin {s : DebugState} {h : Option Session} (address : Address) :
      armAddressSetThumbIntwrkBit address false ≠ 0 →
        CallStep exitToMonitor (s,h) (armBeginSteppingAt s address,beginSession h address)
  | call {s : DebugState} {h : Option Session} {r : DebugResult} (m : Memory)
      (options : List DebugOption) (pc : Address) :
      pc ≠ 0 → debugMonitor s m exitToMonitor options pc = some r →
        CallStep exitToMonitor (s,h) (r.state,continueSession h pc r.shown)

theorem run_tracks {exitToMonitor : Address} {c : DebugState × Option Session}
    (hrun : Relation.ReflTransGen (CallStep exitToMonitor) ({},none) c) : Tracks c.1 c.2 := by
  induction hrun with
  | refl => exact ⟨rfl,rfl⟩
  | tail _ hstep ih =>
      cases hstep with
      | begin address haddress => exact ih.begin haddress
      | call m options pc hpc hr => exact ih.call hpc hr

/-- In every run the sessions are independent at a call unless it is the first of
its session and stale. -/
theorem debugMonitor_independent_iff {exitToMonitor : Address} {s : DebugState}
    {h : Option Session}
    (hrun : Relation.ReflTransGen (CallStep exitToMonitor) ({},none) (s,h)) {m : Memory}
    {options : List DebugOption} {pc : Address} (hpc : pc ≠ 0) {r : DebugResult}
    (hr : debugMonitor s m exitToMonitor options pc = some r) :
    Independent h pc r ↔ ¬ Stale h pc := by
  have ht : Tracks s h := run_tracks hrun
  cases h with
  | none =>
      have hfresh : ¬ Stale none pc := fun ⟨_,hnone,_⟩ =>
        absurd hnone (Option.some_ne_none _).symm
      exact iff_of_true (independent_idle ht hr) hfresh
  | some session => exact (independent_active_iff ht hpc hr).trans (not_stale_iff session pc).symm

/-- Stepping that is stuck at an address, and reported. -/
theorem debugMonitor_independent_stuck : ∃ s h r,
    Relation.ReflTransGen (CallStep 0x08000100) ({},none) (s,h) ∧
      debugMonitor s (fun _ => 0) 0x08000100 [.unassemble,.continue] 0x20001000 = some r ∧
      r.stuck = true ∧ Independent h 0x20001000 r := by
  let s : DebugState :=
    { startSteppingAddress := 0x20002000, lastPc := 0x20001000, stepping := true }
  let session : Session := { target := 0x20002000, previous := some 0x20001000 }
  let silent : DebugResult := { state := s, pc := 0x20001000, stuck := false, shown := false }
  have hrun : Relation.ReflTransGen (CallStep 0x08000100) ({},none) (s,some session) :=
    .tail (.tail .refl (.begin 0x20002001 (by decide)))
      (.call (r := silent) (fun _ => 0) [] 0x20001000 (by decide) rfl)
  have hr : debugMonitor s (fun _ => 0) 0x08000100 [.unassemble,.continue] 0x20001000 = some _ :=
    rfl
  refine ⟨_,_,_,hrun,hr,rfl,(debugMonitor_independent_iff hrun (by decide) hr).mpr ?_⟩
  rintro ⟨session',he,hfirst,_⟩
  obtain rfl := Option.some.inj he
  exact absurd hfirst (by decide)

/-- A session is abandoned after its call at 0x20001000, and the next one makes
its first call there. The code takes it to be stuck. -/
theorem debugMonitor_stale : ∃ s h r,
    Relation.ReflTransGen (CallStep 0x08000100) ({},none) (s,h) ∧
      debugMonitor s (fun _ => 0) 0x08000100 [.continue] 0x20001000 = some r ∧
      ¬ Independent h 0x20001000 r := by
  refine ⟨_,_,_,.tail (.tail (.tail .refl (.begin 0x20002001 (by decide)))
    (.call (fun _ => 0) [] 0x20001000 (by decide) rfl)) (.begin 0x20003001 (by decide)),rfl,?_⟩
  intro hind
  obtain ⟨session,he,hprevious⟩ := hind.stuck (by decide)
  obtain rfl := Option.some.inj he
  exact absurd hprevious (by decide)

end TwMonitor.Debug
