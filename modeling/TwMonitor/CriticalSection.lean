import TwMonitor.Traces
import TwMonitor.UsartReceive

/-!
# The critical section of the reader

`intqueue_get` takes a byte between `util_enter_critical` and `util_leave_critical`. Here
every load and every store of it is a step of its own, and an interrupt may come between
any two of them unless FAULTMASK is set. What is seen from outside is as if the byte were
taken in one step, and the assertion of `util_leave_critical` holds.
-/
namespace TwMonitor.Usart
open BoundedRing Traces

/-- What comes next between CPSID and CPSIE, with what has been loaded. -/
inductive CriticalPoint where
  | loadCount
  | storeCount (count : BitVec 8)
  /-- `buffer[front++]` -/
  | loadFront
  | storeFront (front : BitVec 8)
  | loadByte (front : BitVec 8)
  /-- `front %= BUFFER_SIZE` -/
  | reloadFront (b : BitVec 8)
  | storeWrapped (b front : BitVec 8)
  /-- `len--` -/
  | loadLen (b : BitVec 8)
  | storeLen (b len : BitVec 8)
  /-- `--s_critical_count` -/
  | reloadCount (b : BitVec 8)
  | storeCountDown (b count : BitVec 8)
  | assertCount (b count : BitVec 8)
  | testCount (b : BitVec 8)
  /-- CPSIE, if the count was zero. -/
  | leave (b : BitVec 8) (zero : Bool)
deriving DecidableEq, Repr

/-- `take` of the reader is the CPSID. -/
inductive FinePoint where
  | outside (point : ReadPoint)
  | inside (point : CriticalPoint)
deriving DecidableEq, Repr

structure FineReceiver where
  driver : UsartDriverState
  point : FinePoint := .outside .idle
  pending : Option (BitVec 8) := none
  faultmask : Bool := false
  /-- `s_critical_count`, which is signed. -/
  criticalCount : BitVec 8 := 0

namespace FineReceiver

def queue (f : FineReceiver) : IntQueue := f.driver.intqueue

def setQueue (f : FineReceiver) (q : IntQueue) : FineReceiver :=
  { f with driver := { f.driver with intqueue := q } }

def goTo (f : FineReceiver) (point : CriticalPoint) : FineReceiver :=
  { f with point := .inside point }

/-- The reader without the mask and its count. -/
def reader (f : FineReceiver) (point : ReadPoint) : Receiver :=
  { driver := f.driver, point, pending := f.pending }

/-- The receiver takes a step of the reader over. -/
def ofReader (f : FineReceiver) (r : Receiver) : FineReceiver :=
  { f with driver := r.driver, point := .outside r.point, pending := r.pending }

end FineReceiver

def utilEnterCritical (f : FineReceiver) : FineReceiver :=
  { f with faultmask := true, point := .inside .loadCount }

/-- A step between CPSID and CPSIE. There is none where the assertion fails. -/
def criticalStep (f : FineReceiver) : CriticalPoint → Option FineReceiver
  | .loadCount => some (f.goTo (.storeCount f.criticalCount))
  | .storeCount count => some ({ f with criticalCount := count + 1 }.goTo .loadFront)
  | .loadFront => some (f.goTo (.storeFront f.queue.front))
  | .storeFront front =>
      some ((f.setQueue { f.queue with front := front + 1 }).goTo (.loadByte front))
  | .loadByte front => some (f.goTo (.reloadFront (f.queue.buffer front.toNat)))
  | .reloadFront b => some (f.goTo (.storeWrapped b f.queue.front))
  | .storeWrapped b front =>
      some ((f.setQueue { f.queue with front := front % BitVec.ofNat 8 bufferSize }).goTo
        (.loadLen b))
  | .loadLen b => some (f.goTo (.storeLen b f.queue.len))
  | .storeLen b len => some ((f.setQueue { f.queue with len := len - 1 }).goTo (.reloadCount b))
  | .reloadCount b => some (f.goTo (.storeCountDown b f.criticalCount))
  | .storeCountDown b count =>
      some ({ f with criticalCount := count - 1 }.goTo (.assertCount b (count - 1)))
  | .assertCount b count => if (0 : BitVec 8).sle count then some (f.goTo (.testCount b)) else none
  | .testCount b => some (f.goTo (.leave b (f.criticalCount == 0)))
  | .leave b zero => some { f with faultmask := f.faultmask && !zero, point := .outside (.ret b) }

def CriticalPoint.leaves : CriticalPoint → Bool
  | .leave _ _ => true
  | _ => false

/-- Interrupts wait while FAULTMASK is set. -/
inductive FineStep (f : FineReceiver) : Option ReceiveEvent → FineReceiver → Prop
  | enter : f.point = .outside .take → FineStep f none (utilEnterCritical f)
  | critical {point : CriticalPoint} {f' : FineReceiver} : f.point = .inside point →
      point.leaves = false → criticalStep f point = some f' → FineStep f none f'
  | leave {point : CriticalPoint} {f' : FineReceiver} : f.point = .inside point →
      point.leaves = true → criticalStep f point = some f' → FineStep f (some .main) f'
  | outside {point : ReadPoint} {event : ReceiveEvent} {r : Receiver} :
      f.point = .outside point → (event = .main → point ≠ .take) →
      (event.isInternal → event = .main ∨ f.faultmask = false) →
      ReceiveStep (f.reader point) event r → FineStep f (some event) (f.ofReader r)
  | arrived {point : CriticalPoint} (b : BitVec 8) : f.point = .inside point → f.pending = none →
      FineStep f (some (.arrived b)) { f with pending := some b }
  | isr {point : CriticalPoint} : f.point = .inside point → f.faultmask = false →
      FineStep f (some (isrEvent (f.reader .take)))
        { f with driver := usartIsr f.driver f.pending, pending := none }
  | otherInterrupt {point : CriticalPoint} : f.point = .inside point → f.faultmask = false →
      FineStep f (some .otherInterrupt) f

/-! ## Inside of the critical section -/

/-- What the critical section has made of the queue, and what it has loaded. -/
def Within (q q' : IntQueue) (count : BitVec 8) : CriticalPoint → Prop
  | .loadCount => q' = q ∧ count = 0
  | .storeCount loaded => q' = q ∧ count = 0 ∧ loaded = 0
  | .loadFront => q' = q ∧ count = 1
  | .storeFront front => q' = q ∧ count = 1 ∧ front = q.front
  | .loadByte front => q' = { q with front := q.front + 1 } ∧ count = 1 ∧ front = q.front
  | .reloadFront b =>
      q' = { q with front := q.front + 1 } ∧ count = 1 ∧ b = (takeFront q).1
  | .storeWrapped b front =>
      q' = { q with front := q.front + 1 } ∧ count = 1 ∧ b = (takeFront q).1 ∧ front = q.front + 1
  | .loadLen b => q' = { q with front := nextIndex q.front } ∧ count = 1 ∧ b = (takeFront q).1
  | .storeLen b len =>
      q' = { q with front := nextIndex q.front } ∧ count = 1 ∧ b = (takeFront q).1 ∧ len = q.len
  | .reloadCount b => q' = (takeFront q).2 ∧ count = 1 ∧ b = (takeFront q).1
  | .storeCountDown b loaded =>
      q' = (takeFront q).2 ∧ count = 1 ∧ b = (takeFront q).1 ∧ loaded = 1
  | .assertCount b loaded =>
      q' = (takeFront q).2 ∧ count = 0 ∧ b = (takeFront q).1 ∧ loaded = 0
  | .testCount b => q' = (takeFront q).2 ∧ count = 0 ∧ b = (takeFront q).1
  | .leave b zero => q' = (takeFront q).2 ∧ count = 0 ∧ b = (takeFront q).1 ∧ zero = true

/-- The steps left before the one that leaves. -/
def CriticalPoint.rank : CriticalPoint → ℕ
  | .loadCount => 13
  | .storeCount _ => 12
  | .loadFront => 11
  | .storeFront _ => 10
  | .loadByte _ => 9
  | .reloadFront _ => 8
  | .storeWrapped _ _ => 7
  | .loadLen _ => 6
  | .storeLen _ _ => 5
  | .reloadCount _ => 4
  | .storeCountDown _ _ => 3
  | .assertCount _ _ => 2
  | .testCount _ => 1
  | .leave _ _ => 0

/-- The fine state, seen as one of the reader. In the critical section the reader is still
before it. -/
inductive Refines (f : FineReceiver) (r : Receiver) : Prop
  | outside (hpoint : f.point = .outside r.point) (hdriver : f.driver = r.driver)
      (hpending : f.pending = r.pending) (hmask : f.faultmask = false)
      (hcount : f.criticalCount = 0)
  | inside {point : CriticalPoint} (hpoint : f.point = .inside point) (htake : r.point = .take)
      (hdriver : f.driver = { r.driver with intqueue := f.queue })
      (hpending : f.pending = r.pending) (hmask : f.faultmask = true)
      (hwithin : Within r.queue f.queue f.criticalCount point)

section
variable {f f' : FineReceiver} {r : Receiver}

/-- Between CPSID and CPSIE every step goes on. -/
theorem criticalStep_within {q : IntQueue} {point : CriticalPoint} (hstay : point.leaves = false)
    (h : Within q f.queue f.criticalCount point) :
    ∃ f' point', criticalStep f point = some f' ∧ f'.point = .inside point' ∧
      point.rank = point'.rank + 1 ∧ Within q f'.queue f'.criticalCount point' ∧
        f'.faultmask = f.faultmask ∧
      f'.pending = f.pending ∧ f'.driver = { f.driver with intqueue := f'.queue } := by
  cases point with
  | loadCount => exact ⟨_,_,rfl,rfl,rfl,⟨h.1,h.2,h.2⟩,rfl,rfl,rfl⟩
  | storeCount loaded =>
      obtain ⟨hq,_,rfl⟩ := h
      exact ⟨_,_,rfl,rfl,rfl,⟨hq,rfl⟩,rfl,rfl,rfl⟩
  | loadFront =>
      obtain ⟨hq,hcount⟩ := h
      exact ⟨_,_,rfl,rfl,rfl,⟨hq,hcount,congrArg IntQueue.front hq⟩,rfl,rfl,rfl⟩
  | storeFront front =>
      obtain ⟨hq,hcount,rfl⟩ := h
      refine ⟨_,_,rfl,rfl,rfl,⟨?_,hcount,rfl⟩,rfl,rfl,rfl⟩
      show { f.queue with front := q.front + 1 } = _
      rw [hq]
  | loadByte front =>
      obtain ⟨hq,hcount,rfl⟩ := h
      refine ⟨_,_,rfl,rfl,rfl,⟨hq,hcount,?_⟩,rfl,rfl,rfl⟩
      show f.queue.buffer q.front.toNat = _
      rw [hq]
      rfl
  | reloadFront b =>
      obtain ⟨hq,hcount,hb⟩ := h
      exact ⟨_,_,rfl,rfl,rfl,⟨hq,hcount,hb,congrArg IntQueue.front hq⟩,rfl,rfl,rfl⟩
  | storeWrapped b front =>
      obtain ⟨hq,hcount,hb,rfl⟩ := h
      refine ⟨_,_,rfl,rfl,rfl,⟨?_,hcount,hb⟩,rfl,rfl,rfl⟩
      show { f.queue with front := (q.front + 1) % BitVec.ofNat 8 bufferSize } = _
      rw [hq]
      rfl
  | loadLen b =>
      obtain ⟨hq,hcount,hb⟩ := h
      refine ⟨_,_,rfl,rfl,rfl,⟨hq,hcount,hb,?_⟩,rfl,rfl,rfl⟩
      show f.queue.len = q.len
      rw [hq]
  | storeLen b len =>
      obtain ⟨hq,hcount,hb,rfl⟩ := h
      refine ⟨_,_,rfl,rfl,rfl,⟨?_,hcount,hb⟩,rfl,rfl,rfl⟩
      show { f.queue with len := q.len - 1 } = _
      rw [hq]
      rfl
  | reloadCount b =>
      obtain ⟨hq,hcount,hb⟩ := h
      exact ⟨_,_,rfl,rfl,rfl,⟨hq,hcount,hb,hcount⟩,rfl,rfl,rfl⟩
  | storeCountDown b loaded =>
      obtain ⟨hq,_,hb,rfl⟩ := h
      exact ⟨_,_,rfl,rfl,rfl,⟨hq,rfl,hb,rfl⟩,rfl,rfl,rfl⟩
  | assertCount b loaded =>
      obtain ⟨hq,hcount,hb,rfl⟩ := h
      exact ⟨_,_,rfl,rfl,rfl,⟨hq,hcount,hb⟩,rfl,rfl,rfl⟩
  | testCount b =>
      obtain ⟨hq,hcount,hb⟩ := h
      refine ⟨_,_,rfl,rfl,rfl,⟨hq,hcount,hb,?_⟩,rfl,rfl,rfl⟩
      rw [hcount]
      rfl
  | leave b zero => cases hstay

/-- The step that leaves has taken the byte. -/
theorem Refines.leave {point : CriticalPoint} (h : Refines f r) (hpoint : f.point = .inside point)
    (hleaves : point.leaves = true) (hstep : criticalStep f point = some f') :
    ∃ r', ReceiveStep r .main r' ∧ Refines f' r' := by
  cases h with
  | outside hout _ _ _ _ => simp [hpoint] at hout
  | @inside point' hin htake hdriver hpending hmask hwithin =>
      obtain rfl : point' = point := FinePoint.inside.inj (hin.symm.trans hpoint)
      cases point' with
      | leave b zero =>
          obtain ⟨hq,hcount,rfl,rfl⟩ := hwithin
          obtain rfl := Option.some.inj hstep
          have hmain : mainStep r = some
              { r with
                driver := { r.driver with intqueue := (takeFront r.queue).2 }
                point := .ret (takeFront r.queue).1 } := by
            rw [mainStep,htake]
          refine ⟨_,.main hmain,.outside rfl ?_ hpending ?_ hcount⟩
          · exact hdriver.trans (by rw [hq])
          · exact Bool.and_false _
      | _ => cases hleaves

theorem Refines.stay {point : CriticalPoint} (h : Refines f r) (hpoint : f.point = .inside point)
    (hstay : point.leaves = false) (hstep : criticalStep f point = some f') : Refines f' r := by
  cases h with
  | outside hout _ _ _ _ => simp [hpoint] at hout
  | @inside point' hin htake hdriver hpending hmask hwithin =>
      obtain rfl : point' = point := FinePoint.inside.inj (hin.symm.trans hpoint)
      obtain ⟨g,next,hg,hgpoint,_,hgwithin,hgmask,hgpending,hgdriver⟩ :=
        criticalStep_within hstay hwithin
      obtain rfl := Option.some.inj (hg.symm.trans hstep)
      refine .inside hgpoint htake ?_ (hgpending.trans hpending) (hgmask.trans hmask) hgwithin
      rw [hgdriver,hdriver]

end

/-! ## Runs -/

/-- The reader in one step has no silent ones. -/
def receiveSystem : System Receiver ReceiveEvent
  | _,none,_ => False
  | r,some event,r' => ReceiveStep r event r'

theorem run_receiveSystem {start r : Receiver} {events : List ReceiveEvent} :
    Run receiveSystem start events r ↔ ReceiveRun start events r := by
  constructor
  · intro h
    induction h with
    | start => exact .start
    | silent _ hstep _ => exact hstep.elim
    | shown _ hstep ih => exact ih.step hstep
  · intro h
    induction h with
    | start => exact .start
    | step _ hstep ih => exact ih.shown hstep

/-- The reader outside of the critical section. -/
def Receiver.fine (r : Receiver) : FineReceiver :=
  { driver := r.driver, point := .outside r.point, pending := r.pending }

theorem refines_fine (r : Receiver) : Refines r.fine r := .outside rfl rfl rfl rfl rfl

theorem fine_simulates : Simulates FineStep receiveSystem Refines where
  silent := by
    intro f f' r h hstep
    refine ⟨r,.start,?_⟩
    cases hstep with
    | enter hpoint =>
        cases h with
        | outside hout hdriver hpending hmask hcount =>
            have htake : r.point = .take := FinePoint.outside.inj (hout.symm.trans hpoint)
            have hq : f.queue = r.queue := congrArg UsartDriverState.intqueue hdriver
            refine .inside rfl htake ?_ hpending rfl ⟨hq,hcount⟩
            show f.driver = { r.driver with intqueue := f.queue }
            rw [hq]
            exact hdriver
        | inside hin _ _ _ _ _ => simp [hpoint] at hin
    | critical hpoint hstay hcritical => exact h.stay hpoint hstay hcritical
  shown := by
    intro f f' r event h hstep
    cases hstep with
    | leave hpoint hleaves hcritical =>
        obtain ⟨r',hr',href⟩ := h.leave hpoint hleaves hcritical
        exact ⟨r',.of_shown hr',href⟩
    | @outside point _ r' hpoint _ _ hr' =>
        cases h with
        | outside hout hdriver hpending hmask hcount =>
            obtain rfl : point = r.point := FinePoint.outside.inj (hpoint.symm.trans hout)
            have hreader : f.reader r.point = r := by
              unfold FineReceiver.reader
              rw [hdriver,hpending]
            rw [hreader] at hr'
            exact ⟨r',.of_shown hr',.outside rfl rfl rfl hmask hcount⟩
        | inside hin _ _ _ _ _ => simp [hpoint] at hin
    | arrived b hpoint hnone =>
        cases h with
        | outside hout _ _ _ _ => simp [hpoint] at hout
        | inside hin htake hdriver hpending hmask hwithin =>
            have hr' : ReceiveStep r (.arrived b) { r with pending := some b } :=
              .arrived b (hpending.symm.trans hnone)
            exact ⟨_,.of_shown hr',.inside hin htake hdriver rfl hmask hwithin⟩
    | isr hpoint hunmasked =>
        cases h with
        | outside hout _ _ _ _ => simp [hpoint] at hout
        | inside _ _ _ _ hmask _ => simp [hunmasked] at hmask
    | otherInterrupt hpoint hunmasked =>
        cases h with
        | outside hout _ _ _ _ => simp [hpoint] at hout
        | inside _ _ _ _ hmask _ => simp [hunmasked] at hmask

theorem Refines.eq_fine {f : FineReceiver} {r : Receiver} {point : ReadPoint} (h : Refines f r)
    (hpoint : f.point = .outside point) : f = r.fine := by
  cases h with
  | outside hout hdriver hpending hmask hcount =>
      obtain ⟨driver,fpoint,pending,faultmask,criticalCount⟩ := f
      obtain rfl : driver = r.driver := hdriver
      obtain rfl : fpoint = .outside r.point := hout
      obtain rfl : pending = r.pending := hpending
      obtain rfl : faultmask = false := hmask
      obtain rfl : criticalCount = 0 := hcount
      rfl
  | inside hin _ _ _ _ _ => simp [hpoint] at hin

theorem leaves_of_rank {point : CriticalPoint} (h : point.rank = 0) : point.leaves = true := by
  cases point with
  | leave b zero => rfl
  | _ => cases h

/-- The critical section comes to its end, with the byte taken. -/
theorem Refines.finishes {r : Receiver} {n : ℕ} {point : CriticalPoint} (hrank : point.rank = n)
    {f : FineReceiver} (h : Refines f r) (hpoint : f.point = .inside point) :
    ∃ r', ReceiveStep r .main r' ∧ Run FineStep f [.main] r'.fine := by
  induction n generalizing f point with
  | zero =>
      have hleaves := leaves_of_rank hrank
      cases point with
      | leave b zero =>
          have hstep : criticalStep f (.leave b zero) = some _ := rfl
          obtain ⟨r',hr',href⟩ := h.leave hpoint hleaves hstep
          have heq := href.eq_fine rfl
          exact ⟨r',hr',heq ▸ .of_shown (.leave hpoint hleaves hstep)⟩
      | _ => cases hleaves
  | succ n ih =>
      have hstay : point.leaves = false := by
        cases point with
        | leave b zero => cases hrank
        | _ => rfl
      cases h with
      | outside hout _ _ _ _ => simp [hpoint] at hout
      | @inside point' hin htake hdriver hpending hmask hwithin =>
          obtain rfl : point' = point := FinePoint.inside.inj (hin.symm.trans hpoint)
          obtain ⟨f',next,hstep,hnext,hless,_⟩ := criticalStep_within hstay hwithin
          have href : Refines f' r :=
            (Refines.inside hin htake hdriver hpending hmask hwithin).stay hpoint hstay hstep
          obtain ⟨r',hr',hrun⟩ := ih (by omega) href hnext
          exact ⟨r',hr',hrun.head (.critical hpoint hstay hstep)⟩

/-- All steps of the critical section in a row. -/
theorem take_fine {r r' : Receiver} (htake : r.point = .take) (hmain : mainStep r = some r') :
    Run FineStep r.fine [.main] r'.fine := by
  have henter : FineStep r.fine none (utilEnterCritical r.fine) :=
    .enter (congrArg FinePoint.outside htake)
  have hinside : Refines (utilEnterCritical r.fine) r :=
    .inside rfl htake rfl rfl rfl ⟨rfl,rfl⟩
  obtain ⟨r'',hr'',hrun⟩ := hinside.finishes rfl rfl
  cases hr'' with
  | main hmain' =>
      obtain rfl := Option.some.inj (hmain.symm.trans hmain')
      exact hrun.head henter

theorem reader_simulates : Simulates receiveSystem FineStep fun r f => f = r.fine where
  silent _ hstep := hstep.elim
  shown := by
    rintro r r' _ event rfl hstep
    by_cases htake : event = .main ∧ r.point = .take
    · obtain ⟨rfl,hpoint⟩ := htake
      cases hstep with
      | main hmain => exact ⟨_,take_fine hpoint hmain,rfl⟩
    · refine ⟨r'.fine,.of_shown (.outside rfl ?_ ?_ hstep),rfl⟩
      · exact fun hmain hpoint => htake ⟨hmain,hpoint⟩
      · exact fun _ => .inr rfl

/-- The reader with all of its loads and stores shows the same events as the reader that takes
a byte in one step. FAULTMASK is set exactly in the critical section, which always comes to its
end. -/
theorem criticalSection_refines (buffer : ℕ → BitVec 8) (enableBreak : Bool) :
    (∀ events f, Run FineStep (receiverInit buffer enableBreak).fine events f →
      (∃ r, ReceiveRun (receiverInit buffer enableBreak) events r ∧ Refines f r) ∧
      (f.faultmask = true ↔ ∃ point, f.point = .inside point) ∧
      ∀ point, f.point = .inside point → ∃ r' : Receiver, Run FineStep f [.main] r'.fine) ∧
    ∀ events r, ReceiveRun (receiverInit buffer enableBreak) events r →
      Run FineStep (receiverInit buffer enableBreak).fine events r.fine := by
  constructor
  · intro events f hrun
    obtain ⟨r,hr,href⟩ := fine_simulates.run (refines_fine _) hrun
    refine ⟨⟨r,run_receiveSystem.mp hr,href⟩,?_,?_⟩
    · cases href with
      | outside hpoint _ _ hmask _ => simp [hpoint,hmask]
      | inside hpoint _ _ _ hmask _ => simp [hpoint,hmask]
    · intro point hpoint
      obtain ⟨r',_,hends⟩ := href.finishes rfl hpoint
      exact ⟨r',hends⟩
  · intro events r hrun
    obtain ⟨f,hf,rfl⟩ := reader_simulates.run rfl (run_receiveSystem.mpr hrun)
    exact hf

end TwMonitor.Usart
