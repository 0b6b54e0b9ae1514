import TwMonitor.ByteMemory

/-!
# Logs of writes

The ranges that a program writes, in order. A log explains a change of memory when
every byte outside of its ranges is as before.
-/
namespace TwMonitor.WriteLog
open ByteMemory

/-- Some bytes from an address on. -/
structure Range where
  start : Address
  length : ℕ
deriving DecidableEq, Repr

abbrev Log := List Range

def Written (log : Log) (a : Address) : Prop := ∃ r ∈ log, InRange r.start r.length a

def Explains (log : Log) (m m' : Memory) : Prop := ∀ a, ¬ Written log a → m' a = m a

section
variable {log log' : Log} {m m' m'' : Memory} {a : Address}

theorem not_written_nil : ¬ Written [] a := by
  simp [Written]

theorem written_singleton {r : Range} : Written [r] a ↔ InRange r.start r.length a := by
  simp [Written]

theorem written_append : Written (log ++ log') a ↔ Written log a ∨ Written log' a := by
  simp only [Written,List.mem_append,or_and_right,exists_or]

theorem Explains.refl (m : Memory) : Explains [] m m := fun _ _ => rfl

theorem Explains.trans (h : Explains log m m') (h' : Explains log' m' m'') :
    Explains (log ++ log') m m'' := by
  intro a ha
  rw [written_append,not_or] at ha
  exact (h' a ha.2).trans (h a ha.1)

end

/-- A store of one byte. -/
theorem store8_frame (m : Memory) {p a : Address} (v : BitVec 8) (h : ¬ InRange p 1 a) :
    store8 m p v a = m a := by
  refine store8_ne m v ?_
  rintro rfl
  rw [InRange,BitVec.sub_self] at h
  exact h Nat.one_pos

end TwMonitor.WriteLog
