import Mathlib.Logic.Relation
import Mathlib.Tactic

/-!
# Programs that read keys

A program takes the keys it needs from the front of its input. It waits where the keys
run out, fails where an assertion does, or returns a result and the keys that are left.
A result depends on the keys that were taken and on no others, which every reader
carries as a field. A loop is over when the round that was given the last keys waits.
-/
namespace TwMonitor.Input
open Relation

variable {κ σ α β : Type*}

inductive Outcome (κ α : Type*) where
  | waiting
  | failed
  | returned (result : α) (rest : List κ)
deriving DecidableEq

/-- A result is a matter of the keys that were taken. -/
def Outcome.Local (run : List κ → Outcome κ α) : Prop :=
  ∀ keys a rest, run keys = .returned a rest ↔
    ∃ taken, keys = taken ++ rest ∧ run taken = .returned a []

@[ext]
structure Reader (κ α : Type*) where
  run : List κ → Outcome κ α
  isLocal : Outcome.Local run

/-- The reader takes exactly these keys for its result. -/
def Reads (r : Reader κ α) (keys : List κ) (a : α) : Prop := r.run keys = .returned a []

/-- Some keys lead to this result. -/
def Returns (r : Reader κ α) (a : α) : Prop := ∃ keys, Reads r keys a

/-- No keys let an assertion fail. -/
def Safe (r : Reader κ α) : Prop := ∀ keys, r.run keys ≠ .failed

theorem run_eq_returned {r : Reader κ α} {keys rest : List κ} {a : α} :
    r.run keys = .returned a rest ↔ ∃ taken, keys = taken ++ rest ∧ Reads r taken a :=
  r.isLocal keys a rest

theorem Reads.append {r : Reader κ α} {keys : List κ} {a : α} (h : Reads r keys a)
    (rest : List κ) : r.run (keys ++ rest) = .returned a rest :=
  run_eq_returned.mpr ⟨keys,rfl,h⟩

theorem returns_of_run {r : Reader κ α} {keys rest : List κ} {a : α}
    (h : r.run keys = .returned a rest) : Returns r a := by
  obtain ⟨taken,_,htaken⟩ := run_eq_returned.mp h
  exact ⟨taken,htaken⟩

/-! ## Sequences -/

def Outcome.andThen (o : Outcome κ α) (f : α → Reader κ β) : Outcome κ β :=
  match o with
  | .waiting => .waiting
  | .failed => .failed
  | .returned a rest => (f a).run rest

theorem Outcome.andThen_eq_returned {o : Outcome κ α} {f : α → Reader κ β} {b : β}
    {rest : List κ} : o.andThen f = .returned b rest ↔
      ∃ a left, o = .returned a left ∧ (f a).run left = .returned b rest := by
  cases o <;> simp [Outcome.andThen]

def Reader.pure (a : α) : Reader κ α where
  run keys := .returned a keys
  isLocal keys b rest := by
    constructor
    · intro h
      obtain ⟨rfl,rfl⟩ := Outcome.returned.inj h
      exact ⟨[],rfl,rfl⟩
    · rintro ⟨taken,rfl,h⟩
      obtain ⟨rfl,rfl⟩ := Outcome.returned.inj h
      rfl

def Reader.bind (r : Reader κ α) (f : α → Reader κ β) : Reader κ β where
  run keys := (r.run keys).andThen f
  isLocal keys b rest := by
    simp only [Outcome.andThen_eq_returned]
    constructor
    · rintro ⟨a,left,hr,hf⟩
      obtain ⟨first,rfl,hfirst⟩ := run_eq_returned.mp hr
      obtain ⟨second,rfl,hsecond⟩ := run_eq_returned.mp hf
      exact ⟨first ++ second,(List.append_assoc _ _ _).symm,a,second,hfirst.append second,hsecond⟩
    · rintro ⟨taken,rfl,a,left,hr,hf⟩
      obtain ⟨first,rfl,hfirst⟩ := run_eq_returned.mp hr
      refine ⟨a,left ++ rest,?_,Reads.append hf rest⟩
      rw [List.append_assoc]
      exact hfirst.append (left ++ rest)

instance : Monad (Reader κ) where
  pure := Reader.pure
  bind := Reader.bind

section
universe u
variable {α β : Type u}

theorem run_bind (r : Reader κ α) (f : α → Reader κ β) (keys : List κ) :
    (r >>= f).run keys = (r.run keys).andThen f := rfl

theorem Reads.bind {r : Reader κ α} {f : α → Reader κ β} {first second : List κ} {a : α} {b : β}
    (hr : Reads r first a) (hf : Reads (f a) second b) : Reads (r >>= f) (first ++ second) b := by
  show (r.run (first ++ second)).andThen f = _
  rw [hr.append second]
  exact hf

@[simp] theorem returns_pure {a b : α} : Returns (pure a : Reader κ α) b ↔ b = a := by
  constructor
  · rintro ⟨keys,h⟩
    exact (Outcome.returned.inj h).1.symm
  · rintro rfl
    exact ⟨[],rfl⟩

@[simp] theorem returns_bind {r : Reader κ α} {f : α → Reader κ β} {b : β} :
    Returns (r >>= f) b ↔ ∃ a, Returns r a ∧ Returns (f a) b := by
  constructor
  · rintro ⟨keys,h⟩
    obtain ⟨a,left,hr,hf⟩ := Outcome.andThen_eq_returned.mp h
    exact ⟨a,returns_of_run hr,left,hf⟩
  · rintro ⟨a,⟨first,hr⟩,second,hf⟩
    exact ⟨first ++ second,hr.bind hf⟩

theorem safe_pure (a : α) : Safe (pure a : Reader κ α) := fun _ h => by cases h

theorem Safe.bind {r : Reader κ α} {f : α → Reader κ β} (hr : Safe r)
    (hf : ∀ a, Returns r a → Safe (f a)) : Safe (r >>= f) := by
  intro keys h
  rw [run_bind] at h
  cases hrun : r.run keys with
  | waiting => simp [hrun,Outcome.andThen] at h
  | failed => exact hr keys hrun
  | returned a rest =>
      rw [hrun] at h
      exact hf a (returns_of_run hrun) rest h

theorem safe_ite {p : Prop} [Decidable p] {r s : Reader κ α} (hr : Safe r) (hs : Safe s) :
    Safe (if p then r else s) := by
  split
  · exact hr
  · exact hs

theorem Safe.first {r : Reader κ α} {f : α → Reader κ β} (h : Safe (r >>= f)) : Safe r := by
  intro keys hrun
  refine h keys ?_
  rw [run_bind,hrun]
  rfl

/-- What comes after a result that can be read must be safe too. -/
theorem Safe.after {r : Reader κ α} {f : α → Reader κ β} (h : Safe (r >>= f)) {a : α}
    (ha : Returns r a) : Safe (f a) := by
  obtain ⟨first,hfirst⟩ := ha
  intro keys hrun
  refine h (first ++ keys) ?_
  rw [run_bind,hfirst.append]
  exact hrun

end

/-! ## One key, and assertions -/

/-- Wait for a key. -/
def next : Reader κ κ where
  run
    | [] => .waiting
    | k::keys => .returned k keys
  isLocal keys k rest := by
    cases keys with
    | nil => simp
    | cons k' keys =>
        constructor
        · intro h
          obtain ⟨rfl,rfl⟩ := Outcome.returned.inj h
          exact ⟨[k'],rfl,rfl⟩
        · rintro ⟨taken,hkeys,h⟩
          cases taken with
          | nil => cases h
          | cons k'' taken =>
              obtain ⟨rfl,rfl⟩ := Outcome.returned.inj h
              obtain ⟨rfl,rfl⟩ := List.cons.inj hkeys
              rfl

/-- Fail where there is no value. -/
def ofOption (o : Option α) : Reader κ α where
  run keys := o.elim .failed (.returned · keys)
  isLocal keys a rest := by
    cases o with
    | none => simp
    | some b =>
        simp only [Option.elim_some,Outcome.returned.injEq]
        constructor
        · rintro ⟨rfl,rfl⟩
          exact ⟨[],rfl,rfl,rfl⟩
        · rintro ⟨taken,rfl,rfl,rfl⟩
          exact ⟨rfl,rfl⟩

theorem ofOption_some_bind {α β : Type} (a : α) (f : α → Reader κ β) :
    ofOption (some a) >>= f = f a := rfl

@[simp] theorem returns_next (k : κ) : Returns next k := ⟨[k],rfl⟩

theorem safe_next : Safe (next : Reader κ κ) := by
  intro keys h
  cases keys <;> cases h

@[simp] theorem returns_ofOption {o : Option α} {a : α} :
    Returns (ofOption o : Reader κ α) a ↔ o = some a := by
  constructor
  · rintro ⟨keys,h⟩
    cases o with
    | none => cases h
    | some b => rw [(Outcome.returned.inj h).1]
  · rintro rfl
    exact ⟨[],rfl⟩

theorem safe_ofOption_iff {o : Option α} :
    Safe (ofOption o : Reader κ α) ↔ o.isSome = true := by
  constructor
  · intro h
    cases o with
    | none => exact absurd rfl (h [])
    | some a => rfl
  · intro h keys hrun
    cases o with
    | none => cases h
    | some a => cases hrun

theorem safe_ofOption {o : Option α} (h : o.isSome) : Safe (ofOption o : Reader κ α) :=
  safe_ofOption_iff.mpr h

/-! ## Loops -/

/-- The reader does not return before it has taken a key. -/
def Takes (r : Reader κ α) : Prop := ∀ a, ¬Reads r [] a

theorem Takes.length_lt {r : Reader κ α} (h : Takes r) {keys rest : List κ} {a : α}
    (hr : r.run keys = .returned a rest) : rest.length < keys.length := by
  obtain ⟨taken,rfl,htaken⟩ := run_eq_returned.mp hr
  have hne : taken ≠ [] := fun hnil => h a (hnil ▸ htaken)
  have hpos := List.length_pos_of_ne_nil hne
  rw [List.length_append]
  omega

/-- A round is either followed by another or is the last. -/
def roundsRun (body : σ → Reader κ (σ ⊕ α)) : ℕ → σ → List κ → Outcome κ α
  | 0,_,_ => .waiting
  | fuel + 1,s,keys =>
      match (body s).run keys with
      | .waiting => .waiting
      | .failed => .failed
      | .returned (.inl t) rest => roundsRun body fuel t rest
      | .returned (.inr a) rest => .returned a rest

section
variable {body : σ → Reader κ (σ ⊕ α)}

/-- Every round takes a key, so as many rounds as keys are enough. -/
theorem roundsRun_fuel (hbody : ∀ s, Takes (body s)) {keys : List κ} {fuel more : ℕ}
    (hfuel : keys.length < fuel) (s : σ) :
    roundsRun body (fuel + more) s keys = roundsRun body fuel s keys := by
  induction fuel generalizing s keys with
  | zero => omega
  | succ fuel ih =>
      rw [Nat.add_right_comm,roundsRun,roundsRun]
      cases hrun : (body s).run keys with
      | waiting => rfl
      | failed => rfl
      | returned b rest =>
          cases b with
          | inr a => rfl
          | inl t =>
              have hlt := (hbody s).length_lt hrun
              exact ih (by omega) t

theorem roundsRun_returned (hbody : ∀ s, Takes (body s)) {keys rest : List κ} {a : α} {fuel : ℕ}
    (hfuel : keys.length < fuel) (s : σ) :
    roundsRun body fuel s keys = .returned a rest ↔
      ∃ taken, keys = taken ++ rest ∧ roundsRun body fuel s taken = .returned a [] := by
  induction fuel generalizing s keys with
  | zero => omega
  | succ fuel ih =>
      constructor
      · intro h
        rw [roundsRun] at h
        cases hrun : (body s).run keys with
        | waiting => simp [hrun] at h
        | failed => simp [hrun] at h
        | returned b left =>
            have hlt := (hbody s).length_lt hrun
            obtain ⟨first,rfl,hfirst⟩ := run_eq_returned.mp hrun
            rw [hrun] at h
            cases b with
            | inr a' =>
                obtain ⟨rfl,rfl⟩ := Outcome.returned.inj h
                refine ⟨first,rfl,?_⟩
                rw [roundsRun,show (body s).run first = _ from hfirst]
            | inl t =>
                obtain ⟨second,rfl,hsecond⟩ := (ih (by omega) t).mp h
                refine ⟨first ++ second,(List.append_assoc _ _ _).symm,?_⟩
                rw [roundsRun,hfirst.append second]
                exact hsecond
      · rintro ⟨taken,rfl,h⟩
        rw [roundsRun] at h
        rw [roundsRun]
        cases hrun : (body s).run taken with
        | waiting => simp [hrun] at h
        | failed => simp [hrun] at h
        | returned b left =>
            have hlt := (hbody s).length_lt hrun
            have happend : (body s).run (taken ++ rest) = .returned b (left ++ rest) := by
              obtain ⟨first,rfl,hfirst⟩ := run_eq_returned.mp hrun
              rw [List.append_assoc]
              exact hfirst.append (left ++ rest)
            rw [hrun] at h
            rw [happend]
            rw [List.length_append] at hfuel
            cases b with
            | inr a' =>
                obtain ⟨rfl,rfl⟩ := Outcome.returned.inj h
                rfl
            | inl t =>
                have hlength : (left ++ rest).length < fuel := by
                  rw [List.length_append]
                  omega
                exact (ih hlength t).mpr ⟨left,rfl,h⟩

end

/-- Repeat the body until a round is the last. -/
def rounds (body : σ → Reader κ (σ ⊕ α)) (hbody : ∀ s, Takes (body s)) (s : σ) :
    Reader κ α where
  run keys := roundsRun body (keys.length + 1) s keys
  isLocal keys a rest := by
    rw [roundsRun_returned hbody (Nat.lt_succ_self _)]
    refine exists_congr fun taken => and_congr_right fun hkeys => ?_
    have hfuel : keys.length.succ = taken.length + 1 + rest.length := by
      rw [hkeys,Nat.succ_eq_add_one,List.length_append]
      omega
    rw [hfuel,roundsRun_fuel hbody (Nat.lt_succ_self _)]

/-- Some keys lead from the head of one round to the head of the next. -/
def Round (body : σ → Reader κ (σ ⊕ α)) (s t : σ) : Prop := Returns (body s) (.inl t)

/-- These keys are whole rounds that lead to a state. -/
inductive Typed (body : σ → Reader κ (σ ⊕ α)) : σ → List κ → σ → Prop
  | refl (s : σ) : Typed body s [] s
  | round {s t u : σ} {first keys : List κ} (hfirst : Reads (body s) first (.inl t))
      (hkeys : Typed body t keys u) : Typed body s (first ++ keys) u

section
variable {body : σ → Reader κ (σ ⊕ α)} {hbody : ∀ s, Takes (body s)} {s t : σ}

theorem run_rounds (s : σ) (keys : List κ) :
    (rounds body hbody s).run keys =
      ((body s).run keys).andThen (Sum.elim (rounds body hbody) Reader.pure) := by
  show roundsRun body (keys.length + 1) s keys = _
  rw [roundsRun]
  cases hrun : (body s).run keys with
  | waiting => rfl
  | failed => rfl
  | returned b rest =>
      cases b with
      | inr a => rfl
      | inl t =>
          have hlt := (hbody s).length_lt hrun
          have hfuel : keys.length = rest.length + 1 + (keys.length - rest.length - 1) := by omega
          show roundsRun body keys.length t rest = roundsRun body (rest.length + 1) t rest
          rw [hfuel,roundsRun_fuel hbody (Nat.lt_succ_self _)]

theorem reads_last {keys : List κ} {a : α} (h : Reads (body s) keys (.inr a)) :
    Reads (rounds body hbody s) keys a := by
  show (rounds body hbody s).run keys = _
  rw [run_rounds,show (body s).run keys = _ from h]
  rfl

theorem Typed.reads {keys last : List κ} {a : α} (h : Typed body s keys t)
    (hlast : Reads (body t) last (.inr a)) : Reads (rounds body hbody s) (keys ++ last) a := by
  induction h with
  | refl => exact reads_last hlast
  | @round s t u first keys hfirst hkeys ih =>
      show (rounds body hbody s).run _ = _
      rw [run_rounds,List.append_assoc,hfirst.append]
      exact ih hlast

theorem Typed.visits {keys : List κ} (h : Typed body s keys t) :
    ReflTransGen (Round body) s t := by
  induction h with
  | refl => exact .refl
  | round hfirst _ ih => exact .head ⟨_,hfirst⟩ ih

theorem exists_typed (h : ReflTransGen (Round body) s t) : ∃ keys, Typed body s keys t := by
  induction h using ReflTransGen.head_induction_on with
  | refl => exact ⟨[],.refl _⟩
  | head hround _ ih =>
      obtain ⟨first,hfirst⟩ := hround
      obtain ⟨keys,hkeys⟩ := ih
      exact ⟨first ++ keys,.round hfirst hkeys⟩

/-- Any keys are whole rounds, and keys of a round that is not followed by another. -/
theorem history (hbody : ∀ s, Takes (body s)) (s : σ) (keys : List κ) :
    ∃ t taken rest, keys = taken ++ rest ∧ Typed body s taken t ∧
      ∀ u left, (body t).run rest ≠ .returned (.inl u) left := by
  induction hlength : keys.length using Nat.strong_induction_on generalizing s keys with
  | _ n ih =>
      by_cases hround : ∃ u left, (body s).run keys = .returned (.inl u) left
      · obtain ⟨u,left,hrun⟩ := hround
        have hlt := (hbody s).length_lt hrun
        obtain ⟨first,rfl,hfirst⟩ := run_eq_returned.mp hrun
        obtain ⟨t,taken,rest,rfl,htyped,hlast⟩ := ih left.length (by omega) u left rfl
        exact ⟨t,first ++ taken,rest,(List.append_assoc _ _ _).symm,.round hfirst htyped,hlast⟩
      · exact ⟨s,[],keys,rfl,.refl s,fun u left hrun => hround ⟨u,left,hrun⟩⟩

theorem returns_rounds {a : α} : Returns (rounds body hbody s) a ↔
    ∃ t, ReflTransGen (Round body) s t ∧ Returns (body t) (.inr a) := by
  constructor
  · rintro ⟨keys,h⟩
    obtain ⟨t,taken,rest,rfl,htyped,hlast⟩ := history hbody s keys
    refine ⟨t,htyped.visits,?_⟩
    induction htyped with
    | refl s =>
        have hrun : (rounds body hbody s).run rest = .returned a [] := h
        rw [run_rounds,Outcome.andThen_eq_returned] at hrun
        obtain ⟨b,left,hb,hleft⟩ := hrun
        cases b with
        | inl u => exact absurd hb (hlast u left)
        | inr a' =>
            obtain ⟨rfl,rfl⟩ := Outcome.returned.inj hleft
            exact returns_of_run hb
    | @round s t u first keys hfirst hkeys ih =>
        refine ih ?_ hlast
        have hrun : (rounds body hbody s).run (first ++ keys ++ rest) = .returned a [] := h
        rw [run_rounds,List.append_assoc,hfirst.append] at hrun
        exact hrun
  · rintro ⟨t,hvisits,last,hlast⟩
    obtain ⟨keys,hkeys⟩ := exists_typed hvisits
    exact ⟨keys ++ last,hkeys.reads hlast⟩

/-- An invariant of the rounds under which no round fails. -/
theorem safe_rounds {I : σ → Prop} (hs : I s) (hsafe : ∀ s, I s → Safe (body s))
    (hround : ∀ s t, I s → Round body s t → I t) : Safe (rounds body hbody s) := by
  intro keys
  induction hlength : keys.length using Nat.strong_induction_on generalizing s keys with
  | _ n ih =>
      intro h
      rw [run_rounds] at h
      cases hrun : (body s).run keys with
      | waiting => simp [hrun,Outcome.andThen] at h
      | failed => exact hsafe s hs keys hrun
      | returned b rest =>
          have hlt := (hbody s).length_lt hrun
          rw [hrun] at h
          cases b with
          | inl t =>
              exact ih rest.length (by omega) (hround s t hs (returns_of_run hrun)) rest rfl h
          | inr a => cases h

/-- A loop that is safe is safe in every round that it comes to. -/
theorem Safe.reached (h : Safe (rounds body hbody s)) (ht : ReflTransGen (Round body) s t) :
    Safe (body t) := by
  induction ht using ReflTransGen.head_induction_on with
  | refl =>
      intro keys hrun
      refine h keys ?_
      rw [run_rounds,hrun]
      rfl
  | head hround _ ih =>
      obtain ⟨first,hfirst⟩ := hround
      refine ih fun keys hrun => h (first ++ keys) ?_
      rw [run_rounds,hfirst.append]
      exact hrun

theorem takes_rounds (s : σ) : Takes (rounds body hbody s) := by
  intro a h
  have hrun : (rounds body hbody s).run [] = .returned a [] := h
  rw [run_rounds,Outcome.andThen_eq_returned] at hrun
  obtain ⟨b,left,hb,_⟩ := hrun
  exact absurd ((hbody s).length_lt hb) (Nat.not_lt_zero _)

end

theorem takes_next : Takes (next : Reader κ κ) := fun _ h => by cases h

theorem Takes.bind_left {α β : Type*} {r : Reader κ α} (h : Takes r) (f : α → Reader κ β) :
    Takes (r.bind f) := by
  intro b hb
  obtain ⟨a,left,hr,_⟩ := Outcome.andThen_eq_returned.mp hb
  exact absurd (h.length_lt hr) (Nat.not_lt_zero _)

theorem Takes.bind_right {α β : Type*} (r : Reader κ α) {f : α → Reader κ β}
    (h : ∀ a, Takes (f a)) : Takes (r.bind f) := by
  intro b hb
  obtain ⟨a,left,hr,hf⟩ := Outcome.andThen_eq_returned.mp hb
  obtain ⟨taken,hnil,_⟩ := run_eq_returned.mp hr
  obtain ⟨_,hleft⟩ := List.append_eq_nil_iff.mp hnil.symm
  exact h a b (hleft ▸ hf)

end TwMonitor.Input
