import TwMonitor.NumberPad

/-!
# Formatted printing

`io_printf` copies the format and puts an argument in the place of each directive. A letter
that it does not know stands for nothing. The result is `none` where an argument is missing or
of another type.
-/
namespace TwMonitor.Printf
open DigitGroups NumberPad

inductive FormatArg where
  | string (s : List Char)
  | word (w : BitVec 32)
deriving DecidableEq, Repr

/-- What a directive prints, and the arguments it leaves. -/
def directive (c : Char) (args : List FormatArg) : Option (List Char × List FormatArg) :=
  if c = '%' then some (['%'],args)
  else if c = 's' then
    match args with
    | .string s::args => some (s,args)
    | _ => none
  else if c = 'c' then
    match args with
    | .word w::args => some ([Char.ofNat (w.setWidth 8).toNat],args)
    | _ => none
  else if c = 'x' ∨ c = 'X' then
    match args with
    | .word w::args => (utoaPadW w 16 8 true).map fun pad => (pad.chars,args)
    | _ => none
  else if c = 'd' then
    match args with
    | .word w::args => (itoaPad w 10).map fun pad => (pad.chars,args)
    | _ => none
  else if c = 'u' then
    match args with
    | .word w::args => (utoaPad w 10).map fun pad => (pad.chars,args)
    | _ => none
  else some ([],args)

/-- The loop over the format, with `in_format`. -/
def printFrom : Bool → List Char → List FormatArg → Option (List Char)
  | _,[],_ => some []
  | false,c::fmt,args =>
      if c = '%' then printFrom true fmt args else (printFrom false fmt args).map (c::·)
  | true,c::fmt,args =>
      (directive c args).bind fun done => (printFrom false fmt done.2).map (done.1 ++ ·)

def ioPrintf (fmt : List Char) (args : List FormatArg) : Option (List Char) :=
  printFrom false fmt args

/-! ## Formats -/

/-- The digits of a number in groups of four. -/
def decimal (w : BitVec 32) : List Char := grouped '_' 4 (numberDigits w.toNat 10)

def signedDecimal (w : BitVec 32) : List Char :=
  if w.slt 0 then '-'::decimal (-w) else decimal w

section
variable {fmt : List Char} {args : List FormatArg}

/-- Text in front of the first directive. -/
theorem ioPrintf_text {text : List Char} (h : '%' ∉ text) :
    ioPrintf (text ++ fmt) args = (ioPrintf fmt args).map (text ++ ·) := by
  induction text with
  | nil => simp
  | cons c text ih =>
      simp only [List.mem_cons,not_or] at h
      have hc : c ≠ '%' := fun heq => h.1 heq.symm
      have hstep : ioPrintf (c::(text ++ fmt)) args = (ioPrintf (text ++ fmt) args).map (c::·) :=
        if_neg hc
      rw [List.cons_append,hstep,ih h.2,Option.map_map]
      rfl

theorem ioPrintf_plain {text : List Char} (h : '%' ∉ text) :
    ioPrintf text args = some text := by
  have hall := @ioPrintf_text [] args text h
  rw [List.append_nil] at hall
  rw [hall]
  show some (text ++ []) = some text
  rw [List.append_nil]

theorem ioPrintf_directive (c : Char) : ioPrintf ('%'::c::fmt) args =
    (directive c args).bind fun done => (ioPrintf fmt done.2).map (done.1 ++ ·) := by
  rw [ioPrintf,printFrom,if_pos rfl]
  rfl

end

theorem utoaPad_decimal (w : BitVec 32) :
    ∃ pad, utoaPad w 10 = some pad ∧ pad.chars = decimal w := by
  obtain ⟨pad,hpad⟩ := utoaPadW_isSome w (by decide : 10 ≤ 10 ∧ 10 ≤ 16 ∧ 0 ≤ 8) false
  exact ⟨pad,hpad,padOf_eq_some ((utoaPad_eq w (by decide)).symm.trans hpad)⟩

theorem itoaPad_decimal (w : BitVec 32) :
    ∃ pad, itoaPad w 10 = some pad ∧ pad.chars = signedDecimal w := by
  obtain ⟨pad,hpad⟩ := itoaPad_isSome w (by decide : 10 ≤ 10 ∧ 10 ≤ 16)
  refine ⟨pad,hpad,?_⟩
  have heq := (itoaPad_eq w (by decide : 2 ≤ 10 ∧ 10 ≤ 16)).symm.trans hpad
  unfold signedDecimal decimal
  by_cases hneg : w.slt 0 = true
  · rw [if_pos hneg] at heq ⊢
    exact padOf_eq_some heq
  · rw [if_neg hneg] at heq ⊢
    exact padOf_eq_some heq

section
variable {fmt : List Char} {args : List FormatArg}

theorem ioPrintf_unsigned (w : BitVec 32) : ioPrintf ('%' :: 'u' :: fmt) (.word w::args) =
    (ioPrintf fmt args).map (decimal w ++ ·) := by
  obtain ⟨pad,hpad,hchars⟩ := utoaPad_decimal w
  have hdirective : directive 'u' (.word w::args) =
      (utoaPad w 10).map fun pad => (pad.chars,args) := rfl
  rw [ioPrintf_directive,hdirective,hpad,Option.map_some,hchars]
  rfl

theorem ioPrintf_signed (w : BitVec 32) : ioPrintf ('%' :: 'd' :: fmt) (.word w::args) =
    (ioPrintf fmt args).map (signedDecimal w ++ ·) := by
  obtain ⟨pad,hpad,hchars⟩ := itoaPad_decimal w
  have hdirective : directive 'd' (.word w::args) =
      (itoaPad w 10).map fun pad => (pad.chars,args) := rfl
  rw [ioPrintf_directive,hdirective,hpad,Option.map_some,hchars]
  rfl

end

/-! ## Arguments that a format takes -/

inductive FormatType where
  | string | word
deriving DecidableEq, Repr

def FormatArg.type : FormatArg → FormatType
  | .string _ => .string
  | .word _ => .word

def directiveType (c : Char) : Option FormatType :=
  if c = 's' then some .string
  else if c ∈ ['c','x','X','d','u'] then some .word
  else none

/-- In the order of the directives. -/
def formatTypes : Bool → List Char → List FormatType
  | _,[] => []
  | false,c::fmt => if c = '%' then formatTypes true fmt else formatTypes false fmt
  | true,c::fmt => (directiveType c).toList ++ formatTypes false fmt

theorem directive_untyped {c : Char} (h : directiveType c = none) (args : List FormatArg) :
    ∃ text, directive c args = some (text,args) := by
  unfold directiveType at h
  split at h
  · cases h
  split at h
  · cases h
  next hs hother =>
    simp only [List.mem_cons,List.not_mem_nil,or_false,not_or] at hother
    unfold directive
    split
    · exact ⟨_,rfl⟩
    · rw [if_neg hother.1,if_neg (not_or.mpr ⟨hother.2.1,hother.2.2.1⟩),
        if_neg hother.2.2.2.1,if_neg hother.2.2.2.2]
      exact ⟨_,rfl⟩

theorem directive_string (s : List Char) (args : List FormatArg) :
    directive 's' (.string s::args) = some (s,args) := rfl

theorem directive_word {c : Char} (h : c ∈ ['c','x','X','d','u']) (w : BitVec 32)
    (args : List FormatArg) : ∃ text, directive c (.word w::args) = some (text,args) := by
  obtain ⟨hex,hhex⟩ := utoaPadW_isSome w (by decide : 10 ≤ 16 ∧ 16 ≤ 16 ∧ 8 ≤ 8) true
  obtain ⟨unsigned,hunsigned,-⟩ := utoaPad_decimal w
  obtain ⟨signed,hsigned,-⟩ := itoaPad_decimal w
  simp only [List.mem_cons,List.not_mem_nil,or_false] at h
  rcases h with rfl | rfl | rfl | rfl | rfl
  · exact ⟨_,rfl⟩
  · exact ⟨hex.chars,congrArg (Option.map fun pad : Pad => (pad.chars,args)) hhex⟩
  · exact ⟨hex.chars,congrArg (Option.map fun pad : Pad => (pad.chars,args)) hhex⟩
  · exact ⟨signed.chars,congrArg (Option.map fun pad : Pad => (pad.chars,args)) hsigned⟩
  · exact ⟨unsigned.chars,congrArg (Option.map fun pad : Pad => (pad.chars,args)) hunsigned⟩

theorem directive_typed {c : Char} {t : FormatType} (h : directiveType c = some t)
    (args : List FormatArg) : (∃ arg text rest, args = arg::rest ∧ arg.type = t ∧
        directive c args = some (text,rest)) ∨
      directive c args = none ∧ ¬[t] <+: args.map FormatArg.type := by
  unfold directiveType at h
  split at h
  · next hc =>
      obtain rfl := hc
      obtain rfl := Option.some.inj h
      match args with
      | [] => exact .inr ⟨rfl,by decide⟩
      | .string s::args => exact .inl ⟨_,_,_,rfl,rfl,directive_string s args⟩
      | .word w::args => exact .inr ⟨rfl,by simp [FormatArg.type]⟩
  split at h
  · next hc =>
      obtain rfl := Option.some.inj h
      match args with
      | .word w::args =>
          obtain ⟨text,htext⟩ := directive_word hc w args
          exact .inl ⟨_,text,_,rfl,rfl,htext⟩
      | [] =>
          simp only [List.mem_cons,List.not_mem_nil,or_false] at hc
          rcases hc with rfl | rfl | rfl | rfl | rfl <;> exact .inr ⟨rfl,by decide⟩
      | .string s::args =>
          simp only [List.mem_cons,List.not_mem_nil,or_false] at hc
          rcases hc with rfl | rfl | rfl | rfl | rfl <;>
            exact .inr ⟨rfl,by simp [FormatArg.type]⟩
  · cases h

theorem printFrom_isSome_iff (inFormat : Bool) (fmt : List Char) (args : List FormatArg) :
    (printFrom inFormat fmt args).isSome = true ↔
      formatTypes inFormat fmt <+: args.map FormatArg.type := by
  induction fmt generalizing inFormat args with
  | nil => simp [printFrom,formatTypes]
  | cons c fmt ih =>
      cases inFormat with
      | false =>
          by_cases hc : c = '%'
          · simp only [printFrom,formatTypes,if_pos hc]
            exact ih true args
          · simp only [printFrom,formatTypes,if_neg hc,Option.isSome_map]
            exact ih false args
      | true =>
          rw [printFrom,formatTypes]
          cases htype : directiveType c with
          | none =>
              obtain ⟨text,htext⟩ := directive_untyped htype args
              rw [htext,Option.bind_some,Option.isSome_map]
              exact ih false args
          | some t =>
              obtain ⟨arg,text,rest,rfl,rfl,htext⟩ | ⟨hnone,hother⟩ := directive_typed htype args
              · rw [htext,Option.bind_some,Option.isSome_map,ih]
                exact (List.prefix_cons_inj _).symm
              · rw [hnone]
                refine iff_of_false (by simp) fun h => hother ?_
                exact (List.prefix_append _ _).trans h

/-- A format is printed if the first arguments have the types of its directives. -/
theorem ioPrintf_isSome_iff (fmt : List Char) (args : List FormatArg) :
    (ioPrintf fmt args).isSome = true ↔ formatTypes false fmt <+: args.map FormatArg.type :=
  printFrom_isSome_iff false fmt args

end TwMonitor.Printf
