import TwMonitor.InputReader
import TwMonitor.ThumbPrint

/-!
# Menus

A menu waits until one of its keys is pressed and returns that key. Other keys are
ignored, and the question mark lists the options, which asserts that a key is printable
where it is not a control character.
-/
namespace TwMonitor.Menu
open Input NumberPad Thumb

structure MenuOption where
  key : Key
  name : String
deriving DecidableEq, Repr

/-- `char` is unsigned. -/
def charIsprint (c : Key) : Bool := !(c < key ' ' || key '~' < c)

def isCtrl (c : Key) : Bool := c < key '\x1b'

/-- How the help shows a key. -/
def keyText (c : Key) : Option Text :=
  if c = key '\r' then some "RET".toList
  else if c = key '\x08' then some "BAK".toList
  else if c = key ' ' then some "SPC".toList
  else if isCtrl c then some ("c-".toList ++ [Char.ofNat (c + key 'A' - 1).toNat])
  else if charIsprint c then some ['\'',Char.ofNat c.toNat,'\'']
  else none

def printMenuOption (opt : MenuOption) : Option Text :=
  (keyText opt.key).map fun text =>
    " * ".toList ++ text ++ " - ".toList ++ opt.name.toList ++ "\r\n".toList

def printMenuHelp (options : List MenuOption) (printHelpQuestionMark : Bool) : Option Text := do
  let lines ← options.mapM printMenuOption
  some ((if printHelpQuestionMark then "?\r\n".toList else []) ++ lines.flatten)

def findMenuOption (c : Key) (options : List MenuOption) : Option MenuOption :=
  options.find? fun opt => opt.key == c

/-- One round of `menu`. -/
def menuKey (options : List MenuOption) (_ : Unit) : Reader Key (Unit ⊕ Key) := do
  let c ← next
  if c = key '?' then do
    let _ ← ofOption (printMenuHelp options true)
    pure (.inl ())
  else if (findMenuOption c options).isSome then pure (.inr c)
  else pure (.inl ())

theorem menuKey_takes (options : List MenuOption) (s : Unit) : Takes (menuKey options s) :=
  takes_next.bind_left _

/-- `menu`, without the prompt and the name of the option. -/
def menu (options : List MenuOption) : Reader Key Key := do
  ofOption (guard (options ≠ []))
  rounds (menuKey options) (menuKey_takes options) ()

/-- The help of a menu can be printed. -/
def Printable (options : List MenuOption) : Prop :=
  ∀ opt ∈ options, (keyText opt.key).isSome = true

/-- A menu that asserts nothing false and whose keys all reach their options. -/
structure Usable (options : List MenuOption) : Prop where
  nonempty : options ≠ []
  printable : Printable options
  noHelp : key '?' ∉ options.map MenuOption.key

instance (options : List MenuOption) : Decidable (Printable options) :=
  inferInstanceAs (Decidable (∀ opt ∈ options, _))

instance (options : List MenuOption) : Decidable (Usable options) :=
  decidable_of_iff (options ≠ [] ∧ Printable options ∧ key '?' ∉ options.map MenuOption.key)
    ⟨fun h => ⟨h.1,h.2.1,h.2.2⟩,fun h => ⟨h.nonempty,h.printable,h.noHelp⟩⟩

variable {options : List MenuOption}

theorem printMenuHelp_isSome (h : Printable options) (printHelpQuestionMark : Bool) :
    (printMenuHelp options printHelpQuestionMark).isSome := by
  have hlines : ∃ lines, options.mapM printMenuOption = some lines := by
    induction options with
    | nil => exact ⟨[],rfl⟩
    | cons opt options ih =>
        obtain ⟨text,htext⟩ := Option.isSome_iff_exists.mp (h opt List.mem_cons_self)
        obtain ⟨lines,hlines⟩ := ih fun opt hopt => h opt (List.mem_cons_of_mem _ hopt)
        rw [List.mapM_cons,hlines,printMenuOption,htext]
        exact ⟨_,rfl⟩
  obtain ⟨lines,hlines⟩ := hlines
  rw [printMenuHelp,hlines]
  rfl

theorem findMenuOption_isSome (c : Key) (options : List MenuOption) :
    (findMenuOption c options).isSome = true ↔ c ∈ options.map MenuOption.key := by
  simp [findMenuOption,List.find?_isSome]

/-- The keys of a menu are what it returns. -/
@[simp] theorem returns_menu (h : Usable options) (c : Key) :
    Returns (menu options) c ↔ c ∈ options.map MenuOption.key := by
  have hlast (c : Key) : Returns (menuKey options ()) (.inr c) ↔
      c ∈ options.map MenuOption.key := by
    unfold menuKey
    rw [returns_bind]
    constructor
    · rintro ⟨k,_,hk⟩
      split at hk
      · simp at hk
      · split at hk
        · next hfound =>
            rw [returns_pure] at hk
            rw [Sum.inr.inj hk]
            exact (findMenuOption_isSome k options).mp hfound
        · simp at hk
    · intro hc
      have hne : c ≠ key '?' := fun heq => h.noHelp (heq ▸ hc)
      refine ⟨c,returns_next c,?_⟩
      rw [if_neg hne,if_pos ((findMenuOption_isSome c options).mpr hc)]
      exact returns_pure.mpr rfl
  have hnonempty : guard (f := Option) (options ≠ []) = some () := by simp [h.nonempty]
  unfold menu
  rw [returns_bind,hnonempty]
  constructor
  · rintro ⟨_,_,hrounds⟩
    obtain ⟨t,_,ht⟩ := returns_rounds.mp hrounds
    exact (hlast c).mp ht
  · intro hc
    exact ⟨(),returns_ofOption.mpr rfl,returns_rounds.mpr ⟨(),.refl,(hlast c).mpr hc⟩⟩

/-- What follows a menu has the cases of its options. -/
theorem returns_menu_bind {α : Type} (h : Usable options) {f : Key → Reader Key α} {a : α} :
    Returns (menu options >>= f) a ↔ ∃ opt ∈ options, Returns (f opt.key) a := by
  rw [returns_bind]
  constructor
  · rintro ⟨c,hc,ha⟩
    obtain ⟨opt,hopt,rfl⟩ := List.mem_map.mp ((returns_menu h c).mp hc)
    exact ⟨opt,hopt,ha⟩
  · rintro ⟨opt,hopt,ha⟩
    exact ⟨opt.key,(returns_menu h opt.key).mpr (List.mem_map_of_mem hopt),ha⟩

theorem safe_menu (h : Usable options) : Safe (menu options) := by
  have hround (s : Unit) : Safe (menuKey options s) := by
    refine safe_next.bind fun c _ => ?_
    split
    · exact (safe_ofOption (printMenuHelp_isSome h.printable true)).bind fun _ _ => safe_pure _
    · split <;> exact safe_pure _
  refine (safe_ofOption (by simp [h.nonempty])).bind fun _ _ => ?_
  exact safe_rounds (I := fun _ => True) trivial (fun s _ => hround s) fun _ _ _ _ => trivial

theorem takes_menu (options : List MenuOption) : Takes (menu options) :=
  Takes.bind_right _ fun _ => takes_rounds ()

end TwMonitor.Menu
