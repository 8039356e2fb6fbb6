import Stencil.Attribute.Defaults
import Stencil.Entries

/-! What a logic-less page shows under values for its keys. However a dialect spells it, a page is a row
of marks: characters, values of keys, and blocks whose branches show under a test. The marks are run
from left to right with the open blocks on a stack; a block that is closed under another label, or
not at all, shows nothing. -/
namespace Stencil.LogicLess.Page

/-- What a branch of a block asks of the values. -/
inductive Test where
  | anySet (keys : List String)
  | unset (key : String)
  | equals (key name : String)
  deriving DecidableEq, Repr

def isSet (values : Entries String) (key : String) : Bool := (values.get? key).isSome

def Test.holds (values : Entries String) : Test → Bool
  | anySet keys => keys.any (isSet values)
  | unset key => !isSet values key
  | equals key name => values.get? key == some name

inductive Mark where
  | char (c : Char)
  | value (key : String)
  | enter (label : String) (test : Test)
  | otherwise (test : Test)
  | leave (label : String)
  deriving DecidableEq, Repr

/-- An open block: whether one of its branches was taken, and whether the present one shows. -/
structure Block where
  label : String
  taken : Bool
  shown : Bool
  deriving DecidableEq, Repr

structure State where
  output : List Char := []
  /-- The innermost block first. -/
  blocks : List Block := []
  deriving DecidableEq, Repr

namespace State

/-- Adds to the output, if every open block shows. -/
def emit (s : State) (text : List Char) : State :=
  if s.blocks.all (·.shown) then { s with output := s.output ++ text } else s

@[simp] theorem emit_blocks (s : State) (text : List Char) : (s.emit text).blocks = s.blocks := by
  unfold emit
  split <;> rfl

@[simp] theorem emit_restored (s : State) (text : List Char) :
    (⟨(s.emit text).output, s.blocks⟩ : State) = s.emit text := by
  unfold emit
  split <;> rfl

@[simp] theorem emit_nil (s : State) : s.emit [] = s := by simp [emit]

theorem emit_emit (s : State) (first second : List Char) :
    (s.emit first).emit second = s.emit (first ++ second) := by
  by_cases shows : s.blocks.all (·.shown) = true <;> simp [emit, shows]

end State

def step (values : Entries String) : Mark → State → Option State
  | .char c, s => some (s.emit [c])
  | .value key, s => some (s.emit ((values.get? key).getD "").toList)
  | .enter label test, s =>
    some { s with blocks := ⟨label, test.holds values, test.holds values⟩ :: s.blocks }
  | .otherwise test, s =>
    match s.blocks with
    | [] => none
    | b :: rest =>
      let taken := !b.taken && test.holds values
      some { s with blocks := ⟨b.label, b.taken || taken, taken⟩ :: rest }
  | .leave label, s =>
    match s.blocks with
    | [] => none
    | b :: rest => if b.label = label then some { s with blocks := rest } else none

def run (values : Entries String) : List Mark → State → Option State
  | [], s => some s
  | m :: rest, s => (step values m s).bind (run values rest)

/-- The output of a whole page, on which every block is closed. -/
def show? (values : Entries String) (marks : List Mark) : Option String :=
  match run values marks {} with
  | some ⟨output, []⟩ => some (String.ofList output)
  | _ => none

theorem run_append (values : Entries String) (first second : List Mark) (s : State) :
    run values (first ++ second) s = (run values first s).bind (run values second) := by
  induction first generalizing s with
  | nil => rfl
  | cons m first ih =>
    simp only [List.cons_append, run]
    cases step values m s with
    | none => rfl
    | some next => exact ih next

/-- Marks that leave every open block as it is and add one text wherever the page shows. -/
def Yields (values : Entries String) (marks : List Mark) (text : List Char) : Prop :=
  ∀ s, run values marks s = some (s.emit text)

variable {values : Entries String} {marks first second body : List Mark} {text out rest : List Char}

theorem yields_nil : Yields values [] [] := by
  intro s
  simp [run]

theorem yields_append (left : Yields values first text) (right : Yields values second out) :
    Yields values (first ++ second) (text ++ out) := by
  intro s
  rw [run_append, left s, Option.bind_some, right, State.emit_emit]

theorem yields_chars (text : List Char) : Yields values (text.map .char) text := by
  induction text with
  | nil => exact yields_nil
  | cons c text ih =>
    have here : Yields values [.char c] [c] := fun s => rfl
    exact yields_append here ih

theorem yields_value (key : String) :
    Yields values [.value key] ((values.get? key).getD "").toList := fun _ => rfl

/-- Output under a further block, seen from outside: it is there if the block shows. -/
theorem emit_under (s : State) (b : Block) (text : List Char) :
    ({ s with blocks := b :: s.blocks } : State).emit text =
      { s.emit (if b.shown then text else []) with blocks := b :: s.blocks } := by
  by_cases here : b.shown = true <;> by_cases shows : s.blocks.all (·.shown) = true <;>
    simp [State.emit, here, shows]

theorem yields_block (label : String) (test : Test) (inner : Yields values body text) :
    Yields values (.enter label test :: (body ++ [.leave label]))
      (if test.holds values then text else []) := by
  intro s
  simp only [run, step, Option.bind_some, run_append]
  rw [inner, Option.bind_some, emit_under]
  simp

theorem show?_of_yields (shows : Yields values marks text) :
    show? values marks = some (String.ofList text) := by
  simp [show?, shows {}, State.emit]

/-- The branches of a block after its first, each with the text it shows. -/
theorem run_branches (s : State) (b : Block) (branches : List (Test × List Mark × List Char))
    (inner : ∀ branch ∈ branches, Yields values branch.2.1 branch.2.2) :
    run values ((branches.flatMap fun branch => .otherwise branch.1 :: branch.2.1) ++ [.leave b.label])
        { s with blocks := b :: s.blocks } =
      some (s.emit (if b.taken then []
        else ((branches.find? (·.1.holds values)).map (·.2.2)).getD [])) := by
  induction branches generalizing s b with
  | nil => simp [run, step]
  | cons branch rest ih =>
    have here := inner branch (List.mem_cons_self ..)
    have later := fun next member => inner next (List.mem_cons_of_mem branch member)
    simp only [List.flatMap_cons, List.cons_append, List.append_assoc, run, step, Option.bind_some]
    rw [run_append, here, Option.bind_some, emit_under]
    have next := ih (s.emit (if !b.taken && branch.1.holds values then branch.2.2 else []))
      ⟨b.label, b.taken || (!b.taken && branch.1.holds values), !b.taken && branch.1.holds values⟩ later
    rw [State.emit_blocks] at next
    rw [next, State.emit_emit]
    cases taken : b.taken <;> cases holds : branch.1.holds values <;> simp [holds]

/-- A block shows its first branch whose test holds. -/
theorem yields_branches (label : String) (branch : Test × List Mark × List Char)
    (branches : List (Test × List Mark × List Char))
    (inner : ∀ b ∈ branch :: branches, Yields values b.2.1 b.2.2) :
    Yields values
      (.enter label branch.1 :: (branch.2.1 ++
        ((branches.flatMap fun b => .otherwise b.1 :: b.2.1) ++ [.leave label])))
      ((((branch :: branches).find? (·.1.holds values)).map (·.2.2)).getD []) := by
  intro s
  have here := inner branch (List.mem_cons_self ..)
  have later := fun next member => inner next (List.mem_cons_of_mem branch member)
  simp only [run, step, Option.bind_some]
  rw [run_append, here, Option.bind_some, emit_under]
  have rest := run_branches (s.emit (if branch.1.holds values then branch.2.2 else []))
    ⟨label, branch.1.holds values, branch.1.holds values⟩ branches later
  rw [State.emit_blocks] at rest
  rw [rest, State.emit_emit]
  cases holds : branch.1.holds values <;> simp [holds]

/-- Every character of an identifier is a letter, a digit or an underscore. -/
theorem identifier_char {key : String} {c : Char} (named : Default.isIdentifier key = true)
    (member : c ∈ key.toList) : (c.isAlphanum || c == '_') = true := by
  unfold Default.isIdentifier at named
  cases chars : key.toList with
  | nil => simp [chars] at member
  | cons first rest =>
    simp only [chars, Bool.and_eq_true, List.all_eq_true] at named
    rw [chars] at member
    rcases List.mem_cons.mp member with rfl | later
    · have start := named.1
      simp only [Bool.or_eq_true] at start ⊢
      exact start.imp_left fun alpha => by simp [Char.isAlphanum, alpha]
    · exact named.2 c later

/-- A reader takes the text for these marks, whatever follows it. -/
def Reads (read : List Char → Option (List Mark)) (text : List Char) (marks : List Mark) : Prop :=
  ∀ rest, read (text ++ rest) = (read rest).map (marks ++ ·)

variable {read : List Char → Option (List Mark)}

theorem reads_nil : Reads read [] [] := by
  intro rest
  simp

theorem reads_append {left right : List Char} (one : Reads read left first)
    (two : Reads read right second) : Reads read (left ++ right) (first ++ second) := by
  intro rest
  rw [List.append_assoc, one, two, Option.map_map]
  simp [Function.comp_def]

theorem reads_chars {text : List Char} (plain : ∀ c ∈ text, Reads read [c] [.char c]) :
    Reads read text (text.map .char) := by
  induction text with
  | nil => exact reads_nil
  | cons c text ih =>
    have here := plain c (List.mem_cons_self ..)
    have later := ih fun other member => plain other (List.mem_cons_of_mem c member)
    have both := reads_append here later
    exact both

/-- A text whose marks close every block they open, and what it shows. -/
def Shows (read : List Char → Option (List Mark)) (values : Entries String)
    (text out : List Char) : Prop :=
  ∃ marks, Reads read text marks ∧ Yields values marks out

theorem shows_nil : Shows read values [] [] := ⟨[], reads_nil, yields_nil⟩

theorem shows_append {left right shown more : List Char} (one : Shows read values left shown)
    (two : Shows read values right more) : Shows read values (left ++ right) (shown ++ more) := by
  obtain ⟨first, readsFirst, yieldsFirst⟩ := one
  obtain ⟨second, readsSecond, yieldsSecond⟩ := two
  exact ⟨first ++ second, reads_append readsFirst readsSecond, yields_append yieldsFirst yieldsSecond⟩

theorem shows_chars {text : List Char} (plain : ∀ c ∈ text, Reads read [c] [.char c]) :
    Shows read values text text :=
  ⟨text.map .char, reads_chars plain, yields_chars text⟩

theorem shows_block {opening inside closing : List Char} {label : String} {test : Test}
    (enters : Reads read opening [.enter label test]) (inner : Shows read values inside out)
    (leaves : Reads read closing [.leave label]) :
    Shows read values (opening ++ inside ++ closing) (if test.holds values then out else []) := by
  obtain ⟨body, readsBody, yieldsBody⟩ := inner
  have reads := reads_append (reads_append enters readsBody) leaves
  rw [List.singleton_append, List.cons_append] at reads
  exact ⟨_, reads, yields_block label test yieldsBody⟩

/-- A page that is read to its end shows what its text does. -/
theorem bind_show?_of_shows {text : List Char} (ends : read [] = some [])
    (shows : Shows read values text out) :
    (read text).bind (show? values) = some (String.ofList out) := by
  obtain ⟨marks, reads, yields⟩ := shows
  have whole := reads []
  rw [List.append_nil, ends, Option.map_some, List.append_nil] at whole
  rw [whole, Option.bind_some, show?_of_yields yields]

end Stencil.LogicLess.Page
