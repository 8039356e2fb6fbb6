import Stencil.Style.Reader

/-! Just enough of a selector to decide which elements a rule can style: the compound after the last
combinator is taken apart, what stands before it is only known to be there or not. -/
namespace Stencil.Style

structure Compound where
  /-- In lower case; `*` for any. -/
  tag : Option String := none
  classes : List String := []
  ids : List String := []
  /-- The text of each pseudo-class or pseudo-element, with its colons. -/
  pseudos : List String := []
  /-- The text of each attribute selector, with its brackets. -/
  attributes : List String := []
  deriving DecidableEq, Repr, Inhabited

def Compound.isEmpty (c : Compound) : Bool :=
  c.tag.isNone && c.classes.isEmpty && c.ids.isEmpty && c.pseudos.isEmpty && c.attributes.isEmpty

structure Selector where
  subject : Compound
  hasAncestors : Bool
  text : String
  deriving DecidableEq, Repr, Inhabited

open ComponentValue

def splitCommas : List ComponentValue → List (List ComponentValue)
  | [] => [[]]
  | c :: cs =>
    if c.isToken .comma then [] :: splitCommas cs
    else match splitCommas cs with
      | [] => [[c]]
      | first :: rest => (c :: first) :: rest

/-- The selectors of a list, trimmed and without the spaces and comments in front; empty ones are
dropped. Commas inside brackets do not split. -/
def splitSelectors (list : String) : List String :=
  ((splitCommas (ComponentValue.scan list.toList)).map fun part => slice (part.dropWhile isSpace)).filter
    (!·.isEmpty)

namespace Selector

/-- How far a selector has been read: the compound so far, whether a combinator has followed it, and the
source passed over since the last part. -/
structure Reading where
  subject : Compound := {}
  hasAncestors : Bool := false
  afterCombinator : Bool := false
  passed : List Char := []

/-- A part after a combinator starts a new compound. -/
def Reading.enter (r : Reading) : Reading :=
  if r.afterCombinator then
    { r with subject := {}, hasAncestors := true, afterCombinator := false }
  else r

def Reading.add (r : Reading) (f : Compound → Compound) : Reading :=
  { r.enter with subject := f r.enter.subject, passed := [] }

def Reading.pass (r : Reading) (source : List Char) : Reading := { r.enter with passed := source }

def isCombinator (c : Char) : Bool := c == '>' || c == '+' || c == '~'

def afterOpening : ComponentValue → List Char
  | .block _ _ contents closing => sourceAll contents ++ (closing.map (·.source)).getD []
  | .token _ => []

def openingSource : ComponentValue → List Char
  | .block _ opening _ _ => opening.source
  | .token t => t.source

def isFunction : ComponentValue → Bool
  | .block _ ⟨.function _, _⟩ _ _ => true
  | _ => false

/-- The next component that is not a comment, with the comments before it, and what follows. -/
def skipComments (cs : List ComponentValue) : List Char × List ComponentValue :=
  (sourceAll (cs.takeWhile (·.isToken .comment)), cs.dropWhile (·.isToken .comment))

/-- What follows a colon: further colons and the name, or the function with its arguments. Returns the
source of the pseudo, what was opened but not entered, and the rest. -/
def pseudo (cs : List ComponentValue) : List Char × List Char × List ComponentValue :=
  match _h : (skipComments cs).2 with
  | [] => ((skipComments cs).1, [], [])
  | c :: rest =>
    if c.isToken .colon then
      let (source, passed, rest) := pseudo rest
      ((skipComments cs).1 ++ c.source ++ source, passed, rest)
    else if isFunction c then ((skipComments cs).1 ++ c.source, [], rest)
    else ((skipComments cs).1 ++ openingSource c, afterOpening c, rest)
termination_by cs.length
decreasing_by
  have := (List.dropWhile_suffix (·.isToken .comment) (l := cs)).length_le
  simp only [skipComments] at _h
  rw [_h] at this
  simp at this; omega

theorem pseudo_length_le (cs : List ComponentValue) : (pseudo cs).2.2.length ≤ cs.length := by
  have hd (cs : List ComponentValue) : (skipComments cs).2.length ≤ cs.length :=
    (List.dropWhile_suffix (·.isToken .comment) (l := cs)).length_le
  fun_induction pseudo cs with
  | case1 => simp
  | case2 cs c rest h _ source passed rest' hp ih =>
    have := hd cs
    rw [h] at this
    simp_all; omega
  | case3 cs c rest h _ _ =>
    have := hd cs
    rw [h] at this
    simp at this ⊢; omega
  | case4 cs c rest h _ _ =>
    have := hd cs
    rw [h] at this
    simp at this ⊢; omega

def Reading.run (r : Reading) (cs : List ComponentValue) : Reading :=
  match cs with
  | [] => r
  | c :: cs =>
    match c with
    | .token ⟨.comment, source⟩ => run { r with passed := r.passed ++ source } cs
    | .token ⟨.space, _⟩ =>
      run { r with passed := [], afterCombinator := r.afterCombinator || !r.subject.isEmpty } cs
    | .token ⟨.delim d, _⟩ =>
      if isCombinator d then run { r with passed := [], afterCombinator := true } cs
      else if d == '*' then run (r.add ({ · with tag := some "*" })) cs
      else if d == '.' then
        match _h : (skipComments cs).2 with
        | [] => r.enter
        | .token ⟨.ident name, _⟩ :: rest =>
          run (r.add fun s => { s with classes := s.classes ++ [name] }) rest
        | other :: rest => run (r.pass (afterOpening other)) rest
      else run (r.pass []) cs
    | .token ⟨.ident name, _⟩ =>
      run (r.add ({ · with tag := some (Text.toLowerAscii name) })) cs
    | .token ⟨.hash name, _⟩ =>
      run (r.add fun s => { s with ids := s.ids ++ [name] }) cs
    | .token ⟨.colon, source⟩ =>
      let text := String.ofList (r.passed ++ source ++ (pseudo cs).1)
      run ((r.add fun s => { s with pseudos := s.pseudos ++ [text] }).pass (pseudo cs).2.1)
        (pseudo cs).2.2
    | .block .square ⟨.opening .square, _⟩ _ _ =>
      let text := String.ofList (r.passed ++ c.source)
      run (r.add fun s => { s with attributes := s.attributes ++ [text] }) cs
    | other => run (r.pass (afterOpening other)) cs
termination_by cs.length
decreasing_by
  all_goals simp only [List.length_cons]
  all_goals first
    | omega
    | (have hp := pseudo_length_le cs; omega)
    | (have hd := (List.dropWhile_suffix (·.isToken .comment) (l := cs)).length_le
       simp only [skipComments] at _h
       rw [_h] at hd
       simp at hd; omega)

def parse (text : String) : Selector :=
  let r := Reading.run {} (ComponentValue.scan text.toList)
  ⟨r.subject, r.hasAncestors, Text.trim text⟩

end Selector

end Stencil.Style
