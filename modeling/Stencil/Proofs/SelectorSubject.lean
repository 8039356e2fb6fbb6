import Stencil.Proofs.SelectorGrammar

/-! The subject of a selector. The reader adds each part of an element to the compound, and a combinator with
another part behind it starts a new one; so in the end the compound is that of the last element. -/
namespace Stencil.Style

open Text ComponentValue

namespace Grammar

def Tag.value : Tag → String
  | any => "*"
  | named n => toLowerAscii n.text

/-- A part of a selector, perhaps a function with arguments. -/
inductive Part where
  | simple (part : Simple)
  | call (name : Name) (tag : Option Tag) (args : Arguments)

namespace Part

def chars : Part → List Char
  | simple p => p.chars
  | call n tag args => callChars n (leading tag ++ args.chars)

def text (p : Part) : String := String.ofList p.chars

/-- No function that is read as an address has a function among its arguments. -/
def isSound : Part → Bool
  | simple _ => true
  | call n _ args => (!n.isUrl || args.isFlat) && args.isSound

@[simp] def class? : Part → Option String
  | simple (.ofClass n) => some n.text
  | _ => none

@[simp] def id? : Part → Option String
  | simple (.ofId n) => some n.text
  | _ => none

@[simp] def attribute? : Part → Option String
  | simple (.ofAttribute n v) => some (text (simple (.ofAttribute n v)))
  | _ => none

@[simp] def pseudo? : Part → Option String
  | simple (.pseudoClass n) => some (text (simple (.pseudoClass n)))
  | simple (.pseudoElement n) => some (text (simple (.pseudoElement n)))
  | call n tag args => some (text (call n tag args))
  | _ => none

/-- The compound with what the part says. -/
def onto (p : Part) (c : Compound) : Compound :=
  { c with
    classes := c.classes ++ p.class?.toList
    ids := c.ids ++ p.id?.toList
    pseudos := c.pseudos ++ p.pseudo?.toList
    attributes := c.attributes ++ p.attribute?.toList }

end Part

/-- What a selector says of one element: its tag, parts, or both. -/
structure Element where
  tag : Option Tag
  parts : List Part
  filled : (tag.isSome || !parts.isEmpty) = true

namespace Element

def chars (e : Element) : List Char := leading e.tag ++ e.parts.flatMap Part.chars

def isSound (e : Element) : Bool := e.parts.all Part.isSound

def subject (e : Element) : Compound where
  tag := e.tag.map Tag.value
  classes := e.parts.filterMap Part.class?
  ids := e.parts.filterMap Part.id?
  pseudos := e.parts.filterMap Part.pseudo?
  attributes := e.parts.filterMap Part.attribute?

end Element

/-- Spaces, or a mark with spaces around it. -/
inductive Combinator where
  | descendant (more : Nat)
  | joined (before : Nat) (mark : Mark) (after : Nat)

def Combinator.chars : Combinator → List Char
  | descendant more => ' ' :: List.replicate more ' '
  | joined before m after => List.replicate before ' ' ++ m.char :: List.replicate after ' '

/-- Elements that combinators join. -/
inductive Chain where
  | last (e : Element)
  | next (e : Element) (combinator : Combinator) (rest : Chain)

namespace Chain

def chars : Chain → List Char
  | last e => e.chars
  | next e k rest => e.chars ++ (k.chars ++ rest.chars)

def text (c : Chain) : String := String.ofList c.chars

def length : Chain → Nat
  | last _ => 1
  | next _ _ rest => rest.length + 1

def lastElement : Chain → Element
  | last e => e
  | next _ _ rest => rest.lastElement

def isSound : Chain → Bool
  | last e => e.isSound
  | next e _ rest => e.isSound && rest.isSound

end Chain

end Grammar

namespace Selector

open Grammar

/-- The components are read as one part, behind whatever was read before. -/
def Adds (cs : List ComponentValue) (f : Compound → Compound) : Prop :=
  ∀ (r : Reading) (more : List ComponentValue), r.passed = [] → r.run (cs ++ more) = (r.add f).run more

theorem add_eq (r : Reading) (f : Compound → Compound) :
    r.add f =
      ⟨f (if r.afterCombinator then {} else r.subject), r.hasAncestors || r.afterCombinator, false, []⟩ := by
  unfold Reading.add Reading.enter
  cases h : r.afterCombinator <;> simp [h]

theorem pass_add (r : Reading) (f : Compound → Compound) : (r.add f).pass [] = r.add f := by
  rw [add_eq]
  rfl

theorem skipComments_cons {x : ComponentValue} (solid : x.isToken .comment = false) (more : List ComponentValue) :
    skipComments (x :: more) = ([], x :: more) := by
  simp [skipComments, solid]

theorem adds_class (n : Name) :
    Adds (Simple.ofClass n).components fun c => { c with classes := c.classes ++ [n.text] } := by
  intro r more _
  have skipped := skipComments_cons (x := .token n.ident) rfl more
  simp only [Simple.components, List.cons_append, List.nil_append]
  rw [Reading.run, if_neg (by decide), if_neg (by decide), if_pos (by decide)]
  split
  · rename_i none
    rw [skipped] at none
    cases none
  · rename_i found
    rw [skipped] at found
    cases found
    rfl
  · rename_i other found
    rw [skipped] at found
    cases found
    exact absurd rfl (other _ _)

theorem adds_id (n : Name) :
    Adds (Simple.ofId n).components fun c => { c with ids := c.ids ++ [n.text] } := by
  intro r more _
  simp only [Simple.components, List.cons_append, List.nil_append]
  rw [Reading.run]

theorem adds_attribute (n : Name) (v : Option Name) :
    Adds (Simple.ofAttribute n v).components fun c =>
      { c with attributes := c.attributes ++ [String.ofList (Simple.ofAttribute n v).chars] } := by
  intro r more none
  simp only [Simple.components, List.cons_append, List.nil_append]
  rw [Reading.run, none]
  cases v <;> simp [Simple.chars, valueComponents, Name.ident]

theorem adds_pseudo (cs : List ComponentValue) {source : List Char}
    (h : ∀ more, pseudo (cs ++ more) = (source, [], more)) :
    Adds (colon :: cs) fun c => { c with pseudos := c.pseudos ++ [String.ofList (':' :: source)] } := by
  intro r more none
  simp only [colon, List.cons_append]
  rw [Reading.run, h more, none, pass_add]
  rfl

theorem pseudo_cons {x : ComponentValue} (solid : x.isToken .comment = false) (more : List ComponentValue) :
    pseudo (x :: more) =
      if x.isToken .colon then (x.source ++ (pseudo more).1, (pseudo more).2)
      else if isFunction x then (x.source, [], more)
      else (openingSource x, afterOpening x, more) := by
  have skipped := skipComments_cons solid more
  conv => lhs; rw [pseudo]
  split
  · rename_i none
    rw [skipped] at none
    cases none
  · rename_i found
    rw [skipped] at found ⊢
    cases found
    rfl

/-- A name, an address or a function ends a pseudo. -/
theorem pseudo_last {x : ComponentValue} (solid : x.isToken .comment = false) (single : x.isToken .colon = false)
    (whole : isFunction x = true ∨ ∃ t, x = .token t) (more : List ComponentValue) :
    pseudo (x :: more) = (x.source, [], more) := by
  rw [pseudo_cons solid, single, if_neg Bool.false_ne_true]
  rcases whole with function | ⟨t, rfl⟩
  · rw [if_pos function]
  · simp [isFunction, openingSource, afterOpening]

theorem Adds.congr {cs : List ComponentValue} {f g : Compound → Compound} (h : Adds cs f) (same : ∀ c, g c = f c) :
    Adds cs g := by
  rwa [funext same]

theorem adds_simple (p : Simple) : Adds p.components (Part.simple p).onto := by
  have named (n : Name) (more : List ComponentValue) : pseudo (.token n.ident :: more) = (n.chars, [], more) := by
    rw [pseudo_last rfl rfl (.inr ⟨_, rfl⟩), source_token]
    rfl
  have twice (n : Name) (more : List ComponentValue) :
      pseudo (colon :: .token n.ident :: more) = (':' :: n.chars, [], more) := by
    rw [pseudo_cons rfl, named]
    rfl
  cases p with
  | ofClass n => exact (adds_class n).congr fun c => by simp [Part.onto]
  | ofId n => exact (adds_id n).congr fun c => by simp [Part.onto]
  | ofAttribute n v => exact (adds_attribute n v).congr fun c => by simp [Part.onto, Part.text, Part.chars]
  | pseudoClass n =>
    exact (adds_pseudo [.token n.ident] (named n)).congr fun c => by
      simp [Part.onto, Part.text, Part.chars, Simple.chars]
  | pseudoElement n =>
    exact (adds_pseudo [colon, .token n.ident] (twice n)).congr fun c => by
      simp [Part.onto, Part.text, Part.chars, Simple.chars]

/-- A function is read whole, and nothing inside of it counts. -/
theorem adds_call {n : Name} {tag : Option Tag} {args : Arguments} {x : ComponentValue} (call : IsCall x)
    (text : ':' :: x.source = (Part.call n tag args).chars) : Adds [colon, x] (Part.call n tag args).onto := by
  have ended (more : List ComponentValue) : pseudo (x :: more) = (x.source, [], more) := by
    rcases call with function | ⟨source, rfl⟩
    · cases x with
      | token t => cases function
      | block b t cs c => exact pseudo_last rfl rfl (.inl function) more
    · exact pseudo_last rfl rfl (.inr ⟨_, rfl⟩) more
  exact (adds_pseudo [x] ended).congr fun c => by simp [Part.onto, Part.text, ← text]

theorem adds_tag (t : Tag) : Adds [t.component] fun c => { c with tag := some t.value } := by
  intro r more _
  cases t with
  | any =>
    simp only [Tag.component, List.singleton_append]
    rw [Reading.run, if_neg (by decide), if_pos (by decide)]
    rfl
  | named n =>
    simp only [Tag.component, Name.ident, List.singleton_append]
    rw [Reading.run]
    rfl

theorem Adds.append {cs ds : List ComponentValue} {f g : Compound → Compound} (first : Adds cs f)
    (last : Adds ds g) : Adds (cs ++ ds) (g ∘ f) := by
  intro r more none
  have added : (r.add f).add g = r.add (g ∘ f) := by
    rw [add_eq, add_eq, add_eq]
    simp
  rw [List.append_assoc, first r _ none, last _ _ (by rw [add_eq]), added]

section Elements

variable {s : List Char}

theorem read_part {p : Part} (sound : p.isSound = true) (ends : AtBorder s) (chars : IsSelectorText s) :
    ∃ cs, Covers (p.chars ++ s) s cs ∧ Adds cs p.onto := by
  cases p with
  | simple p => exact ⟨_, covers_simple p ends, adds_simple p⟩
  | call n tag args =>
    simp only [Part.isSound, Bool.and_eq_true] at sound
    obtain ⟨cs, inside⟩ := covers_arguments (b := []) sound.2 (by simp) chars
    obtain ⟨x, call, covers⟩ := covers_tagged tag sound.1 inside chars
    have text := covers.source
    rw [sourceAll_cons, sourceAll_cons, sourceAll_nil, List.append_nil] at text
    exact ⟨_, covers, adds_call call text⟩

theorem starts_part (p : Part) (s : List Char) :
    AtBorder (p.chars ++ s) ∧ Follows (p.chars ++ s) ∧ SolidHead (p.chars ++ s) := by
  cases p with
  | simple p => exact starts_simple p s
  | call n tag args => exact starts_call n _ s

theorem ends_parts (parts : List Part) (ends : AtBorder s) : AtBorder (parts.flatMap Part.chars ++ s) := by
  cases parts with
  | nil => exact ends
  | cons p parts =>
    rw [List.flatMap_cons, List.append_assoc]
    exact (starts_part p _).1

theorem chars_part (p : Part) : IsSelectorText p.chars := by
  cases p with
  | simple p => exact (chars_simple p).1
  | call n tag args => exact chars_call ((chars_leading tag).1.append (chars_arguments args))

theorem chars_parts (parts : List Part) : IsSelectorText (parts.flatMap Part.chars) := by
  induction parts with
  | nil => exact isSelectorText_nil
  | cons p parts ih => exact (chars_part p).append ih

/-- What some parts say together. -/
theorem foldl_onto (parts : List Part) (c : Compound) :
    parts.foldl (fun c p => p.onto c) c =
      { c with
        classes := c.classes ++ parts.filterMap Part.class?
        ids := c.ids ++ parts.filterMap Part.id?
        pseudos := c.pseudos ++ parts.filterMap Part.pseudo?
        attributes := c.attributes ++ parts.filterMap Part.attribute? } := by
  have listed (f : Part → Option String) (p : Part) (parts : List Part) :
      (f p).toList ++ parts.filterMap f = (p :: parts).filterMap f := by
    cases h : f p <;> simp [h]
  induction parts generalizing c with
  | nil => simp
  | cons p parts ih =>
    rw [List.foldl_cons, ih, Part.onto]
    simp only [List.append_assoc, listed]

theorem read_parts (first : Part) (later : List Part) (sound : (first :: later).all Part.isSound = true)
    (ends : AtBorder s) (chars : IsSelectorText s) :
    ∃ cs, Covers ((first :: later).flatMap Part.chars ++ s) s cs ∧
      Adds cs fun c => (first :: later).foldl (fun c p => p.onto c) c := by
  induction later generalizing first with
  | nil =>
    rw [List.flatMap_singleton]
    exact read_part (by simpa using sound) ends chars
  | cons second later ih =>
    rw [List.all_cons, Bool.and_eq_true] at sound
    obtain ⟨cs, covers, adds⟩ := read_part sound.1 (ends_parts (second :: later) ends)
      ((chars_parts (second :: later)).append chars)
    obtain ⟨ds, covers', adds'⟩ := ih second sound.2
    rw [List.flatMap_cons, List.append_assoc]
    exact ⟨_, covers.append covers', adds.append adds'⟩

/-- The parts of an element make its compound. -/
theorem read_element (e : Element) (sound : e.isSound = true) (ends : AtBorder s) (chars : IsSelectorText s) :
    ∃ cs f, Covers (e.chars ++ s) s cs ∧ Adds cs f ∧ f {} = e.subject := by
  obtain ⟨tag, parts, filled⟩ := e
  cases parts with
  | nil =>
    cases tag with
    | none => cases filled
    | some t =>
      refine ⟨_, _, ?_, adds_tag t, rfl⟩
      simpa [Element.chars, leading] using covers_tag t ends
  | cons first later =>
    obtain ⟨cs, covers, adds⟩ := read_parts first later sound ends chars
    cases tag with
    | none =>
      refine ⟨_, _, covers, adds, ?_⟩
      rw [foldl_onto]
      rfl
    | some t =>
      have tagged := (covers_tag t (ends_parts (first :: later) ends)).append covers
      refine ⟨_, _, ?_, (adds_tag t).append adds, ?_⟩
      · simpa [Element.chars, leading] using tagged
      · rw [Function.comp_apply, foldl_onto]
        rfl

theorem subject_filled (e : Element) : e.subject.isEmpty = false := by
  obtain ⟨tag, parts, filled⟩ := e
  cases tag with
  | some t => rfl
  | none =>
    cases parts with
    | nil => cases filled
    | cons p parts => rcases p with (n | n | ⟨n, v⟩ | n | n) | _ <;> simp [Element.subject, Compound.isEmpty]

theorem starts_element (e : Element) (s : List Char) : Follows (e.chars ++ s) ∧ SolidHead (e.chars ++ s) := by
  obtain ⟨tag, parts, filled⟩ := e
  cases tag with
  | some t =>
    rw [Element.chars, List.append_assoc]
    exact ⟨follows_tag t, solid_tag t⟩
  | none =>
    cases parts with
    | nil => cases filled
    | cons p parts =>
      rw [Element.chars, List.flatMap_cons, leading, Option.map_none, Option.getD_none, List.nil_append,
        List.append_assoc]
      exact (starts_part p _).2

end Elements

section Combinators

variable {s : List Char}

theorem run_gap {b : List Char} {r : Reading} (passed : r.passed = []) (more : List ComponentValue) :
    ∃ after, r.run (Covers.gap b ++ more) = { r with afterCombinator := r.afterCombinator || after }.run more := by
  cases b with
  | nil => exact ⟨false, by simp [Covers.gap]⟩
  | cons c b =>
    refine ⟨!r.subject.isEmpty, ?_⟩
    rw [Covers.gap, List.singleton_append, Reading.run, ← passed]

theorem starts_combinator (k : Combinator) (s : List Char) : AtBorder (k.chars ++ s) := by
  rcases k with more | ⟨_ | before, m, after⟩
  · simp [AtBorder, isBorder, Combinator.chars]
  · cases m <;> simp [AtBorder, isBorder, Combinator.chars, Mark.char]
  · simp [AtBorder, isBorder, Combinator.chars, List.replicate_succ]

/-- Behind an element a combinator is just noted. -/
theorem read_combinator (k : Combinator) (follows : Follows s) (solid : SolidHead s) :
    ∃ cs, Covers (k.chars ++ s) s cs ∧ ∀ (c : Compound) (ancestors : Bool) (more : List ComponentValue),
      c.isEmpty = false →
        Reading.run ⟨c, ancestors, false, []⟩ (cs ++ more) = Reading.run ⟨c, ancestors, true, []⟩ more := by
  have blank (n : Nat) : ∀ c ∈ List.replicate n ' ', c = ' ' := fun c member => List.eq_of_mem_replicate member
  cases k with
  | descendant more =>
    refine ⟨_, Covers.spaces (blank (more + 1)) solid, fun c ancestors more filled => ?_⟩
    rw [Combinator.chars, Covers.gap, List.singleton_append, Reading.run, filled]
    rfl
  | joined before m after =>
    have behind : Follows (List.replicate after ' ' ++ s) := by
      cases after with
      | zero => exact follows
      | succ n => simp [Follows, List.replicate_succ, Token.startsNumber, Token.startsDigit, Token.isDigit]
    have front : SolidHead (m.char :: (List.replicate after ' ' ++ s)) := by
      cases m <;> simp [SolidHead, Mark.char, isAsciiBlank]
    have covers := (Covers.spaces (blank before) front).append
      ((Covers.token (scan_mark m behind) rfl rfl).append (Covers.spaces (blank after) solid))
    refine ⟨_, by simpa [Combinator.chars] using covers, fun c ancestors more filled => ?_⟩
    obtain ⟨noted, first⟩ := run_gap (b := List.replicate before ' ') (r := ⟨c, ancestors, false, []⟩) rfl
      (.token ⟨.delim m.char, [m.char]⟩ :: (Covers.gap (List.replicate after ' ') ++ more))
    obtain ⟨noted', last⟩ := run_gap (b := List.replicate after ' ') (r := ⟨c, ancestors, true, []⟩) rfl more
    have mark : isCombinator m.char = true := by cases m <;> rfl
    rw [List.append_assoc, List.cons_append, first, Reading.run, if_pos mark, last]
    rfl

theorem chars_element (e : Element) : IsSelectorText e.chars :=
  (chars_leading e.tag).1.append (chars_parts e.parts)

theorem chars_combinator (k : Combinator) : IsSelectorText k.chars := by
  have spaces (n : Nat) : IsSelectorText (List.replicate n ' ') := by
    intro c member
    rw [List.eq_of_mem_replicate member]
    rfl
  cases k with
  | descendant more => exact spaces (more + 1)
  | joined before m after =>
    exact (spaces before).append (isSelectorText_cons.mpr ⟨by cases m <;> rfl, spaces after⟩)

theorem chars_chain (c : Chain) : IsSelectorText c.chars := by
  induction c with
  | last e => exact chars_element e
  | next e k rest ih => exact (chars_element e).append ((chars_combinator k).append ih)

theorem starts_chain (c : Chain) : Follows c.chars ∧ SolidHead c.chars := by
  cases c with
  | last e => simpa [Chain.chars] using starts_element e []
  | next e k rest => exact starts_element e _

/-- Where no compound is begun, or a combinator has been met, a chain leaves the compound of its last element. -/
theorem read_chain (c : Chain) (sound : c.isSound = true) :
    ∃ cs, Covers c.chars [] cs ∧ ∀ r : Reading, r.passed = [] → (r.afterCombinator = true ∨ r.subject = {}) →
      r.run cs =
        ⟨c.lastElement.subject, r.hasAncestors || r.afterCombinator || decide (1 < c.length), false, []⟩ := by
  have fresh {r : Reading} {f : Compound → Compound} {e : Element} (subject : f {} = e.subject)
      (begins : r.afterCombinator = true ∨ r.subject = {}) :
      r.add f = ⟨e.subject, r.hasAncestors || r.afterCombinator, false, []⟩ := by
    rw [add_eq, ← subject]
    rcases begins with after | empty
    · simp [after]
    · simp [empty]
  induction c with
  | last e =>
    obtain ⟨cs, f, covers, adds, subject⟩ := read_element (s := []) e sound (by simp [AtBorder]) isSelectorText_nil
    rw [List.append_nil] at covers
    refine ⟨cs, covers, fun r passed begins => ?_⟩
    have run := adds r [] passed
    rw [List.append_nil, fresh subject begins, Reading.run] at run
    rw [run]
    simp [Chain.lastElement, Chain.length]
  | next e k rest ih =>
    simp only [Chain.isSound, Bool.and_eq_true] at sound
    obtain ⟨cs, f, covers, adds, subject⟩ := read_element (s := k.chars ++ rest.chars) e sound.1
      (starts_combinator k _) ((chars_combinator k).append (chars_chain rest))
    obtain ⟨ks, covers', noted⟩ := read_combinator k (starts_chain rest).1 (starts_chain rest).2
    obtain ⟨ds, covers'', run⟩ := ih sound.2
    refine ⟨cs ++ (ks ++ ds), covers.append (covers'.append covers''), fun r passed begins => ?_⟩
    rw [adds r _ passed, fresh subject begins, noted _ _ _ (subject_filled e), run _ rfl (.inl rfl)]
    have more : 1 < (Chain.next e k rest).length := by
      cases rest <;> simp [Chain.length]
    simp [Chain.lastElement, more]

end Combinators

/-- The subject of a selector is the compound of its last element, and it has ancestors exactly if there is
another element. -/
theorem parse_chain (c : Chain) (sound : c.isSound = true) :
    (parse c.text).subject = c.lastElement.subject ∧ ((parse c.text).hasAncestors = true ↔ 1 < c.length) := by
  obtain ⟨cs, covers, run⟩ := read_chain c sound
  have read := run {} rfl (.inr rfl)
  rw [parse, Chain.text, String.toList_ofList, covers.scan_eq, read]
  simp

/-- A list item with a class, a function with a list of arguments, an attribute and a pseudo-element. -/
def listItem : Chain :=
  .next ⟨some (.named ⟨'u', ['l'], rfl, rfl⟩), [], rfl⟩ (.descendant 1)
    (.next ⟨none, [.simple (.ofId ⟨'m', ['-', '1'], rfl, rfl⟩)], rfl⟩ (.joined 0 .child 1)
      (.last ⟨some (.named ⟨'L', ['I'], rfl, rfl⟩),
        [.simple (.ofClass ⟨'a', [], rfl, rfl⟩),
          .call ⟨'n', ['o', 't'], rfl, rfl⟩ none (.simple (.ofClass ⟨'x', [], rfl, rfl⟩)
            (.separator .comma none (.separator .space (some .any)
              (.call ⟨'u', ['r', 'l'], rfl, rfl⟩ none (.simple (.ofId ⟨'y', [], rfl, rfl⟩) .done) .done)))),
          .simple (.ofAttribute ⟨'t', [], rfl, rfl⟩ (some ⟨'v', [], rfl, rfl⟩)),
          .simple (.pseudoElement ⟨'b', [], rfl, rfl⟩)], rfl⟩))

/-- The item is taken apart; of the list and the name before it, only that they are there is known. -/
theorem parse_listItem :
    listItem.text = "ul  #m-1> LI.a:not(.x, *:url(#y))[t=v]::b" ∧ listItem.isSound = true ∧
      (parse listItem.text).subject =
        { tag := some "li", classes := ["a"], pseudos := [":not(.x, *:url(#y))", "::b"],
          attributes := ["[t=v]"] } ∧
      (parse listItem.text).hasAncestors = true := by
  obtain ⟨subject, ancestors⟩ := parse_chain listItem (by decide)
  exact ⟨by decide, by decide, subject.trans (by decide), ancestors.mpr (by decide)⟩

/-- An element with a function that is read as an address and has another function among its arguments. -/
def addressed : Chain :=
  .last ⟨some (.named ⟨'a', [], rfl, rfl⟩),
    [.call ⟨'u', ['r', 'l'], rfl, rfl⟩ none
      (.call ⟨'n', ['o', 't'], rfl, rfl⟩ (some (.named ⟨'b', [], rfl, rfl⟩)) .done
        (.simple (.ofClass ⟨'c', [], rfl, rfl⟩) .done))], rfl⟩

/-- The address ends with the inner function, and a class of the arguments counts as one of the element. -/
theorem parse_addressed :
    addressed.text = "a:url(:not(b).c)" ∧ addressed.lastElement.subject =
        { tag := some "a", pseudos := [":url(:not(b).c)"] } ∧
      (parse addressed.text).subject = { tag := some "a", classes := ["c"], pseudos := [":url(:not(b)"] } := by
  decide +kernel

end Selector

end Stencil.Style
