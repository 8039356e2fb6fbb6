import Mathlib.Data.List.Forall2
import Mathlib.Data.List.Infix
import Stencil.Attribute.Marker
import Stencil.Proofs.RegistryGrowth

/-! Markers as a scan finds them. A marker runs from the first opening that is closed to its first closing,
and what stands between the braces says its key and its options. A value is refused for its first marker
without a key or with an empty option, and for nothing else. -/
namespace Stencil

namespace Text.Chars

/-- No occurrence of `part` in the text starts within `passed`. -/
def Clear (part passed rest : List Char) : Prop :=
  ∀ before after, passed ++ rest = before ++ part ++ after → passed.length ≤ before.length

theorem clear_iff {part passed rest : List Char} :
    Clear part passed rest ↔ ∀ tail, tail ≠ [] → tail <:+ passed → after? part (tail ++ rest) = none := by
  constructor
  · rintro clear tail nonempty ⟨front, rfl⟩
    refine after?_eq_none_iff.mpr ?_
    rintro ⟨after, found⟩
    have bound := clear front after (by rw [List.append_assoc, ← found, List.append_assoc])
    have length := List.length_pos_iff.mpr nonempty
    rw [List.length_append] at bound
    omega
  · intro none before after found
    by_contra short
    obtain ⟨tail, rfl, rest'⟩ : ∃ tail, passed = before ++ tail ∧ tail ++ rest = part ++ after := by
      rw [List.append_assoc] at found
      rcases List.append_eq_append_iff.mp found with ⟨middle, rfl, -⟩ | ⟨middle, rfl, rest'⟩
      · simp at short
      · exact ⟨middle, rfl, rest'.symm⟩
    have nonempty : tail ≠ [] := by
      rintro rfl
      simp at short
    exact after?_eq_none_iff.mp (none tail nonempty (List.suffix_append ..)) ⟨after, rest'.symm⟩

theorem Clear.append {part front tail rest : List Char} (clear : Clear part (front ++ tail) rest) :
    Clear part front (tail ++ rest) ∧ Clear part tail rest := by
  constructor
  · intro before after found
    have bound := clear before after (by rw [List.append_assoc, found])
    rw [List.length_append] at bound
    omega
  · intro before after found
    have bound := clear (front ++ before) after (by simp [found])
    simp only [List.length_append] at bound
    omega

theorem Clear.not_mem {c : Char} {passed rest : List Char} (clear : Clear [c] passed rest) : c ∉ passed := by
  intro member
  obtain ⟨before, after, rfl⟩ := List.append_of_mem member
  have bound := clear before (after ++ rest) (by simp)
  rw [List.length_append, List.length_cons] at bound
  omega

theorem Clear.not_isInfix {part passed rest : List Char} (clear : Clear part passed rest)
    (nonempty : part ≠ []) : ¬part <:+: passed := by
  rintro ⟨before, after, rfl⟩
  have bound := clear before (after ++ rest) (by simp)
  have length := List.length_pos_iff.mpr nonempty
  simp only [List.length_append] at bound
  omega

theorem clear_nil_iff {part s : List Char} (nonempty : part ≠ []) : Clear part s [] ↔ ¬part <:+: s := by
  constructor
  · exact fun clear => clear.not_isInfix nonempty
  · intro apart before after found
    rw [List.append_nil] at found
    exact absurd ⟨before, after, found.symm⟩ apart

/-- The split is at the first occurrence. -/
theorem splitOnce?_some {sep s before rest : List Char} (found : splitOnce? sep s = some (before, rest)) :
    s = before ++ sep ++ rest ∧ Clear sep before (sep ++ rest) := by
  refine ⟨eq_of_splitOnce? found, clear_iff.mpr ?_⟩
  have whole := eq_of_splitOnce? found
  induction s generalizing before with
  | nil =>
    obtain ⟨rfl, -⟩ : before = [] ∧ sep ++ rest = [] := by simpa using whole
    intro tail nonempty inside
    exact absurd (List.suffix_nil.mp inside) nonempty
  | cons c s ih =>
    unfold splitOnce? at found
    cases here : after? sep (c :: s) with
    | some rest' =>
      rw [here] at found
      cases found
      intro tail nonempty inside
      exact absurd (List.suffix_nil.mp inside) nonempty
    | none =>
      rw [here] at found
      obtain ⟨⟨before', rest'⟩, later, same⟩ := Option.map_eq_some_iff.mp found
      cases same
      have split := eq_of_splitOnce? later
      intro tail nonempty inside
      rcases List.suffix_cons_iff.mp inside with rfl | inner
      · rw [whole, List.append_assoc] at here
        exact here
      · exact ih later split tail nonempty inner

theorem splitOnce?_none {sep s : List Char} (missing : splitOnce? sep s = none) : ¬sep <:+: s := by
  induction s with
  | nil =>
    have empty : after? sep [] = none := by simpa [splitOnce?] using missing
    rw [List.infix_nil]
    rintro rfl
    cases empty
  | cons c s ih =>
    unfold splitOnce? at missing
    cases here : after? sep (c :: s) with
    | some rest =>
      rw [here] at missing
      cases missing
    | none =>
      rw [here] at missing
      rw [List.infix_cons_iff, not_or]
      exact ⟨after?_eq_none_iff.mp here, ih (Option.map_eq_none_iff.mp missing)⟩

/-- The pieces between the cuts, none of which has a cut inside. -/
theorem pieces_eq (cut : Char) (s : List Char) : ∃ first more, pieces (· == cut) s = first :: more ∧
    s = first ++ more.flatMap (cut :: ·) ∧ ∀ piece ∈ first :: more, cut ∉ piece := by
  induction s with
  | nil => exact ⟨[], [], rfl, rfl, by simp⟩
  | cons c s ih =>
    obtain ⟨first, more, parts, whole, free⟩ := ih
    by_cases here : c = cut
    · subst here
      refine ⟨[], first :: more, by simp [pieces, parts], by simp [whole], ?_⟩
      exact List.forall_mem_cons.mpr ⟨List.not_mem_nil, free⟩
    · refine ⟨c :: first, more, by simp [pieces, parts, here], by simp [whole], ?_⟩
      obtain ⟨own, others⟩ := List.forall_mem_cons.mp free
      refine List.forall_mem_cons.mpr ⟨?_, others⟩
      simpa [Ne.symm here] using own

end Text.Chars

open Text.Chars (Clear splitOnce? pieces)

namespace Marker

section Scan

/-- How a text falls into parts: what stands before the first marker, then for each marker what is between
its braces and what follows it. -/
inductive Scan : List Char → List Char → List (List Char × List Char) → Prop where
  | text {s} : (∀ before rest, s = before ++ opening ++ rest → ¬closing <:+: rest) → Scan s s []
  | marker {s before inside rest text parts} :
      s = before ++ opening ++ inside ++ closing ++ rest →
      (∀ front behind, s = front ++ opening ++ behind → closing <:+: behind →
        before.length ≤ front.length) →
      Clear closing inside (closing ++ rest) →
      Scan rest text parts → Scan s before ((inside, text) :: parts)

theorem Scan.whole {s start : List Char} {parts : List (List Char × List Char)}
    (scanned : Scan s start parts) :
    s = start ++ parts.flatMap fun p => opening ++ p.1 ++ closing ++ p.2 := by
  induction scanned with
  | text _ => simp
  | @marker _ before inside rest text parts whole _ _ _ ih =>
    rw [whole, List.flatMap_cons]
    nth_rewrite 1 [ih]
    simp

theorem Scan.unique {s start start' : List Char} {parts parts' : List (List Char × List Char)}
    (scanned : Scan s start parts) (again : Scan s start' parts') : start = start' ∧ parts = parts' := by
  induction scanned generalizing start' parts' with
  | @text s none =>
    cases again with
    | text _ => exact ⟨rfl, rfl⟩
    | @marker _ _ inside rest _ _ whole _ _ _ =>
      have open' : s = start' ++ opening ++ (inside ++ closing ++ rest) := by simp [whole]
      exact absurd ⟨inside, rest, rfl⟩ (none _ _ open')
  | @marker s before inside rest text parts whole first clear _ ih =>
    have open' : s = before ++ opening ++ (inside ++ closing ++ rest) := by simp [whole]
    cases again with
    | text none => exact absurd ⟨inside, rest, rfl⟩ (none _ _ open')
    | @marker _ _ inside' rest' text' parts' whole' first' clear' later' =>
      have open'' : s = start' ++ opening ++ (inside' ++ closing ++ rest') := by simp [whole']
      have fore : before.length = start'.length :=
        Nat.le_antisymm (first _ _ open'' ⟨inside', rest', rfl⟩) (first' _ _ open' ⟨inside, rest, rfl⟩)
      obtain ⟨front, behind⟩ := List.append_inj (open'.symm.trans open'') (by simp [fore])
      obtain ⟨rfl, -⟩ := List.append_inj front fore
      have middle : inside.length = inside'.length :=
        Nat.le_antisymm (clear inside' rest' (by rw [← List.append_assoc, behind]))
          (clear' inside rest (by rw [← List.append_assoc, behind]))
      obtain ⟨enclosed, rfl⟩ := List.append_inj behind (by simp [middle])
      obtain ⟨rfl, -⟩ := List.append_inj enclosed middle
      obtain ⟨rfl, rfl⟩ := ih later'
      exact ⟨rfl, rfl⟩

def layout (start : List Char) (parts : List (List Char × List Char)) : List Segment :=
  .text start :: parts.flatMap fun p => [.marker p.1, .text p.2]

/-- Whatever follows an opening that comes after the first is among what follows the first. -/
theorem suffix_of_opening {before rest front behind : List Char}
    (clear : Clear opening before (opening ++ rest))
    (found : before ++ opening ++ rest = front ++ opening ++ behind) : behind <:+ rest := by
  have bound := clear front behind (by rw [← List.append_assoc, found])
  have lengths := congrArg List.length found
  simp only [List.length_append] at lengths
  have last : behind <:+ before ++ opening ++ rest := found ▸ List.suffix_append ..
  exact List.suffix_of_suffix_length_le last (List.suffix_append ..) (by omega)

/-- The segments of a value are the parts that the scan finds. -/
theorem scan_segments (s : List Char) :
    ∃ start parts, segments s = layout start parts ∧ Scan s start parts := by
  fun_induction segments s with
  | case1 s missing =>
    refine ⟨s, [], rfl, .text ?_⟩
    rintro before rest rfl
    exact absurd ⟨before, rest, rfl⟩ (Text.Chars.splitOnce?_none missing)
  | case2 s before rest found missing =>
    obtain ⟨rfl, clear⟩ := Text.Chars.splitOnce?_some found
    refine ⟨_, [], rfl, .text fun front behind same closed => ?_⟩
    exact Text.Chars.splitOnce?_none missing (closed.trans (suffix_of_opening clear same).isInfix)
  | case3 s before rest found inside rest' closed ih =>
    obtain ⟨rfl, clear⟩ := Text.Chars.splitOnce?_some found
    obtain ⟨rfl, first⟩ := Text.Chars.splitOnce?_some closed
    obtain ⟨text, parts, same, scanned⟩ := ih
    refine ⟨before, (inside, text) :: parts, by rw [same]; rfl, .marker (by simp) ?_ first scanned⟩
    intro front behind same _
    exact clear front behind (by rw [← same]; simp)

end Scan

section Content

/-- The option that a piece offers: value and name around the first word `as`, or the piece for both. -/
def Offers (piece : List Char) (c : Choice) : Prop :=
  ¬" as ".toList <:+: piece ∧
      c = ⟨Text.trim (String.ofList piece), Text.trim (String.ofList piece)⟩ ∨
    ∃ value name, piece = value ++ " as ".toList ++ name ∧
      Clear " as ".toList value (" as ".toList ++ name) ∧
      c = ⟨Text.trim (String.ofList value), Text.trim (String.ofList name)⟩

/-- What the text between the braces says of a marker. `front` is the part before the first colon, and the
pieces between bars after it are the options. -/
structure Describes (inside front : List Char) (m : Marker) : Prop where
  source : m.source = String.ofList (opening ++ inside ++ closing)
  optional : m.optional = true ↔ '?' ∈ front
  key : m.key = Text.trim (String.ofList (front.erase '?'))
  options : ':' ∉ inside ∧ front = inside ∧ m.options = none ∨
    ':' ∉ front ∧ ∃ first more choices,
      inside = front ++ ':' :: (first ++ more.flatMap ('|' :: ·)) ∧
      (∀ piece ∈ first :: more, '|' ∉ piece) ∧ m.options = some choices ∧
      List.Forall₂ Offers (first :: more) choices

/-- Why a marker is refused: it has no key, or else an empty option. -/
def fault? (m : Marker) : Option MarkerError :=
  if m.key = "" then some (.blankKey m.source)
  else if ∃ c ∈ m.options.getD [], c.value = "" ∨ c.name = "" then some (.emptyOption m.source)
  else none

theorem offers_choice (piece : List Char) : Offers piece (choice piece) := by
  have parted : Text.splitOnce? " as " (String.ofList piece) =
      (splitOnce? " as ".toList piece).map fun p => (String.ofList p.1, String.ofList p.2) := by
    rw [Text.splitOnce?, String.toList_ofList (l := piece)]
  unfold choice
  rw [parted]
  cases found : splitOnce? " as ".toList piece with
  | none => exact .inl ⟨Text.Chars.splitOnce?_none found, rfl⟩
  | some parts =>
    obtain ⟨whole, clear⟩ := Text.Chars.splitOnce?_some found
    exact .inr ⟨parts.1, parts.2, whole, clear, rfl⟩

/-- The part before the colon, and the pieces of the part after it. -/
def fieldsOf (inside : List Char) : List Char × Option (List (List Char)) :=
  (splitOnce? [':'] inside).elim (inside, none) fun parts => (parts.1, some (pieces (· == '|') parts.2))

/-- The marker of a key segment and pieces, before it is judged. -/
def draft (source front : List Char) (options : Option (List (List Char))) : Marker where
  key := Text.trim (String.ofList (front.erase '?'))
  optional := front.contains '?'
  options := options.map (·.map choice)
  source := String.ofList source

/-- The marker, unless it is refused. -/
def judged (m : Marker) : Except MarkerError Marker := m.fault?.elim (.ok m) .error

def said (inside : List Char) : Marker :=
  draft (opening ++ inside ++ closing) (fieldsOf inside).1 (fieldsOf inside).2

theorem judged_eq (m : Marker) : m.judged =
    if m.key.isEmpty then .error (.blankKey m.source)
    else if (m.options.getD []).any fun c => c.value.isEmpty || c.name.isEmpty then
      .error (.emptyOption m.source)
    else .ok m := by
  have empty : (m.options.getD []).any (fun c => c.value.isEmpty || c.name.isEmpty) = true ↔
      ∃ c ∈ m.options.getD [], c.value = "" ∨ c.name = "" := by
    simp
  unfold judged fault?
  by_cases blank : m.key = ""
  · simp [blank]
  · by_cases none : ∃ c ∈ m.options.getD [], c.value = "" ∨ c.name = ""
    · rw [if_neg blank, if_pos none, if_neg (by simpa using blank), if_pos (empty.mpr none)]
      rfl
    · rw [if_neg blank, if_neg none, if_neg (by simpa using blank), if_neg fun any => none (empty.mp any)]
      rfl

theorem ofInside_eq (inside : List Char) : ofInside inside = (said inside).judged := by
  rw [judged_eq]
  unfold ofInside said fieldsOf
  cases splitOnce? [':'] inside <;> rfl

theorem describes_said (inside : List Char) : Describes inside (fieldsOf inside).1 (said inside) := by
  refine ⟨rfl, by simp [said, draft], rfl, ?_⟩
  unfold said fieldsOf
  cases found : splitOnce? [':'] inside with
  | none =>
    have free := Text.Chars.splitOnce?_none found
    rw [List.singleton_infix_iff] at free
    exact .inl ⟨free, rfl, rfl⟩
  | some parts =>
    obtain ⟨front, rest⟩ := parts
    obtain ⟨whole, clear⟩ := Text.Chars.splitOnce?_some found
    obtain ⟨first, more, split, joined, free⟩ := Text.Chars.pieces_eq '|' rest
    refine .inr ⟨clear.not_mem, first, more, (first :: more).map choice, ?_, free, ?_, ?_⟩
    · simp [whole, joined]
    · simp [draft, split]
    · exact List.forall₂_map_right_iff.mpr (List.forall₂_same.mpr fun piece _ => offers_choice piece)

theorem mapM_ofInside (insides : List (List Char)) :
    insides.mapM ofInside =
      ((insides.map said).findSome? fault?).elim (.ok (insides.map said)) .error := by
  induction insides with
  | nil => rfl
  | cons inside rest ih =>
    rw [List.mapM_cons, ih, ofInside_eq, List.map_cons, List.findSome?_cons, judged]
    cases (said inside).fault? with
    | some e => rfl
    | none => cases (rest.map said).findSome? fault? <;> rfl

def Segment.content : Segment → List Char
  | .text content => content
  | .marker _ => []

def Segment.inside? : Segment → Option (List Char)
  | .text _ => none
  | .marker inside => some inside

theorem content_layout (start : List Char) (parts : List (List Char × List Char)) :
    (layout start parts).flatMap Segment.content = start ++ parts.flatMap (·.2) := by
  simp [layout, List.flatMap_assoc, Segment.content]

theorem inside?_layout (start : List Char) (parts : List (List Char × List Char)) :
    (layout start parts).filterMap Segment.inside? = parts.map (·.1) := by
  rw [layout, List.filterMap_cons_none rfl]
  induction parts with
  | nil => rfl
  | cons p rest ih => rw [List.flatMap_cons, List.filterMap_append, ih, List.map_cons]; rfl

theorem parse_of_segments (raw : String) : parse raw =
    (((segments raw.toList).filterMap Segment.inside?).mapM ofInside).map fun markers =>
      (String.ofList (Text.Chars.trim ((segments raw.toList).flatMap Segment.content)), markers) :=
  rfl

/-- A value is read as the scan lays it out: its markers, unless one of them is refused, and the text
around them. -/
theorem parse_eq {raw : String} {start : List Char} {parts : List (List Char × List Char)}
    (split : segments raw.toList = layout start parts) :
    parse raw = (((parts.map (·.1)).map said).findSome? fault?).elim
      (.ok (String.ofList (Text.Chars.trim (start ++ parts.flatMap (·.2))), (parts.map (·.1)).map said))
      .error := by
  rw [parse_of_segments, split, content_layout, inside?_layout, mapM_ofInside]
  cases ((parts.map (·.1)).map said).findSome? fault? <;> rfl

/-- Every marker that is read has a key without blanks around it, and one option at least after a colon. -/
theorem of_mem_parse {raw text : String} {markers : List Marker} (read : parse raw = .ok (text, markers))
    {m : Marker} (member : m ∈ markers) : Text.trim m.key ≠ "" ∧ m.options ≠ some [] := by
  obtain ⟨start, parts, split, -⟩ := scan_segments raw.toList
  rw [parse_eq split] at read
  cases faults : ((parts.map (·.1)).map said).findSome? fault? with
  | some e =>
    rw [faults] at read
    cases read
  | none =>
    rw [faults] at read
    cases read
    obtain ⟨inside, -, rfl⟩ := List.mem_map.mp member
    have sound := List.findSome?_eq_none_iff.mp faults (said inside) member
    have content := describes_said inside
    constructor
    · have named : (said inside).key ≠ "" := by
        intro blank
        simp [fault?, blank] at sound
      rwa [content.key, Text.trim_trim, ← content.key]
    · rcases content.options with ⟨-, -, none⟩ | ⟨-, first, more, choices, -, -, some, offers⟩
      · simp [none]
      · cases offers
        simp [some]

/-- What is wrong with a value has nothing to do with a registry. -/
theorem parse_ne_unregistered (raw source : String) (reason : RegistryError) :
    parse raw ≠ .error (.unregistered source reason) := by
  intro failed
  obtain ⟨start, parts, split, -⟩ := scan_segments raw.toList
  rw [parse_eq split] at failed
  cases faults : ((parts.map (·.1)).map said).findSome? fault? with
  | none =>
    rw [faults] at failed
    cases failed
  | some e =>
    rw [faults] at failed
    cases failed
    obtain ⟨m, -, fault⟩ := List.exists_of_findSome?_eq_some faults
    unfold fault? at fault
    split_ifs at fault <;> cases fault

end Content

end Marker

end Stencil
