import Stencil.Attribute.Defaults
import Stencil.LogicLess.Spelling
import Stencil.Proofs.Page
import Stencil.Proofs.Words

/-! Mustache pages, read back. A tag stands between double braces: a section, an inverted section, the
end of either under its name, or a value. What the spelling of conditional text shows is stated piece
by piece; the alternatives of several keys, nested in inverted sections, show their text once. -/
namespace Stencil.LogicLess.Mustache

open Page

/-- The mark of a tag whose name is an identifier. -/
def tagOf (name : List Char) (mark : String → Mark) : Option Mark :=
  if Default.isIdentifier (String.ofList name) then some (mark (String.ofList name)) else none

/-- What stands between the braces of a tag. -/
def tag? : List Char → Option Mark
  | '#' :: name => tagOf name fun key => .enter key (.anySet [key])
  | '^' :: name => tagOf name fun key => .enter key (.unset key)
  | '/' :: name => tagOf name .leave
  | name => tagOf name .value

def read : List Char → Option (List Mark)
  | [] => some []
  | '{' :: '{' :: rest =>
    match _h : Text.Chars.splitOnce? ['}', '}'] rest with
    | none => none
    | some (inside, rest) => (tag? inside).bind fun mark => (read rest).map (mark :: ·)
  | c :: rest => (read rest).map (.char c :: ·)
termination_by s => s.length
decreasing_by
  · have shorter := Text.Chars.splitOnce?_length_le _h
    simp only [List.length_cons]
    omega
  · simp

theorem reads_char {c : Char} (plain : c ≠ '{') : Reads read [c] [.char c] := by
  intro rest
  rw [List.singleton_append, read.eq_def]
  simp [plain]

theorem reads_tag {inside : List Char} {mark : Mark} (closed : '}' ∉ inside)
    (known : tag? inside = some mark) :
    Reads read (['{', '{'] ++ inside ++ ['}', '}']) [mark] := by
  intro rest
  have found := Text.Chars.splitOnce?_append '}' ['}'] inside rest closed
  simp only [List.cons_append, List.nil_append, List.append_assoc] at found ⊢
  rw [read]
  split
  · rename_i missing
    rw [found] at missing
    cases missing
  · rename_i split
    rw [found] at split
    cases split
    simp [known]

variable {key body : String} {keys : List String} {values : Entries String} {out : List Char}

theorem closing_not_mem (named : Default.isIdentifier key = true) : '}' ∉ key.toList := by
  intro member
  exact absurd (identifier_char named member) (by decide)

theorem reads_openSection (named : Default.isIdentifier key = true) :
    Reads read (openSection key).toList [.enter key (.anySet [key])] := by
  have known : tag? ('#' :: key.toList) = some (.enter key (.anySet [key])) := by
    simp [tag?, tagOf, named]
  have reads := reads_tag (by simpa using closing_not_mem named) known
  simpa [openSection] using reads

theorem reads_openInverted (named : Default.isIdentifier key = true) :
    Reads read (openInverted key).toList [.enter key (.unset key)] := by
  have known : tag? ('^' :: key.toList) = some (.enter key (.unset key)) := by
    simp [tag?, tagOf, named]
  have reads := reads_tag (by simpa using closing_not_mem named) known
  simpa [openInverted] using reads

theorem reads_closeSection (named : Default.isIdentifier key = true) :
    Reads read (closeSection key).toList [.leave key] := by
  have known : tag? ('/' :: key.toList) = some (.leave key) := by
    simp [tag?, tagOf, named]
  have reads := reads_tag (by simpa using closing_not_mem named) known
  simpa [closeSection] using reads

/-- No identifier starts like the name of a section. -/
theorem tag?_identifier (named : Default.isIdentifier key = true) :
    tag? key.toList = some (.value key) := by
  have whole : tagOf key.toList .value = some (.value key) := by simp [tagOf, named]
  have first := fun c => identifier_char (c := c) named
  rw [← whole]
  generalize key.toList = name at first
  unfold tag?
  split
  · exact absurd (first '#' (List.mem_cons_self ..)) (by decide)
  · exact absurd (first '^' (List.mem_cons_self ..)) (by decide)
  · exact absurd (first '/' (List.mem_cons_self ..)) (by decide)
  · rfl

theorem shows_value (named : Default.isIdentifier key = true) :
    Shows read values (value key).toList ((values.get? key).getD "").toList := by
  have reads := reads_tag (closing_not_mem named) (tag?_identifier named)
  exact ⟨[.value key], by simpa [value] using reads, yields_value key⟩

theorem shows_section (named : Default.isIdentifier key = true) (inner : Shows read values body.toList out) :
    Shows read values (openSection key ++ body ++ closeSection key).toList
      (if isSet values key then out else []) := by
  have shows := shows_block (reads_openSection named) inner (reads_closeSection named)
  simpa [Test.holds] using shows

/-- Whichever of the keys are set, the body is shown once. -/
theorem shows_whenAny (named : ∀ key ∈ keys, Default.isIdentifier key = true) (nonempty : keys ≠ [])
    (inner : Shows read values body.toList out) :
    Shows read values (whenAny body keys).toList (if keys.any (isSet values) then out else []) := by
  induction keys with
  | nil => exact absurd rfl nonempty
  | cons key rest ih =>
    have here := named key (List.mem_cons_self ..)
    cases rest with
    | nil => simpa [whenAny] using shows_section here inner
    | cons second others =>
      have later := ih (fun other member => named other (List.mem_cons_of_mem key member)) (by simp)
      have inverted := shows_block (reads_openInverted here) later (reads_closeSection here)
      have shows := shows_append (shows_section here inner) inverted
      have once : (if isSet values key then out else []) ++
          (if (Test.unset key).holds values then
            (if (second :: others).any (isSet values) then out else []) else []) =
          if (key :: second :: others).any (isSet values) then out else [] := by
        cases set : isSet values key <;> simp [Test.holds, set]
      rw [once] at shows
      simpa [whenAny, List.append_assoc] using shows

end Stencil.LogicLess.Mustache
