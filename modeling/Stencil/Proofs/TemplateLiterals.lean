import Stencil.Proofs.MarkupStrings
import Stencil.Proofs.ScriptReading

/-! Template literals with substitutions. Between the backticks of a literal stand text and substitutions,
and a substitution goes to the brace that closes it, past all braces, strings and literals inside of its
source. The text of an attribute is escaped so that it is read exactly, whatever follows it; what its
bindings add is then read as these substitutions, as long as each of them is one. -/
namespace Stencil

namespace Script

/-- What is open around a character in the source of a substitution. -/
inductive Enclosure where
  | braces
  | quotes (mark : Char)
  /-- The text of a template literal; whether a dollar sign stands in front. -/
  | template (dollar : Bool)
  | escape
  deriving DecidableEq, Repr

/-- What is open behind the next character. A brace that closes none inside of the source is not part of it.
Slashes, which may divide or start a comment or a regular expression, and backslashes are not read. -/
def enclose : List Enclosure → Char → Option (List Enclosure)
  | .escape :: outer, _ => some outer
  | .quotes mark :: outer, c =>
    if c = mark then some outer
    else if c = '\\' then some (.escape :: .quotes mark :: outer)
    else if c = '\n' ∨ c = '\r' then none
    else some (.quotes mark :: outer)
  | .template dollar :: outer, c =>
    if c = '\x60' then some outer
    else if c = '\\' then some (.escape :: .template false :: outer)
    else if c = '{' ∧ dollar = true then some (.braces :: .template false :: outer)
    else some (.template (c == '$') :: outer)
  | outer, c =>
    if c = '{' then some (.braces :: outer)
    else if c = '}' then outer.tail?
    else if c = '"' ∨ c = '\'' then some (.quotes c :: outer)
    else if c = '\x60' then some (.template false :: outer)
    else if c = '/' ∨ c = '\\' then none
    else some outer

/-- The source up to the brace that closes the substitution, and what stands behind that brace. -/
def source? (outer : List Enclosure) : List Char → Option (List Char × List Char)
  | [] => none
  | c :: s =>
    if c = '}' ∧ outer = [] then some ([], s)
    else (enclose outer c).bind fun outer => (source? outer s).map fun (front, rest) => (c :: front, rest)

/-- Exactly this is the source of a substitution: the brace behind it closes the one in front. -/
def IsSource (source : List Char) : Prop := source? [] (source ++ ['}']) = some (source, [])

/-- What stands between the backticks of a template literal. -/
structure Literal where
  /-- The characters in front of the first substitution. -/
  text : List Char
  /-- The sources of the substitutions, each with the characters behind it. -/
  substitutions : List (List Char × List Char)
  deriving DecidableEq, Repr

theorem source?_eq_some_iff {outer : List Enclosure} {s source rest : List Char} :
    source? outer s = some (source, rest) ↔
      s = source ++ '}' :: rest ∧ source.foldlM enclose outer = some [] := by
  constructor
  · intro read
    induction s generalizing outer source with
    | nil => cases read
    | cons c s ih =>
      unfold source? at read
      split at read
      · rename_i ends
        cases read
        exact ⟨by rw [ends.1]; rfl, by rw [ends.2]; rfl⟩
      · obtain ⟨inner, next, read⟩ := Option.bind_eq_some_iff.mp read
        obtain ⟨⟨front, behind⟩, later, same⟩ := Option.map_eq_some_iff.mp read
        cases same
        obtain ⟨rfl, closed⟩ := ih later
        exact ⟨rfl, by rw [List.foldlM_cons, next]; exact closed⟩
  · rintro ⟨rfl, closed⟩
    induction source generalizing outer with
    | nil =>
      cases closed
      rfl
    | cons c source ih =>
      rw [List.foldlM_cons] at closed
      obtain ⟨inner, next, closed⟩ := Option.bind_eq_some_iff.mp closed
      have inside : ¬(c = '}' ∧ outer = []) := by
        rintro ⟨rfl, rfl⟩
        cases next
      rw [List.cons_append, source?, if_neg inside, next, Option.bind_some, ih closed]
      rfl

theorem isSource_iff {source : List Char} : IsSource source ↔ source.foldlM enclose [] = some [] := by
  rw [IsSource, source?_eq_some_iff]
  simp

def inside? (s : List Char) : Option (Literal × List Char) :=
  match _text : chunk? s with
  | none => none
  | some chunk =>
    if chunk.opens then
      match _source : source? [] chunk.rest with
      | none => none
      | some (source, rest) => (inside? rest).map fun (later, rest) =>
        (⟨chunk.text, (source, later.text) :: later.substitutions⟩, rest)
    else some (⟨chunk.text, []⟩, chunk.rest)
termination_by s.length
decreasing_by
  have shorter := chunk?_length _text
  have whole := congrArg List.length (source?_eq_some_iff.mp _source).1
  simp only [List.length_append, List.length_cons] at whole
  omega

section Inside

variable {s text rest : List Char}

theorem inside?_closed (read : chunk? s = some ⟨text, false, rest⟩) : inside? s = some (⟨text, []⟩, rest) := by
  rw [inside?]
  split
  · rename_i none
    cases read.symm.trans none
  · rename_i chunk found
    cases read.symm.trans found
    rfl

theorem inside?_opened (read : chunk? s = some ⟨text, true, rest⟩) :
    inside? s = (source? [] rest).bind fun (source, rest) => (inside? rest).map fun (later, rest) =>
      (⟨text, (source, later.text) :: later.substitutions⟩, rest) := by
  rw [inside?]
  split
  · rename_i none
    cases read.symm.trans none
  · rename_i chunk found
    cases read.symm.trans found
    dsimp only
    rw [if_pos rfl]
    split <;> rename_i source <;> rw [source]
    · rfl
    · rfl

end Inside

section Sources

/-- Characters that neither open nor close anything in the source of a substitution. -/
def isInert (c : Char) : Bool := !(['{', '}', '"', '\'', '\x60', '/', '\\'].contains c)

variable {a b : List Char}

theorem IsSource.append (first : IsSource a) (second : IsSource b) : IsSource (a ++ b) := by
  rw [isSource_iff] at first second ⊢
  rw [List.foldlM_append, first]
  exact second

theorem isSource_of_inert (inert : a.all isInert = true) : IsSource a := by
  rw [isSource_iff]
  induction a with
  | nil => rfl
  | cons c a ih =>
    rw [List.all_cons, Bool.and_eq_true] at inert
    have stays : enclose [] c = some [] := by
      have other := inert.1
      simp only [isInert, List.contains_cons, Bool.not_eq_true', Bool.or_eq_false_iff,
        beq_eq_false_iff_ne] at other
      simp [enclose, other]
    rw [List.foldlM_cons, stays]
    exact ih inert.2

theorem foldlM_enclose_escape (c : Char) :
    (Json.escape c).foldlM enclose [.quotes '"'] = some [.quotes '"'] := by
  have controls : ∀ n < 32, (Json.escape (Char.ofNat n)).foldlM enclose [.quotes '"'] = some [.quotes '"'] := by
    decide
  by_cases control : c.toNat < 32
  · have stays := controls _ control
    rwa [Char.ofNat_toNat] at stays
  by_cases quote : c = '"'
  · rw [quote]
    rfl
  by_cases backslash : c = '\\'
  · rw [backslash]
    rfl
  have line : c ≠ '\n' ∧ c ≠ '\r' := by
    constructor <;> rintro rfl <;> exact control (by decide)
  have plain : Json.escape c = [c] :=
    Component.escape_of_isUnescaped ⟨quote, backslash, by omega⟩
  rw [plain]
  simp [enclose, quote, backslash, line]

theorem foldlM_enclose_flatMap_escape (s : List Char) :
    (s.flatMap Json.escape).foldlM enclose [.quotes '"'] = some [.quotes '"'] := by
  induction s with
  | nil => rfl
  | cons c s ih =>
    rw [List.flatMap_cons, List.foldlM_append, foldlM_enclose_escape]
    exact ih

theorem isSource_quote (value : String) : IsSource (Json.quote value).toList := by
  have spelled := Json.Token.toList_quote_append value []
  rw [List.append_nil] at spelled
  rw [isSource_iff, spelled, List.foldlM_cons]
  change (List.foldlM enclose [.quotes '"'] _ : Option _) = _
  rw [List.foldlM_append, foldlM_enclose_flatMap_escape]
  rfl

end Sources

end Script

namespace Component

open Component.Expr (escapeTemplate holes holes_cons)
open Script
open Text.Chars (after? eq_of_after? replace replace_singleton replace_of_ne replace_of_after?
  replace_of_after?_eq_none)

/-- Escaped text and then substitutions are read as what they were written for exactly if each substitution
is one. -/
theorem inside?_holes {text : List Char} (plain : '\r' ∉ text) (substitutions : List Expr) (rest : List Char) :
    inside? (escapeTemplate text ++ (holes substitutions ++ '\x60' :: rest)) =
        some (⟨text, substitutions.map fun e => (e.write.toList, [])⟩, rest) ↔
      ∀ e ∈ substitutions, IsSource e.write.toList := by
  induction substitutions generalizing text with
  | nil =>
    have read := inside?_closed (chunk?_escapeTemplate plain false rest)
    simpa [holes, chunkEnd] using read
  | cons e substitutions ih =>
    have read := inside?_opened (chunk?_escapeTemplate plain true
      (e.write.toList ++ '}' :: (holes substitutions ++ '\x60' :: rest)))
    have later := @ih [] (by simp)
    rw [escapeTemplate, List.nil_append] at later
    rw [holes_cons, read, List.forall_mem_cons, ← later]
    constructor
    · intro exactly
      obtain ⟨⟨source, behind⟩, found, exactly⟩ := Option.bind_eq_some_iff.mp exactly
      obtain ⟨⟨inner, after⟩, inside, same⟩ := Option.map_eq_some_iff.mp exactly
      obtain ⟨whole, closed⟩ := source?_eq_some_iff.mp found
      simp only [List.map_cons, Prod.mk.injEq, Literal.mk.injEq, true_and, List.cons.injEq] at same
      obtain ⟨⟨⟨rfl, empty⟩, others⟩, rfl⟩ := same
      obtain rfl : holes substitutions ++ '\x60' :: after = behind := by simpa using whole
      refine ⟨isSource_iff.mpr closed, inside.trans ?_⟩
      rw [← others, ← empty]
    · rintro ⟨source, inside⟩
      rw [source?_eq_some_iff.mpr ⟨rfl, isSource_iff.mp source⟩, Option.bind_some]
      dsimp only
      rw [inside]
      rfl

/-- Backslashes and backticks escaped, and openings of substitutions not yet. -/
def escapeMarks (c : Char) : List Char := if c = '\\' ∨ c = '\x60' then ['\\', c] else [c]

theorem replace_marks (s : List Char) :
    replace '\x60' [] ['\\', '\x60'] (replace '\\' [] ['\\', '\\'] s) = s.flatMap escapeMarks := by
  rw [replace_singleton, replace_singleton, List.flatMap_assoc]
  congr 1
  funext c
  by_cases backslash : c = '\\'
  · subst backslash
    rfl
  by_cases tick : c = '\x60'
  · subst tick
    rfl
  simp [escapeMarks, backslash, tick]

theorem brace_of_flatMap_escapeMarks {s rest : List Char} (brace : s.flatMap escapeMarks = '{' :: rest) :
    ∃ t, s = '{' :: t := by
  cases s with
  | nil => cases brace
  | cons c s =>
    rw [List.flatMap_cons, escapeMarks] at brace
    split at brace
    · cases brace
    · exact ⟨s, by rw [(List.cons.inj brace).1]⟩

/-- Backslashes first, then backticks, then openings of substitutions: no replacement touches what an
earlier one has written. -/
theorem escapeTemplate_eq_replace (s : List Char) :
    escapeTemplate s = replace '$' ['{'] ['\\', '$', '{']
      (replace '\x60' [] ['\\', '\x60'] (replace '\\' [] ['\\', '\\'] s)) := by
  rw [replace_marks]
  fun_induction escapeTemplate s with
  | case1 => rw [List.flatMap_nil, replace]
  | case2 s ih =>
    rw [ih]
    change _ = replace _ _ _ ('\\' :: '\\' :: s.flatMap escapeMarks)
    rw [replace_of_ne (by decide), replace_of_ne (by decide)]
  | case3 s ih =>
    rw [ih]
    change _ = replace _ _ _ ('\\' :: '\x60' :: s.flatMap escapeMarks)
    rw [replace_of_ne (by decide), replace_of_ne (by decide)]
  | case4 s ih =>
    rw [ih]
    change _ = replace _ _ _ ('$' :: '{' :: s.flatMap escapeMarks)
    rw [replace_of_after? rfl]
    rfl
  | case5 c s backslash tick opening ih =>
    have alone : escapeMarks c = [c] := if_neg (not_or.mpr ⟨backslash, tick⟩)
    have missing : after? ['$', '{'] (c :: s.flatMap escapeMarks) = none := by
      rw [Option.eq_none_iff_forall_ne_some]
      intro rest found
      obtain ⟨dollar, brace⟩ := List.cons.inj (eq_of_after? found)
      obtain ⟨t, brace⟩ := brace_of_flatMap_escapeMarks brace
      exact opening t dollar brace
    rw [ih, List.flatMap_cons, alone, List.singleton_append, replace_of_after?_eq_none missing]

section Substitution

variable {e test a b : Expr}

theorem isSource_isDefined (source : IsSource e.write.toList) : IsSource (Expr.isDefined e).write.toList := by
  simp only [Expr.write, String.toList_append]
  exact source.append (isSource_of_inert rfl)

theorem isSource_append (first : IsSource a.write.toList) (second : IsSource b.write.toList) :
    IsSource (Expr.append a b).write.toList := by
  simp only [Expr.write, String.toList_append]
  exact (first.append (isSource_of_inert rfl)).append second

theorem isSource_choose (tested : IsSource test.write.toList) (first : IsSource a.write.toList)
    (second : IsSource b.write.toList) : IsSource (Expr.choose test a b).write.toList := by
  simp only [Expr.write, String.toList_append]
  exact (((tested.append (isSource_of_inert rfl)).append first).append (isSource_of_inert rfl)).append second

end Substitution

/-- What a binding adds is one substitution if nothing in its key opens or closes anything. -/
theorem isSource_addition (a : Attribute) (lead : String) {b : Binding}
    (inert : b.key.toList.all isInert = true) : IsSource (addition a lead b).write.toList := by
  have key : IsSource (Expr.key b.key).write.toList := isSource_of_inert inert
  have option : IsSource (Expr.option b.key).write.toList := by
    simp only [Expr.write, String.toList_append]
    exact ((((isSource_of_inert rfl).append key).append (isSource_of_inert rfl)).append key).append
      (isSource_of_inert rfl)
  unfold addition
  split
  · exact isSource_choose key (isSource_quote _) (isSource_quote _)
  · exact isSource_choose (isSource_isDefined option) (isSource_append (isSource_quote _) option) (isSource_quote _)
  · exact isSource_choose (isSource_isDefined key) (isSource_append (isSource_quote _) key) (isSource_quote _)

/-- Whatever stands behind escaped text, the text is read up to it. -/
theorem chunk?_holes {text : List Char} (plain : '\r' ∉ text) (substitutions : List Expr) (rest : List Char) :
    ∃ behind, chunk? (escapeTemplate text ++ (holes substitutions ++ '\x60' :: rest)) =
        some ⟨text, !substitutions.isEmpty, behind⟩ ∧
      chunkEnd (!substitutions.isEmpty) ++ behind = holes substitutions ++ '\x60' :: rest := by
  cases substitutions with
  | nil => exact ⟨rest, chunk?_escapeTemplate plain false rest, rfl⟩
  | cons e substitutions =>
    rw [holes_cons]
    exact ⟨_, chunk?_escapeTemplate plain true _, rfl⟩

end Component

end Stencil
