import Stencil.Component.Markup
import Stencil.Proofs.JsonRoundTrip
import Stencil.Proofs.NarrowedRules
import Stencil.Proofs.NestedRules

/-! Inline styles beside the bodies of rules. A style object is cut at every semicolon of its text and at the
first colon of each part, while a body is read by its tokens. The two give the same values exactly if no
value of the body has a semicolon inside a string, an address or a block. -/
namespace Stencil

namespace Style

open Text ComponentValue

namespace Token

theorem isAsciiBlank_of_mem_oneSpace {s : List Char} {c : Char} (h : c ∈ (oneSpace s).1) :
    isAsciiBlank c = true := by
  unfold oneSpace at h
  split at h
  · rcases List.mem_pair.mp h with rfl | rfl <;> rfl
  · split at h
    · rename_i blank
      rwa [List.mem_singleton.mp h]
    · cases h
  · cases h

/-- What is no digit and no blank is escaped by itself. -/
theorem escape_value_of_mem {s : List Char} {d : Char} (h : d ∈ (escape s).source) (null : d ≠ '\x00')
    (digit : isHex d = false) (blank : isAsciiBlank d = false) : (escape s).value = d := by
  unfold escape at h ⊢
  split at h
  · cases h
  · rename_i c r
    dsimp only at h ⊢
    split at h
    · rcases List.mem_append.mp h with inside | inside
      · cases digit.symm.trans (List.all_eq_true.mp List.all_takeWhile d inside)
      · cases blank.symm.trans (isAsciiBlank_of_mem_oneSpace inside)
    · rename_i other
      obtain rfl := List.mem_singleton.mp h
      rw [if_neg other]
      exact if_neg (by simpa using null)

/-- A colon or semicolon that a name is written with belongs to the name: it was escaped. -/
theorem mem_name_value {s : List Char} {d : Char} (mark : d = ':' ∨ d = ';') (h : d ∈ (name s).source) :
    d ∈ (name s).value := by
  have other : d ≠ '\x00' ∧ d ≠ '\\' ∧ isHex d = false ∧ isAsciiBlank d = false := by
    rcases mark with rfl | rfl <;> decide
  obtain ⟨null, slash, digit, blank⟩ := other
  fun_induction name s with
  | case1 => cases h
  | case2 c r here n ih =>
    rcases List.mem_cons.mp h with rfl | later
    · exact List.mem_cons_self
    · exact List.mem_cons_of_mem _ (ih later)
  | case3 c r _ zero n ih =>
    rcases List.mem_cons.mp h with rfl | later
    · exact absurd (beq_iff_eq.mp zero) null
    · exact List.mem_cons_of_mem _ (ih later)
  | case4 c r _ _ escapes e n ih =>
    simp only [Bool.and_eq_true, beq_iff_eq] at escapes
    obtain ⟨rfl, -⟩ := escapes
    have inside : d ∈ e.source ∨ d ∈ n.source := by simpa [slash] using h
    rcases inside with here | later
    · rw [← escape_value_of_mem here null digit blank]
      exact List.mem_cons_self
    · exact List.mem_cons_of_mem _ (ih later)
  | case5 => cases h

/-- A name that is written with blanks only is just these. -/
theorem name_value_of_blank {s : List Char} (blank : ∀ c ∈ (name s).source, isBlank c = true) :
    (name s).value = (name s).source := by
  fun_induction name s with
  | case1 => rfl
  | case2 c r _ n ih => exact congrArg _ (ih (List.forall_mem_cons.mp blank).2)
  | case3 c r _ zero n ih =>
    have here := (List.forall_mem_cons.mp blank).1
    rw [beq_iff_eq.mp zero] at here
    cases here
  | case4 c r _ _ escapes e n ih =>
    have here := (List.forall_mem_cons.mp blank).1
    simp only [Bool.and_eq_true, beq_iff_eq] at escapes
    rw [escapes.1] at here
    cases here
  | case5 => rfl

end Token

section Bodies

variable {cs : List ComponentValue}

def declarations (declared : List (String × String)) : List Rule := declared.map fun d => .decl d.1 d.2

theorem Item.take_decl {line : Nat} {first : ComponentValue} {after : List ComponentValue} {prop value : String}
    (taken : (Item.take line first after).item = .decl prop value) :
    first.kind? = some (.ident prop) ∧ Item.declValue after = .ok value ∧
      (Item.take line first after).rest = after.dropWhile (!·.isSemicolon) := by
  have noRule (blame : Option Nat) (cs : List ComponentValue) :
      (Item.takeRule line blame cs).item ≠ .decl prop value := by
    unfold Item.takeRule
    dsimp only
    split
    · simp
    · split
      · split <;> simp
      · simp
  unfold Item.take at taken ⊢
  split at taken
  · cases taken
  · rename_i kind
    split at taken
    · rename_i value' read
      cases taken
      rw [read]
      exact ⟨kind, rfl, rfl⟩
    · exact absurd taken (noRule _ _)
  · exact absurd taken (noRule _ _)

/-- Where only declarations are read and nothing is skipped, the first item is one of them. -/
theorem readBody_declared {line : Nat} {first : ComponentValue} {after : List ComponentValue}
    {declared : List (String × String)} (dropped : cs.dropWhile isBetweenItems = first :: after)
    (read : readBody line cs = (declarations declared, [])) :
    ∃ prop value later line', first.kind? = some (.ident prop) ∧ Item.declValue after = .ok value ∧
      declared = (prop, value) :: later ∧
      readBody line' (after.dropWhile (!·.isSemicolon)) = (declarations later, []) := by
  rw [readBody] at read
  split at read
  · rename_i none
    rw [dropped] at none
    cases none
  · rename_i first' after' dropped'
    rw [dropped] at dropped'
    obtain ⟨rfl, rfl⟩ := List.cons.inj dropped'
    dsimp only at read
    split at read <;> obtain ⟨items, quiet⟩ := Prod.mk.inj read
    · rename_i prop value item
      obtain ⟨kind, value_eq, rest⟩ := Item.take_decl item
      rw [rest] at items quiet
      cases declared with
      | nil => cases items
      | cons d later =>
        obtain ⟨head, tail⟩ := List.cons.inj items
        obtain ⟨rfl, rfl⟩ := Rule.decl.inj head
        exact ⟨_, _, later, _, kind, value_eq, rfl, Prod.ext tail quiet⟩
    · cases declared <;> cases items
    · cases declared <;> cases items
    · cases quiet

/-- A value stands behind spaces and a colon, and is what is left of its text when that is trimmed. -/
theorem Item.declValue_eq_ok {after : List ComponentValue} {value : String}
    (read : Item.declValue after = .ok value) :
    ∃ spaces colon rest, after.takeWhile (!·.isSemicolon) = spaces ++ colon :: rest ∧
      (∀ c ∈ spaces, c.isSpace = true) ∧ colon.isToken .colon = true ∧ slice rest = value ∧
      value.isEmpty = false := by
  unfold Item.declValue at read
  dsimp only at read
  split at read
  · cases read
  · rename_i colon rest dropped
    split at read
    · rename_i separates
      split at read
      · cases read
      · rename_i filled
        cases read
        refine ⟨(after.takeWhile (!·.isSemicolon)).takeWhile isSpace, colon, rest, ?_,
          List.all_eq_true.mp List.all_takeWhile, separates, rfl, by simpa using filled⟩
        rw [← dropped, List.takeWhile_append_dropWhile]
    · cases read

def isBare (c : ComponentValue) : Bool := !c.isToken .comment && !c.isToken (.closing .curly)

namespace ComponentValue.Genuine

variable {x : ComponentValue}

theorem source_space (genuine : Genuine x) (bare : isBare x = true) (space : x.isSpace = true) :
    ∀ c ∈ x.source, isBlank c = true := by
  cases genuine with
  | block _ _ _ => cases space
  | @token t scanned =>
    obtain ⟨c, s, rfl⟩ := scanned
    have kind : (Token.next c s).1.kind = .space := by
      simp only [isBare, isSpace, isToken, kind?, Bool.and_eq_true, Bool.or_eq_true, Bool.not_eq_true',
        beq_eq_false_iff_ne, beq_iff_eq, ne_eq, Option.some.injEq] at bare space
      exact space.resolve_right bare.1
    have separates := Token.next_separates c s
    rw [Token.Separates, kind] at separates
    intro d member
    rw [source_token] at member
    exact isBlank_of_isAsciiBlank (separates d member)

theorem source_semicolon (genuine : Genuine x) (semicolon : x.isSemicolon = true) : x.source = [';'] := by
  cases genuine with
  | block _ _ _ => cases semicolon
  | @token t scanned =>
    obtain ⟨c, s, rfl⟩ := scanned
    have separates := Token.next_separates c s
    rw [Token.Separates, Option.some.inj (beq_iff_eq.mp semicolon)] at separates
    rw [source_token, separates]

theorem source_colon (genuine : Genuine x) (colon : x.isToken .colon = true) : x.source = [':'] := by
  cases genuine with
  | block _ _ _ => cases colon
  | token scanned => rw [source_token, scanned.source_colon (Option.some.inj (beq_iff_eq.mp colon))]

/-- What stands between items is written with blanks and semicolons. -/
theorem source_between (genuine : Genuine x) (bare : isBare x = true) (between : x.isBetweenItems = true) :
    ∀ c ∈ x.source, isBlank c = true ∨ c = ';' := by
  intro c member
  simp only [isBetweenItems, Bool.or_eq_true] at between
  rcases between with (space | semicolon) | closing
  · exact .inl (genuine.source_space bare space c member)
  · rw [genuine.source_semicolon semicolon] at member
    exact .inr (List.mem_singleton.mp member)
  · simp [isBare, closing] at bare

end ComponentValue.Genuine

theorem forall_sourceAll {P : Char → Prop} (h : ∀ x ∈ cs, ∀ c ∈ x.source, P c) : ∀ c ∈ sourceAll cs, P c := by
  induction cs with
  | nil => simp
  | cons x cs ih =>
    rw [List.forall_mem_cons] at h
    rw [sourceAll_cons, List.forall_mem_append]
    exact ⟨h.1, ih h.2⟩

theorem source_gap (genuine : ∀ x ∈ cs, Genuine x) (bare : ∀ x ∈ cs, isBare x = true)
    (between : ∀ x ∈ cs, x.isBetweenItems = true) : ∀ c ∈ sourceAll cs, isBlank c = true ∨ c = ';' :=
  forall_sourceAll fun x hx => (genuine x hx).source_between (bare x hx) (between x hx)

end Bodies

end Style

namespace Component

open Text Style

/-- An entry of a style object: a part of its text, cut at the first colon. -/
def stylePair? (declaration : List Char) : Option (String × String) :=
  match splitOnce? ":" (String.ofList declaration) with
  | none => none
  | some (property, value) =>
    if allBlank property || allBlank value then none
    else some (styleProperty (trim property), trim value)

def styleEntries (css : List Char) : List (String × String) :=
  (Chars.pieces (· == ';') css).filterMap stylePair?

def styleMembers (entries : List (String × String)) : List (String × Json) :=
  entries.map fun e => (e.1, .string e.2)

theorem parse?_styleObject (css : String) :
    Json.parse? (styleObject css) = some (.object (styleMembers (styleEntries css.toList))) := by
  have written : styleObject css = (Json.object (styleMembers (styleEntries css.toList))).compact := by
    have members (entries : List (String × String)) : Json.compactMembers (styleMembers entries) =
        entries.map fun e => Json.quote e.1 ++ ":" ++ Json.quote e.2 := by
      induction entries with
      | nil => rfl
      | cons e entries ih => simp [styleMembers, Json.compactMembers, Json.compact, ← ih]
    rw [Json.compact, members, styleEntries, List.map_filterMap]
    unfold styleObject braced
    refine congrArg (fun parts => "\x7b" ++ join "," parts ++ "\x7d") (congrArg (List.filterMap · _) ?_)
    funext declaration
    unfold stylePair?
    cases splitOnce? ":" (String.ofList declaration) with
    | none => rfl
    | some parts =>
      cases blank : allBlank parts.1 || allBlank parts.2 <;> simp [blank]
  have flat (entries : List (String × String)) : Json.membersWordy (styleMembers entries) = true ∧
      Json.depthMembers (styleMembers entries) = 0 := by
    induction entries with
    | nil => exact ⟨rfl, rfl⟩
    | cons e entries ih =>
      simpa [styleMembers, Json.membersWordy, Json.depthMembers, Json.isWordy, Json.depth] using ih
  obtain ⟨wordy, shallow⟩ := flat (styleEntries css.toList)
  rw [written]
  exact Json.parse?_compact wordy (by rw [Json.depth, shallow]; decide)

section Entries

variable {s : List Char}

theorem stylePair?_cut {property : List Char} (value : List Char) (colon : ':' ∉ property) :
    stylePair? (property ++ ':' :: value) =
      if property.all isBlank || value.all isBlank then none
      else some (styleProperty (String.ofList (Chars.trim property)), String.ofList (Chars.trim value)) := by
  have found := Chars.splitOnce?_singleton ':' property value colon
  simp [stylePair?, splitOnce?, found, allBlank, trim]

theorem stylePair?_uncut (colon : ':' ∉ s) : stylePair? s = none := by
  have none := Chars.splitOnce?_append_left ':' [] s [] colon
  rw [List.append_nil] at none
  simp [stylePair?, splitOnce?, none, Chars.splitOnce?, Chars.after?]

theorem stylePair?_blank {c : Char} (blank : isBlank c = true) : stylePair? (c :: s) = stylePair? s := by
  have apart : ':' ∉ [c] := by
    intro inside
    rw [← List.mem_singleton.mp inside] at blank
    cases blank
  by_cases colon : ':' ∈ s
  · obtain ⟨property, value, rfl, first⟩ := List.eq_append_cons_of_mem colon
    have front := Chars.trim_blank_append [c] property (by simpa using blank)
    rw [← List.cons_append, stylePair?_cut value first, stylePair?_cut value (by simpa [first] using apart)]
    rw [List.singleton_append] at front
    simp [front, blank]
  · rw [stylePair?_uncut colon, stylePair?_uncut (by simpa [colon] using apart)]

theorem styleEntries_append (s t : List Char) :
    styleEntries (s ++ ';' :: t) = styleEntries s ++ styleEntries t := by
  unfold styleEntries
  rw [Chars.pieces_append_cons _ s t ';' rfl, List.filterMap_append]

theorem styleEntries_nil : styleEntries [] = [] := rfl

theorem styleEntries_gap {gap : List Char} (h : ∀ c ∈ gap, isBlank c = true ∨ c = ';') (s : List Char) :
    styleEntries (gap ++ s) = styleEntries s := by
  induction gap with
  | nil => rfl
  | cons c gap ih =>
    obtain ⟨here, later⟩ := List.forall_mem_cons.mp h
    rw [← ih later, List.cons_append]
    rcases here with blank | rfl
    · have whole : (c == ';') = false := by
        cases same : c == ';' with
        | false => rfl
        | true => rw [beq_iff_eq.mp same] at blank; cases blank
      obtain ⟨first, rest, parts⟩ := List.exists_cons_of_ne_nil (Chars.pieces_ne_nil (· == ';') (gap ++ s))
      simp only [styleEntries, Chars.pieces, whole, parts, Bool.false_eq_true, if_false, List.filterMap_cons,
        stylePair?_blank blank]
    · exact styleEntries_append [] (gap ++ s)

theorem styleEntries_declaration {property value : List Char} (colon : ':' ∉ property)
    (whole : ';' ∉ property) (short : ';' ∉ value) (named : property.all isBlank = false)
    (filled : value.all isBlank = false) :
    styleEntries (property ++ ':' :: value) =
      [(styleProperty (String.ofList (Chars.trim property)), String.ofList (Chars.trim value))] := by
  have solid : ∀ c ∈ property ++ ':' :: value, (c == ';') = false := by
    intro c member
    rw [beq_eq_false_iff_ne]
    rintro rfl
    simp [whole, short] at member
  rw [styleEntries, Chars.pieces_eq_singleton solid]
  simp [stylePair?_cut value colon, named, filled]

/-- Every value comes from a part between semicolons. -/
theorem not_mem_styleEntries {e : String × String} (member : e ∈ styleEntries s) : ';' ∉ e.2.toList := by
  obtain ⟨part, cut, entry⟩ := List.mem_filterMap.mp member
  have solid := Chars.not_cut_of_mem_pieces cut
  intro semicolon
  by_cases colon : ':' ∈ part
  · obtain ⟨property, value, rfl, first⟩ := List.eq_append_cons_of_mem colon
    rw [stylePair?_cut value first] at entry
    split at entry
    · cases entry
    · cases entry
      rw [String.toList_ofList] at semicolon
      obtain ⟨before, after, split, -, -⟩ := Chars.trim_split value
      have inside : ';' ∈ value := by rw [split]; simp [semicolon]
      have := solid ';' (by simp [inside])
      simp at this
  · rw [stylePair?_uncut colon] at entry
    cases entry

end Entries

/-- Properties whose names, as inline styles are cut, stay whole and in front of their values. -/
def IsPlainProperty (name : String) : Prop :=
  ':' ∉ name.toList ∧ ';' ∉ name.toList ∧ allBlank name = false

/-- The text of a property has no mark that its name has not. -/
theorem source_property {x : ComponentValue} {name : String} (genuine : ComponentValue.Genuine x)
    (ident : x.kind? = some (.ident name)) (plain : IsPlainProperty name) :
    ':' ∉ x.source ∧ ';' ∉ x.source ∧ x.source.all isBlank = false := by
  cases genuine with
  | block _ _ _ => cases ident
  | token scanned =>
    have written := scanned.written
    rw [Token.Written, Option.some.inj ident] at written
    obtain ⟨s, rfl, source⟩ := written
    obtain ⟨colon, semicolon, filled⟩ := plain
    rw [String.toList_ofList] at colon semicolon
    rw [allBlank, String.toList_ofList] at filled
    rw [ComponentValue.source_token, source]
    refine ⟨fun h => colon (Token.mem_name_value (.inl rfl) h),
      fun h => semicolon (Token.mem_name_value (.inr rfl) h), ?_⟩
    rw [Bool.eq_false_iff] at filled ⊢
    intro blank
    rw [Token.name_value_of_blank (List.all_eq_true.mp blank)] at filled
    exact filled blank

section Bodies

open ComponentValue

variable {cs : List ComponentValue}

/-- What is trimmed off a value is no semicolon, and there is more to it than blanks. -/
theorem source_value (short : ';' ∉ (slice cs).toList) (filled : (slice cs).isEmpty = false) :
    ';' ∉ sourceAll cs ∧ (sourceAll cs).all isBlank = false := by
  rw [slice, String.toList_ofList] at short
  constructor
  · intro inside
    obtain ⟨before, behind, split, front, back⟩ := Chars.trim_split (sourceAll cs)
    rw [split, List.mem_append, List.mem_append] at inside
    rcases inside with (inside | inside) | inside
    · cases front _ inside
    · exact short inside
    · cases back _ inside
  · rw [Bool.eq_false_iff]
    intro blank
    have none := Chars.trim_blank_append (sourceAll cs) [] (List.all_eq_true.mp blank)
    rw [List.append_nil] at none
    rw [slice, none] at filled
    cases filled

/-- A declaration of a body, up to its semicolon, makes an entry with its value. -/
theorem styleEntries_item {first : ComponentValue} {after : List ComponentValue} {prop value : String}
    (genuine : ∀ x ∈ first :: after, Genuine x) (bare : ∀ x ∈ first :: after, isBare x = true)
    (ident : first.kind? = some (.ident prop)) (read : Item.declValue after = .ok value)
    (plain : IsPlainProperty prop) (short : ';' ∉ value.toList) :
    ∃ name, styleEntries (sourceAll (first :: after)) =
      (name, value) :: styleEntries (sourceAll (after.dropWhile (!·.isSemicolon))) := by
  obtain ⟨spaces, colon, rest, item, blanks, separates, rfl, filled⟩ := Item.declValue_eq_ok read
  rw [List.forall_mem_cons] at genuine bare
  have part : ∀ x ∈ spaces ++ colon :: rest, x ∈ after := fun x hx =>
    (List.takeWhile_prefix _).subset (item ▸ hx)
  have gap : ∀ c ∈ sourceAll spaces, isBlank c = true := forall_sourceAll fun x hx =>
    have member := part x (List.mem_append_left _ hx)
    (genuine.2 x member).source_space (bare.2 x member) (blanks x hx)
  have text : sourceAll (first :: after) = ((first.source ++ sourceAll spaces) ++ ':' :: sourceAll rest) ++
      sourceAll (after.dropWhile (!·.isSemicolon)) := by
    have whole := congrArg sourceAll (List.takeWhile_append_dropWhile (p := (!·.isSemicolon)) (l := after))
    rw [item] at whole
    simp [← whole, (genuine.2 colon (part colon (by simp))).source_colon separates]
  obtain ⟨noColon, noSemicolon, named⟩ := source_property genuine.1 ident plain
  obtain ⟨uncut, valued⟩ := source_value short filled
  have apart {d : Char} (solid : isBlank d = false) (outside : d ∉ first.source) :
      d ∉ first.source ++ sourceAll spaces := by
    intro inside
    rcases List.mem_append.mp inside with inside | inside
    · exact outside inside
    · cases solid.symm.trans (gap d inside)
  have entry := styleEntries_declaration (apart rfl noColon) (apart rfl noSemicolon) uncut
    (by rw [List.all_append, named, Bool.false_and]) valued
  refine ⟨styleProperty (String.ofList (Chars.trim (first.source ++ sourceAll spaces))), ?_⟩
  rw [text]
  cases behind : after.dropWhile (!·.isSemicolon) with
  | nil =>
    rw [sourceAll_nil, List.append_nil, entry, styleEntries_nil]
    rfl
  | cons mark later =>
    have semicolon : mark.isSemicolon = true := by simpa using not_of_dropWhile behind
    have member : mark ∈ after := (List.dropWhile_suffix _).subset (behind ▸ List.mem_cons_self)
    rw [sourceAll_cons, (genuine.2 mark member).source_semicolon semicolon, List.singleton_append,
      styleEntries_append, entry]
    exact congrArg _ (styleEntries_append [] _).symm

/-- Along a body without semicolons in its values, the entries have these values. -/
theorem styleEntries_body {line : Nat} {declared : List (String × String)}
    (genuine : ∀ x ∈ cs, Genuine x) (bare : ∀ x ∈ cs, isBare x = true)
    (read : readBody line cs = (declarations declared, []))
    (plain : ∀ d ∈ declared, IsPlainProperty d.1) (short : ∀ d ∈ declared, ';' ∉ d.2.toList) :
    (styleEntries (sourceAll cs)).map (·.2) = declared.map (·.2) := by
  induction cs using body_induction generalizing line declared with
  | nil cs gap =>
    have none := (congrArg (·.1) read).symm.trans (readBody_nil gap)
    obtain rfl : declared = [] := by simpa [declarations] using none
    have blank := source_gap genuine bare (List.dropWhile_eq_nil_iff.mp gap)
    have entries := styleEntries_gap blank []
    rw [List.append_nil] at entries
    rw [entries]
    rfl
  | cons cs first after dropped _ ih =>
    obtain ⟨prop, value, later, line', ident, valued, rfl, rest⟩ := readBody_declared dropped read
    have split : cs = cs.takeWhile isBetweenItems ++ first :: after := by
      rw [← dropped, List.takeWhile_append_dropWhile]
    have goesOn : (Item.take 0 first after).rest = after.dropWhile (!·.isSemicolon) := by
      simp only [Item.take, ident, valued]
    have tail : ∀ x ∈ first :: after, x ∈ cs := fun x hx => split ▸ List.mem_append_right _ hx
    have front : ∀ x ∈ cs.takeWhile isBetweenItems, x ∈ cs := fun x hx => (List.takeWhile_prefix _).subset hx
    have gap := source_gap (fun x hx => genuine x (front x hx)) (fun x hx => bare x (front x hx))
      (List.all_eq_true.mp List.all_takeWhile)
    have behind : ∀ x ∈ after.dropWhile (!·.isSemicolon), x ∈ cs := fun x hx =>
      tail x (List.mem_cons_of_mem _ ((List.dropWhile_suffix _).subset hx))
    rw [List.forall_mem_cons] at plain short
    obtain ⟨name, entries⟩ := styleEntries_item (fun x hx => genuine x (tail x hx))
      (fun x hx => bare x (tail x hx)) ident valued plain.1 short.1
    have others := @ih 0 line' later
    rw [goesOn] at others
    rw [split, sourceAll_append, styleEntries_gap gap, entries, List.map_cons, List.map_cons,
      others (fun x hx => genuine x (behind x hx)) (fun x hx => bare x (behind x hx)) rest plain.2 short.2]

end Bodies

def asRule (css : String) : String := "a\x7b" ++ css ++ "\x7d"

/-- The components between the braces of the rule: nothing in the text is open at its end, so that the brace
behind it closes the rule. -/
def Encloses (css : String) (contents : List ComponentValue) : Prop :=
  ComponentValue.scan (asRule css).toList = [.token ⟨.ident "a", ['a']⟩,
    .block .curly ⟨.opening .curly, ['\x7b']⟩ contents (some ⟨.closing .curly, ['\x7d']⟩)]

namespace Encloses

open ComponentValue

variable {css : String} {contents : List ComponentValue}

theorem source (closed : Encloses css contents) : sourceAll contents = css.toList := by
  have text := (Groups.scan (asRule css).toList).source
  rw [closed, Token.flat_scan] at text
  have same : css.toList ++ ['\x7d'] = sourceAll contents ++ ['\x7d'] := by simpa [asRule] using text
  exact (List.append_cancel_right same).symm

theorem genuine (closed : Encloses css contents) : ∀ x ∈ contents, Genuine x := by
  have all := genuine_scan (asRule css).toList
  rw [closed] at all
  exact (all _ (List.mem_cons_of_mem _ List.mem_cons_self)).contents

theorem bare (closed : Encloses css contents)
    (commentFree : ∀ t ∈ Token.scan (asRule css).toList, t.kind ≠ .comment) :
    ∀ x ∈ contents, isBare x = true := by
  have gathered := Groups.scan (asRule css).toList
  rw [closed] at gathered
  generalize Token.scan (asRule css).toList = ts at gathered commentFree
  cases gathered with
  | token _ _ gathered =>
    cases gathered with
    | block _ inside _ =>
      intro x member
      cases x with
      | block => rfl
      | token t =>
        obtain ⟨origin, apart⟩ := inside.mem_token t member
        have noComment := commentFree t (List.mem_cons_of_mem _ (List.mem_cons_of_mem _ origin))
        have unclosed : t.kind ≠ .closing .curly := fun closing =>
          apart _ rfl (by simp [Token.closes?, closing])
        simp [isBare, isToken, kind?, noComment, unclosed]

theorem read (closed : Encloses css contents) : ∃ line, parse (asRule css) =
    ⟨(readBody line contents).2, .ok [.rule "a" (readBody line contents).1]⟩ := by
  have done (line : Nat) : readRules false line [] = .ok [] := by
    rw [readRules]
    rfl
  rw [parse, closed, readRules]
  split
  · rename_i none
    cases none
  · rename_i first after dropped
    cases dropped
    dsimp only [kind?]
    split
    · rename_i none
      cases none
    · rename_i block rest curly
      cases curly
      rw [List.takeWhile_cons_of_pos rfl, List.takeWhile_cons_of_neg (by simp [isCurly]), if_neg (by decide), done]
      exact ⟨_, congrArg (Reported.mk · _) (List.append_nil _)⟩

end Encloses

/-- A text that can be the body of a rule and has no comment. -/
structure IsBody (css : String) : Prop where
  closed : ∃ contents, Encloses css contents
  commentFree : ∀ t ∈ Token.scan (asRule css).toList, t.kind ≠ .comment

/-- A style object has the values that its text declares as the body of a rule, one entry for each declaration
and in their order, exactly if no value has a semicolon. -/
theorem style_values_iff (css : String) (declared : List (String × String)) (body : IsBody css)
    (quiet : (parse (asRule css)).notices = [])
    (read : (parse (asRule css)).outcome = .ok [.rule "a" (declarations declared)])
    (plain : ∀ d ∈ declared, IsPlainProperty d.1) :
    ∃ entries, Json.parse? (styleObject css) = some (.object (styleMembers entries)) ∧
      (entries.map (·.2) = declared.map (·.2) ↔ ∀ d ∈ declared, ';' ∉ d.2.toList) := by
  refine ⟨styleEntries css.toList, parse?_styleObject css, fun same d member => ?_, fun short => ?_⟩
  · have among : d.2 ∈ (styleEntries css.toList).map (·.2) := same ▸ List.mem_map_of_mem member
    obtain ⟨e, entry, value⟩ := List.mem_map.mp among
    rw [← value]
    exact not_mem_styleEntries entry
  · obtain ⟨contents, closed⟩ := body.closed
    obtain ⟨line, whole⟩ := closed.read
    rw [whole] at read quiet
    have items : (readBody line contents).1 = declarations declared := by simpa using read
    rw [← closed.source]
    exact styleEntries_body closed.genuine (closed.bare body.commentFree) (Prod.ext items quiet) plain short

/-- Colons, also in a string or an address, and superfluous semicolons do no harm. -/
theorem style_values_colons :
    (parse (asRule "content: '\\': x';;background:url(x:y)")).outcome =
        .ok [.rule "a" [.decl "content" "'\\': x'", .decl "background" "url(x:y)"]] ∧
      ∃ entries, Json.parse? (styleObject "content: '\\': x';;background:url(x:y)") =
          some (.object (styleMembers entries)) ∧
        entries.map (·.2) = ["'\\': x'", "url(x:y)"] := by
  have tokens : Token.scan (asRule "content: '\\': x';;background:url(x:y)").toList =
      [⟨.ident "a", ['a']⟩, ⟨.opening .curly, ['\x7b']⟩, ⟨.ident "content", "content".toList⟩, ⟨.colon, [':']⟩,
        ⟨.space, [' ']⟩, ⟨.string, "'\\': x'".toList⟩, ⟨.semicolon, [';']⟩, ⟨.semicolon, [';']⟩,
        ⟨.ident "background", "background".toList⟩, ⟨.colon, [':']⟩, ⟨.url, "url(x:y)".toList⟩,
        ⟨.closing .curly, ['\x7d']⟩] := by
    decide +kernel
  have body : IsBody "content: '\\': x';;background:url(x:y)" :=
    ⟨⟨_, (congrArg ComponentValue.ofTokens tokens).trans rfl⟩, by rw [tokens]; decide⟩
  have read : (parse (asRule "content: '\\': x';;background:url(x:y)")).outcome =
      .ok [.rule "a" [.decl "content" "'\\': x'", .decl "background" "url(x:y)"]] := by
    decide +kernel
  obtain ⟨entries, written, values⟩ := style_values_iff _
    [("content", "'\\': x'"), ("background", "url(x:y)")] body (by decide +kernel) read
    (by simp [IsPlainProperty, allBlank, isBlank])
  exact ⟨read, entries, written, values.mpr (by decide)⟩

/-- A semicolon inside an address ends the value of a style object, but not that of a rule. -/
theorem style_value_cut :
    (parse (asRule "background: url(data:image/png;base64,AAAA)")).outcome =
        .ok [.rule "a" [.decl "background" "url(data:image/png;base64,AAAA)"]] ∧
      styleObject "background: url(data:image/png;base64,AAAA)" =
        "\x7b\"background\":\"url(data:image/png\"\x7d" := by
  decide +kernel

end Component

end Stencil
