import Stencil.Proofs.StyleReflow

/-! Tokens of selectors, in front of a space or a comma. In texts without quotes, escapes and comments such a
character ends every token but one: an address that is not closed yet, which goes on to the next closing
parenthesis. So what stands before it has tokens of its own, whatever follows. -/
namespace Stencil.Style

open Text

/-- Characters of selectors without quotes, escapes and comments. -/
def isSelectorChar (c : Char) : Bool :=
  c.isAlphanum ||
    ['-', '_', '.', '#', ':', '*', '>', '+', '~', '(', ')', '[', ']', '=', ',', ' '].contains c

/-- A text of such characters. -/
def IsSelectorText (s : List Char) : Prop := ∀ c ∈ s, isSelectorChar c = true

theorem IsSelectorText.append {s t : List Char} (hs : IsSelectorText s) (ht : IsSelectorText t) :
    IsSelectorText (s ++ t) := List.forall_mem_append.mpr ⟨hs, ht⟩

theorem IsSelectorText.subset {s t : List Char} (hs : IsSelectorText s) (part : t ⊆ s) : IsSelectorText t :=
  fun c member => hs c (part member)

theorem isAsciiBlank_of_isSelectorChar {c : Char} (h : isSelectorChar c = true) :
    isAsciiBlank c = (c == ' ') := by
  by_cases blank : isAsciiBlank c = true
  · simp only [isAsciiBlank, Bool.or_eq_true, beq_iff_eq] at blank
    rcases blank with (((rfl | rfl) | rfl) | rfl) | rfl
    · rfl
    all_goals cases h
  · have other : c ≠ ' ' := by
      rintro rfl
      exact blank rfl
    simp [blank, other]

theorem isBlank_of_isSelectorChar {c : Char} (h : isSelectorChar c = true) : isBlank c = (c == ' ') := by
  rw [isSelectorChar, Bool.or_eq_true, isAlphanum_iff, isAlpha_iff, isUpper_iff, isLower_iff, isDigit_iff] at h
  rcases h with alphanumeric | mark
  · have apart : ¬ c.toNat = 32 := by omega
    have other : c ≠ ' ' := by
      rintro rfl
      exact apart rfl
    rw [beq_eq_false_iff_ne.mpr other]
    simp only [isBlank, Bool.or_eq_false_iff, Bool.and_eq_false_iff, decide_eq_false_iff_not,
      beq_eq_false_iff_ne]
    omega
  · have all : ['-', '_', '.', '#', ':', '*', '>', '+', '~', '(', ')', '[', ']', '=', ',', ' '].all
        (fun c => isBlank c == (c == ' ')) = true := by decide
    exact eq_of_beq (List.all_eq_true.mp all c (List.contains_iff_mem.mp mark))

namespace Token

/-- At the end, before a space or before a comma. -/
def Stops (t : List Char) : Prop := ∀ c ∈ t.head?, c = ' ' ∨ c = ','

theorem Stops.cases {t : List Char} (stops : Stops t) : t = [] ∨ (∃ r, t = ' ' :: r) ∨ ∃ r, t = ',' :: r := by
  cases t with
  | nil => exact .inl rfl
  | cons c r =>
    rcases stops c rfl with rfl | rfl
    · exact .inr (.inl ⟨r, rfl⟩)
    · exact .inr (.inr ⟨r, rfl⟩)

section Stops

variable {s t : List Char} (stops : Stops t)
include stops

theorem digits_stops (s : List Char) :
    (s ++ t).takeWhile isDigit = s.takeWhile isDigit ∧
      (s ++ t).dropWhile isDigit = s.dropWhile isDigit ++ t := by
  refine takeWhile_append_of_head ?_ s
  intro c head
  rcases stops c head with rfl | rfl <;> rfl

theorem startsDigit_stops (s : List Char) : startsDigit (s ++ t) = startsDigit s := by
  cases s with
  | nil => rcases stops.cases with rfl | ⟨r, rfl⟩ | ⟨r, rfl⟩ <;> rfl
  | cons c s => rfl

theorem startsNumber_stops (s : List Char) : startsNumber (s ++ t) = startsNumber s := by
  cases s with
  | nil => rcases stops.cases with rfl | ⟨r, rfl⟩ | ⟨r, rfl⟩ <;> rfl
  | cons c s =>
    by_cases point : c = '.'
    · subst point
      exact startsDigit_stops stops s
    · simp [startsNumber, point, startsDigit]

theorem fraction_stops (s : List Char) : fraction (s ++ t) = ((fraction s).1, (fraction s).2 ++ t) := by
  cases s with
  | nil => rcases stops.cases with rfl | ⟨r, rfl⟩ | ⟨r, rfl⟩ <;> rfl
  | cons c s =>
    by_cases point : c = '.'
    · subst point
      obtain ⟨taken, left⟩ := digits_stops stops s
      simp only [List.cons_append, fraction, startsDigit_stops stops, taken, left]
      split <;> rfl
    · rw [List.cons_append, fraction_other point, fraction_other point]
      rfl

theorem exponent_stops (s : List Char) : exponent (s ++ t) = ((exponent s).1, (exponent s).2 ++ t) := by
  cases s with
  | nil => rcases stops.cases with rfl | ⟨r, rfl⟩ | ⟨r, rfl⟩ <;> rfl
  | cons c s =>
    by_cases mark : (c == 'e' || c == 'E') = true
    · cases s with
      | nil => rcases stops.cases with rfl | ⟨r, rfl⟩ | ⟨r, rfl⟩ <;> simp [exponent, mark, isDigit]
      | cons sign r =>
        obtain ⟨taken, left⟩ := digits_stops stops r
        simp only [List.cons_append, exponent, mark, if_true, startsDigit_stops stops, List.takeWhile_cons,
          List.dropWhile_cons, taken, left]
        split
        · rfl
        · split <;> rfl
    · simp [exponent, mark]

theorem name_stops (chars : IsSelectorText s) :
    name (s ++ t) = ⟨(name s).value, (name s).source, (name s).rest ++ t⟩ := by
  induction s with
  | nil =>
    rcases stops.cases with rfl | ⟨r, rfl⟩ | ⟨r, rfl⟩ <;> simp [name, isNameChar, isNonAscii, startsNewline]
  | cons c s ih =>
    obtain ⟨here, later⟩ := List.forall_mem_cons.mp chars
    have null : (c == '\x00') = false := by
      rw [beq_eq_false_iff_ne]
      rintro rfl
      cases here
    have slash : (c == '\\') = false := by
      rw [beq_eq_false_iff_ne]
      rintro rfl
      cases here
    rw [List.cons_append, name, name, null, slash]
    split
    · rw [ih later]
    · rfl

theorem startsIdent_stops (chars : IsSelectorText s) : startsIdent (s ++ t) = startsIdent s := by
  cases s with
  | nil => rcases stops.cases with rfl | ⟨r, rfl⟩ | ⟨r, rfl⟩ <;> rfl
  | cons c s =>
    have slash : c ≠ '\\' := by
      rintro rfl
      cases chars '\\' List.mem_cons_self
    by_cases hyphen : c = '-'
    · subst hyphen
      cases s with
      | nil => rcases stops.cases with rfl | ⟨r, rfl⟩ | ⟨r, rfl⟩ <;> rfl
      | cons d s => rfl
    · simp [startsIdent, hyphen]

end Stops

theorem selector_exponent {s : List Char} (chars : IsSelectorText s) :
    IsSelectorText (Token.exponent s).2 := by
  have whole := exponent_source s
  exact fun c member => chars c (whole ▸ List.mem_append_right _ member)

theorem numberEnd_selector {s : List Char} (chars : IsSelectorText s) :
    numberEnd s = if startsIdent (exponent s).2 then
      ((exponent s).1 ++ (name (exponent s).2).source, (name (exponent s).2).rest) else exponent s := by
  refine numberEnd_other fun percent => ?_
  cases selector_exponent chars '%' (List.mem_of_mem_head? percent)

section Stops

variable {s t : List Char} (stops : Stops t) (chars : IsSelectorText s) (beyond : IsSelectorText t)
include stops chars beyond

theorem numberEnd_stops : numberEnd (s ++ t) = ((numberEnd s).1, (numberEnd s).2 ++ t) := by
  have rest := selector_exponent chars
  rw [numberEnd_selector (chars.append beyond), numberEnd_selector chars, exponent_stops stops]
  dsimp only
  rw [startsIdent_stops stops rest, name_stops stops rest]
  split <;> rfl

theorem fractional_stops : fractional (s ++ t) = ((fractional s).1, (fractional s).2 ++ t) := by
  obtain ⟨taken, left⟩ := digits_stops stops s
  have rest : IsSelectorText (s.dropWhile isDigit) := chars.subset (List.dropWhile_suffix _).subset
  unfold fractional
  rw [taken, left, numberEnd_stops stops rest beyond]

theorem numeric_stops : numeric (s ++ t) = ((numeric s).1, (numeric s).2 ++ t) := by
  obtain ⟨taken, left⟩ := digits_stops stops s
  have rest : IsSelectorText (fraction (s.dropWhile isDigit)).2 := by
    have whole := fraction_source (s.dropWhile isDigit)
    exact fun c member => chars c ((List.dropWhile_suffix _).subset (whole ▸ List.mem_append_right _ member))
  unfold numeric
  rw [taken, left, fraction_stops stops]
  dsimp only
  rw [numberEnd_stops stops rest beyond]

end Stops

/-- Up to a closing parenthesis and with it, or to the end. -/
def throughParen : List Char → List Char × List Char
  | [] => ([], [])
  | c :: s => if c = ')' then ([c], s) else (c :: (throughParen s).1, (throughParen s).2)

theorem throughParen_append (s t : List Char) :
    throughParen (s ++ t) = if ')' ∈ s then ((throughParen s).1, (throughParen s).2 ++ t)
      else (s ++ (throughParen t).1, (throughParen t).2) := by
  induction s with
  | nil => rfl
  | cons c s ih =>
    by_cases close : c = ')'
    · subst close
      simp [throughParen]
    · rw [List.cons_append, throughParen, if_neg close, ih, throughParen, if_neg close]
      have same : ')' ∈ c :: s ↔ ')' ∈ s := by simp [Ne.symm close]
      simp only [same]
      split <;> rfl

theorem badUrlTail_selector {s : List Char} (chars : IsSelectorText s) : badUrlTail s = throughParen s := by
  fun_induction badUrlTail s with
  | case1 => rfl
  | case2 s => rfl
  | case3 | case4 => cases chars '\\' List.mem_cons_self
  | case5 c s close _ _ body rest same ih =>
    have other : c ≠ ')' := by
      rintro rfl
      exact close rfl
    rw [throughParen, if_neg other, ← ih fun d later => chars d (List.mem_cons_of_mem c later), same]

theorem throughParen_blanks (s : List Char) : throughParen s =
    (s.takeWhile isAsciiBlank ++ (throughParen (s.dropWhile isAsciiBlank)).1,
      (throughParen (s.dropWhile isAsciiBlank)).2) := by
  have blanks : ')' ∉ s.takeWhile isAsciiBlank := by
    intro member
    cases List.all_eq_true.mp List.all_takeWhile _ member
  have split := throughParen_append (s.takeWhile isAsciiBlank) (s.dropWhile isAsciiBlank)
  rwa [List.takeWhile_append_dropWhile, if_neg blanks] at split

theorem urlEnd_selector {s : List Char} (chars : IsSelectorText s) : urlEnd s = throughParen s := by
  have rest : IsSelectorText (s.dropWhile isAsciiBlank) := chars.subset (List.dropWhile_suffix _).subset
  rw [throughParen_blanks]
  unfold urlEnd
  dsimp only
  split
  · rename_i none
    rw [none]
    simp [throughParen]
  · rename_i r close
    rw [close]
    rfl
  · rename_i c r close same
    have other : c ≠ ')' := by
      rintro rfl
      exact close rfl
    have later : IsSelectorText r := rest.subset (same ▸ List.subset_cons_self c r)
    rw [same, badUrlTail_selector later, throughParen, if_neg other]

theorem urlTail_selector {s : List Char} (chars : IsSelectorText s) : urlTail s = throughParen s := by
  fun_induction urlTail s with
  | case1 => rfl
  | case2 c r close => rw [throughParen, if_pos (eq_of_beq close)]
  | case3 c r _ _ => exact urlEnd_selector chars
  | case4 c r other _ _ body rest same =>
    have later : IsSelectorText r := chars.subset (List.subset_cons_self c r)
    rw [throughParen, if_neg (by simpa using other), ← badUrlTail_selector later, same]
  | case5 c r _ _ _ slash | case6 c r _ _ _ slash =>
    rw [eq_of_beq slash] at chars
    cases chars '\\' List.mem_cons_self
  | case7 c r other _ _ _ body rest same ih =>
    have later : IsSelectorText r := chars.subset (List.subset_cons_self c r)
    rw [throughParen, if_neg (by simpa using other), ← ih later, same]

/-- An address goes on to the first closing parenthesis. -/
theorem url?_selector {s : List Char} (chars : IsSelectorText s) : url? s = some (throughParen s) := by
  have rest : IsSelectorText (s.dropWhile isAsciiBlank) := chars.subset (List.dropWhile_suffix _).subset
  rw [throughParen_blanks]
  unfold url?
  dsimp only
  split
  · rename_i quote
    cases rest '"' (quote ▸ List.mem_cons_self)
  · rename_i quote
    cases rest '\'' (quote ▸ List.mem_cons_self)
  · rw [urlTail_selector rest]

section IdentLike

variable {s r : List Char}

theorem identLike_function (opening : (name s).rest = '(' :: r)
    (other : ¬ (identLike.toLower (name s).value == "url".toList) = true) :
    identLike s = (⟨.function (String.ofList (name s).value), (name s).source ++ ['(']⟩, r) := by
  rw [identLike_bracket opening, if_neg other]

theorem identLike_url (chars : IsSelectorText s) (opening : (name s).rest = '(' :: r)
    (address : (identLike.toLower (name s).value == "url".toList) = true) :
    identLike s = (⟨.url, (name s).source ++ '(' :: (throughParen r).1⟩, (throughParen r).2) := by
  have later : IsSelectorText r := by
    have whole := name_source s
    rw [opening] at whole
    exact fun c member => chars c (whole ▸ List.mem_append_right _ (List.mem_cons_of_mem _ member))
  rw [identLike_bracket opening, if_pos address, url?_selector later]

end IdentLike

/-- The token that `f` reads at the front of a text ends in it, whatever follows. -/
def Settles (f : List Char → Token × List Char) (s : List Char) : Prop :=
  ∀ t, Stops t → IsSelectorText t → f (s ++ t) = ((f s).1, (f s).2 ++ t)

/-- The token is an address that starts with `front` and takes what follows up to a closing parenthesis. -/
def Opens (f : List Char → Token × List Char) (s front : List Char) : Prop :=
  ∀ t, Stops t → IsSelectorText t → f (s ++ t) = (⟨.url, front ++ (throughParen t).1⟩, (throughParen t).2)

theorem identLike_stops {s : List Char} (chars : IsSelectorText s) :
    Settles identLike s ∨ Opens identLike s s := by
  by_cases plain : (name s).rest.head? ≠ some '('
  · refine .inl fun t stops _ => ?_
    have same := name_stops stops chars
    have plain' : ((name s).rest ++ t).head? ≠ some '(' := by
      cases rest : (name s).rest with
      | nil => rcases stops.cases with rfl | ⟨r, rfl⟩ | ⟨r, rfl⟩ <;> simp
      | cons c r => rwa [rest] at plain
    rw [identLike_other plain, identLike_other (by rwa [same]), same]
  · obtain ⟨r, opening⟩ := List.head?_eq_some_iff.mp (not_not.mp plain)
    have longer {t : List Char} (stops : Stops t) : (name (s ++ t)).rest = '(' :: (r ++ t) := by
      rw [name_stops stops chars, opening]
      rfl
    by_cases address : (identLike.toLower (name s).value == "url".toList) = true
    · have read {t : List Char} (stops : Stops t) (beyond : IsSelectorText t) : identLike (s ++ t) =
          (⟨.url, (name s).source ++ '(' :: (throughParen (r ++ t)).1⟩, (throughParen (r ++ t)).2) := by
        have same := name_stops stops chars
        rw [identLike_url (chars.append beyond) (longer stops) (by rwa [same]), same]
      by_cases closed : ')' ∈ r
      · refine .inl fun t stops beyond => ?_
        rw [read stops beyond, throughParen_append, if_pos closed, identLike_url chars opening address]
      · refine .inr fun t stops beyond => ?_
        have whole := name_source s
        rw [read stops beyond, throughParen_append, if_neg closed, ← List.cons_append, ← List.append_assoc,
          ← opening, whole]
    · refine .inl fun t stops _ => ?_
      have same := name_stops stops chars
      rw [identLike_function (longer stops) (by rwa [same]), identLike_function opening address, same]

/-- The marks that selectors are written with. -/
def selectorMarks : List Char := ['*', '~', '(', ')', '[', ']', ',', ':', '#', '+', '.', '-']

theorem mem_selectorMarks {c : Char} (chars : isSelectorChar c = true) (mark : c ∈ marks) :
    c ∈ selectorMarks := by
  have all : marks.all (fun c => !isSelectorChar c || selectorMarks.contains c) = true := by decide
  have known := List.all_eq_true.mp all c mark
  rw [chars] at known
  simpa using known

section Next

variable {s : List Char} (chars : IsSelectorText s)
include chars

theorem settles_paired {c : Char} (h : c = '*' ∨ c = '~') : Settles (next c) s := by
  intro t stops _
  cases s with
  | nil => rcases stops.cases with rfl | ⟨r, rfl⟩ | ⟨r, rfl⟩ <;> rcases h with rfl | rfl <;> rfl
  | cons d s =>
    by_cases second : d = '='
    · subst second
      rcases h with rfl | rfl <;> rfl
    · rcases h with rfl | rfl <;> simp [next, second]

theorem settles_hash : Settles (next '#') s := by
  intro t stops beyond
  have head : ((s ++ t).head? == some '-') = (s.head? == some '-') := by
    cases s with
    | nil => rcases stops.cases with rfl | ⟨r, rfl⟩ | ⟨r, rfl⟩ <;> rfl
    | cons d s => rfl
  simp only [next, startsIdent_stops stops chars, startsDigit_stops stops, head, name_stops stops chars]
  split <;> rfl

theorem settles_plus : Settles (next '+') s := by
  intro t stops beyond
  simp only [next, startsNumber_stops stops, numeric_stops stops chars beyond]
  split <;> rfl

theorem settles_point : Settles (next '.') s := by
  intro t stops beyond
  simp only [next, startsDigit_stops stops, fractional_stops stops chars beyond]
  split <;> rfl

/-- Where a token is an identifier or stands for its one character. -/
theorem settles_or_opens {c : Char} (here : isSelectorChar c = true)
    (read : ∀ t, Stops t → IsSelectorText t → next c (s ++ t) =
      if startsIdent (c :: (s ++ t)) then identLike (c :: (s ++ t)) else (⟨.delim c, [c]⟩, s ++ t)) :
    Settles (next c) s ∨ Opens (next c) s (c :: s) := by
  have whole : IsSelectorText (c :: s) := List.forall_mem_cons.mpr ⟨here, chars⟩
  have starts {t : List Char} (stops : Stops t) : startsIdent (c :: (s ++ t)) = startsIdent (c :: s) :=
    startsIdent_stops stops whole
  have alone : next c s = if startsIdent (c :: s) then identLike (c :: s) else (⟨.delim c, [c]⟩, s) := by
    simpa using read [] (by simp [Stops]) (by simp [IsSelectorText])
  by_cases ident : startsIdent (c :: s) = true
  · rcases identLike_stops whole with settles | opens
    · refine .inl fun t stops beyond => ?_
      rw [read t stops beyond, starts stops, alone, if_pos ident, if_pos ident]
      exact settles t stops beyond
    · refine .inr fun t stops beyond => ?_
      rw [read t stops beyond, starts stops, if_pos ident]
      exact opens t stops beyond
  · refine .inl fun t stops beyond => ?_
    rw [read t stops beyond, starts stops, alone, if_neg ident, if_neg ident]

theorem hyphen_settles : Settles (next '-') s ∨ Opens (next '-') s ('-' :: s) := by
  by_cases arrow : ∃ r, s = '-' :: '>' :: r
  · obtain ⟨r, rfl⟩ := arrow
    exact .inl fun t _ _ => rfl
  · have plain {t : List Char} (stops : Stops t) : ∀ r, s ++ t ≠ '-' :: '>' :: r := by
      intro r same
      rcases s with _ | ⟨a, _ | ⟨b, s⟩⟩
      · rcases stops.cases with rfl | ⟨r, rfl⟩ | ⟨r, rfl⟩ <;> cases same
      · rcases stops.cases with rfl | ⟨r, rfl⟩ | ⟨r, rfl⟩ <;> cases same
      · cases same
        exact arrow ⟨s, rfl⟩
    by_cases number : startsNumber s = true
    · refine .inl fun t stops beyond => ?_
      rw [next_hyphen (plain stops), next_hyphen fun r same => arrow ⟨r, same⟩, startsNumber_stops stops,
        if_pos number, if_pos number, numeric_stops stops chars beyond]
    · refine settles_or_opens chars rfl fun t stops beyond => ?_
      rw [next_hyphen (plain stops), startsNumber_stops stops, if_neg number]

theorem other_settles {c : Char} (here : isSelectorChar c = true) (plain : c ∉ marks)
    (blank : isAsciiBlank c = false) : Settles (next c) s ∨ Opens (next c) s (c :: s) := by
  have read (r : List Char) := next_of_not_mark plain r
  simp only [blank] at read
  by_cases digit : isDigit c = true
  · refine .inl fun t stops beyond => ?_
    simp [read, digit, numeric_stops stops chars beyond]
  · refine settles_or_opens chars here fun t _ _ => ?_
    simp [read, digit]

omit chars in
/-- A space that something solid follows. -/
theorem settles_space (solid : ∃ d ∈ s, isAsciiBlank d = false) : Settles (next ' ') s := by
  intro t _ _
  have cut : (s ++ t).takeWhile isAsciiBlank = s.takeWhile isAsciiBlank ∧
      (s ++ t).dropWhile isAsciiBlank = s.dropWhile isAsciiBlank ++ t := by
    induction s with
    | nil => simp at solid
    | cons d s ih =>
      by_cases blank : isAsciiBlank d = true
      · obtain ⟨e, member, other⟩ := solid
        have inside : e ∈ s := (List.mem_cons.mp member).resolve_left (by rintro rfl; simp [blank] at other)
        simp [blank, ih ⟨e, inside, other⟩]
      · simp [blank]
  rw [next_blank rfl, next_blank rfl, cut.1, cut.2]

end Next

/-- The token at the front of a text that does not end in a space. -/
theorem next_stops {c : Char} {s : List Char} (chars : IsSelectorText (c :: s))
    (solid : ∀ d ∈ (c :: s).getLast?, d ≠ ' ') : Settles (next c) s ∨ Opens (next c) s (c :: s) := by
  obtain ⟨here, later⟩ := List.forall_mem_cons.mp chars
  by_cases mark : c ∈ marks
  · have known := mem_selectorMarks here mark
    simp only [selectorMarks, List.mem_cons, List.not_mem_nil, or_false] at known
    rcases known with rfl | rfl | rfl | rfl | rfl | rfl | rfl | rfl | rfl | rfl | rfl | rfl
    · exact .inl (settles_paired later (.inl rfl))
    · exact .inl (settles_paired later (.inr rfl))
    · exact .inl fun t _ _ => rfl
    · exact .inl fun t _ _ => rfl
    · exact .inl fun t _ _ => rfl
    · exact .inl fun t _ _ => rfl
    · exact .inl fun t _ _ => rfl
    · exact .inl fun t _ _ => rfl
    · exact .inl (settles_hash later)
    · exact .inl (settles_plus later)
    · exact .inl (settles_point later)
    · exact hyphen_settles later
  · by_cases blank : isAsciiBlank c = true
    · have space : c = ' ' := by simpa [isAsciiBlank_of_isSelectorChar here] using blank
      subst space
      refine .inl (settles_space ?_)
      cases last : s.getLast? with
      | none =>
        rw [List.getLast?_eq_none_iff.mp last] at solid
        exact absurd rfl (solid ' ' rfl)
      | some d =>
        have member := List.mem_of_getLast? last
        have other : d ≠ ' ' := solid d (by simp [List.getLast?_cons, last])
        exact ⟨d, member, by simpa [isAsciiBlank_of_isSelectorChar (later d member)] using other⟩
    · exact other_settles later here mark (by simpa using blank)

/-- A text that does not end in a space has tokens of its own before a space and before a comma, or it
breaks off inside of an address. -/
theorem scan_stops {s : List Char} (chars : IsSelectorText s) (solid : ∀ d ∈ s.getLast?, d ≠ ' ') :
    (∀ t, Stops t → IsSelectorText t → scan (s ++ t) = scan s ++ scan t) ∨
      ∃ ts front, front ≠ [] ∧ flat ts ++ front = s ∧ ∀ t, Stops t → IsSelectorText t →
        scan (s ++ t) = ts ++ ⟨.url, front ++ (throughParen t).1⟩ :: scan (throughParen t).2 := by
  induction size : s.length using Nat.strongRecOn generalizing s with
  | _ n ih =>
    cases s with
    | nil => exact .inl fun t _ _ => by rw [List.nil_append, scan, List.nil_append]
    | cons c s =>
      rcases next_stops chars solid with settles | opens
      · have source := next_source c s
        have shorter := length_next_le c s
        have suffix : (next c s).2 <:+ c :: s := ⟨_, source⟩
        have last : ∀ d ∈ (next c s).2.getLast?, d ≠ ' ' := by
          intro d hd
          refine solid d ?_
          rw [← source, List.getLast?_append, hd]
          rfl
        rw [List.length_cons] at size
        rcases ih _ (by omega) (chars.subset suffix.subset) last rfl with apart | ⟨ts, front, filled, flat, opened⟩
        · refine .inl fun t stops beyond => ?_
          rw [List.cons_append, scan, settles t stops beyond, apart t stops beyond, scan]
          rfl
        · refine .inr ⟨(next c s).1 :: ts, front, filled, ?_, fun t stops beyond => ?_⟩
          · rw [flat_cons, List.append_assoc, flat, source]
          · rw [List.cons_append, scan, settles t stops beyond, opened t stops beyond]
            rfl
      · refine .inr ⟨[], c :: s, by simp, rfl, fun t stops beyond => ?_⟩
        rw [List.cons_append, scan, opens t stops beyond]
        rfl

/-- How commas and semicolons are written, and what may stand in front of a selector. -/
def Separates (t : Token) : Prop :=
  match t.kind with
  | .comma => t.source = [',']
  | .semicolon => t.source = [';']
  | .space => ∀ c ∈ t.source, isAsciiBlank c = true
  | .comment => '/' ∈ t.source
  | _ => True

theorem identLike_separates (s : List Char) : Separates (identLike s).1 := by
  unfold identLike
  dsimp only
  split
  · split
    · split <;> trivial
    · trivial
  · trivial

theorem next_separates (c : Char) (s : List Char) : Separates (next c s).1 := by
  unfold next
  dsimp only
  split
  case h_3 => split <;> trivial
  case h_4 | h_5 | h_6 | h_7 | h_8 =>
    split
    · split <;> trivial
    · trivial
  case h_15 | h_17 => exact rfl
  case h_18 => split <;> trivial
  case h_19 => split <;> trivial
  case h_20 =>
    split
    · trivial
    · split
      · trivial
      · split
        · exact identLike_separates _
        · trivial
  case h_21 =>
    split
    · exact List.mem_cons_self
    · trivial
  case h_22 => split <;> trivial
  case h_23 => split <;> trivial
  case h_24 =>
    split
    · rename_i blank
      exact List.forall_mem_cons.mpr ⟨blank, List.all_eq_true.mp List.all_takeWhile⟩
    · split
      · trivial
      · split
        · exact identLike_separates _
        · trivial
  all_goals trivial

theorem separates_of_mem_scan {s : List Char} {t : Token} (member : t ∈ scan s) : Separates t := by
  fun_induction scan s with
  | case1 => cases member
  | case2 c r ih =>
    rcases List.mem_cons.mp member with rfl | later
    · exact next_separates c r
    · exact ih later

/-- Where tokens meet in a text decides which tokens stand before. -/
theorem append_inj_of_flat {ts us vs ws : List Token} {t u : Token} (same : ts ++ t :: vs = us ++ u :: ws)
    (flat_eq : flat ts = flat us) (filled : t.source ≠ []) (filled' : u.source ≠ []) : ts = us := by
  rcases List.append_eq_append_iff.mp same with ⟨gap, rfl, split⟩ | ⟨gap, rfl, split⟩
  · cases gap with
    | nil => simp
    | cons v gap =>
      cases split
      simp [filled] at flat_eq
  · cases gap with
    | nil => simp
    | cons v gap =>
      cases split
      simp [filled'] at flat_eq

theorem scan_comma (s : List Char) : scan (',' :: s) = ⟨.comma, [',']⟩ :: scan s := by
  rw [scan]
  rfl

/-- The spaces before something solid are one token. -/
theorem scan_space {b s : List Char} (blank : ∀ c ∈ b, c = ' ') (solid : ∀ c ∈ s.head?, isAsciiBlank c = false) :
    scan (' ' :: (b ++ s)) = ⟨.space, ' ' :: b⟩ :: scan s := by
  have all : ∀ c ∈ b, isAsciiBlank c = true := by
    intro c member
    rw [blank c member]
    rfl
  rw [scan, next_blank rfl, List.takeWhile_append_of_pos all, List.dropWhile_append_of_pos all]
  cases s with
  | nil => simp
  | cons d s => simp [solid d rfl]

theorem scan_spaces {b s : List Char} (blank : ∀ c ∈ b, c = ' ') (solid : ∀ c ∈ s.head?, isAsciiBlank c = false) :
    ∃ gap, scan (b ++ s) = gap ++ scan s ∧ flat gap = b ∧ ∀ t ∈ gap, t.kind = .space := by
  cases b with
  | nil => exact ⟨[], rfl, rfl, by simp⟩
  | cons c b =>
    obtain ⟨rfl, later⟩ := List.forall_mem_cons.mp blank
    exact ⟨[⟨.space, ' ' :: b⟩], scan_space later solid, by simp, by simp⟩

end Token

end Stencil.Style
