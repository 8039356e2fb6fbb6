import Stencil.Proofs.Lists
import Stencil.Proofs.Words
import Stencil.Style.Token

/-! Tokens cover the text: what a token takes and what it leaves concatenate to the text it was read
from, and so do the tokens of a text. -/
namespace Stencil.Style

namespace Token

open Text

theorem oneSpace_source (s : List Char) : (oneSpace s).1 ++ (oneSpace s).2 = s := by
  unfold oneSpace
  split
  · rfl
  · split <;> rfl
  · rfl

theorem hexDigits_append (s : List Char) :
    (s.take 6).takeWhile isHex ++ s.drop ((s.take 6).takeWhile isHex).length = s := by
  have initial : (s.take 6).takeWhile isHex <+: s :=
    (List.takeWhile_prefix _).trans (List.take_prefix _ _)
  exact List.prefix_iff_eq_append.1 initial

theorem escape_source (s : List Char) : (escape s).source ++ (escape s).rest = s := by
  unfold escape
  split
  · rfl
  · split
    · rename_i c r _
      dsimp only
      rw [List.append_assoc, oneSpace_source, hexDigits_append]
    · rfl

theorem name_source (s : List Char) : (name s).source ++ (name s).rest = s := by
  fun_induction name s with
  | case1 => rfl
  | case2 c r _ n ih => exact congrArg (c :: ·) ih
  | case3 c r _ _ n ih => exact congrArg (c :: ·) ih
  | case4 c r _ _ _ e n ih =>
    show c :: (e.source ++ n.source) ++ n.rest = c :: r
    rw [List.cons_append, List.append_assoc, ih, escape_source]
  | case5 => rfl

theorem commentTail_source (s : List Char) : (commentTail s).1 ++ (commentTail s).2 = s := by
  fun_induction commentTail s with
  | case1 => rfl
  | case2 c s _ body rest h ih => rw [h] at ih; exact congrArg (c :: ·) ih
  | case3 => rfl

theorem stringTail_source (quote : Char) (s : List Char) :
    (stringTail quote s).1 ++ (stringTail quote s).2 = s := by
  fun_induction stringTail quote s with
  | case1 => rfl
  | case2 => rfl
  | case3 => rfl
  | case4 c r _ _ _ e body rest h ih =>
    rw [h] at ih
    have covered : e.source ++ e.rest = r := by
      simp only [e]
      split
      · exact oneSpace_source r
      · exact escape_source r
    show c :: (e.source ++ body) ++ rest = c :: r
    rw [List.cons_append, List.append_assoc, ih, covered]
  | case5 c r _ _ _ body rest h ih => rw [h] at ih; exact congrArg (c :: ·) ih

theorem badUrlTail_source (s : List Char) : (badUrlTail s).1 ++ (badUrlTail s).2 = s := by
  fun_induction badUrlTail s <;> simp_all

theorem urlEnd_source (s : List Char) : (urlEnd s).1 ++ (urlEnd s).2 = s := by
  have whole := List.takeWhile_append_dropWhile (p := isAsciiBlank) (l := s)
  unfold urlEnd
  dsimp only
  split
  · rename_i h; rw [h] at whole; exact whole
  · rename_i rest h; rw [h] at whole; simpa using whole
  · rename_i c r _ h
    rw [h] at whole
    simpa [badUrlTail_source] using whole

theorem urlTail_source (s : List Char) : (urlTail s).1 ++ (urlTail s).2 = s := by
  fun_induction urlTail s with
  | case1 => rfl
  | case2 => rfl
  | case3 c r _ _ => exact urlEnd_source (c :: r)
  | case4 c r _ _ _ body rest h =>
    have := badUrlTail_source r
    rw [h] at this; exact congrArg (c :: ·) this
  | case5 c r _ _ _ _ _ body rest h =>
    have := badUrlTail_source r
    rw [h] at this; exact congrArg (c :: ·) this
  | case6 c r _ _ _ _ _ e body rest h ih =>
    rw [h] at ih
    show c :: (e.source ++ body) ++ rest = c :: r
    rw [List.cons_append, List.append_assoc, ih, escape_source]
  | case7 c r _ _ _ _ body rest h ih => rw [h] at ih; exact congrArg (c :: ·) ih

theorem url?_source {s body rest : List Char} (h : url? s = some (body, rest)) : body ++ rest = s := by
  have whole := List.takeWhile_append_dropWhile (p := isAsciiBlank) (l := s)
  unfold url? at h
  dsimp only at h
  split at h
  · cases h
  · cases h
  · obtain ⟨rfl, rfl⟩ := Prod.mk.inj (Option.some.inj h)
    rw [List.append_assoc, urlTail_source, whole]

theorem identLike_source (s : List Char) : (identLike s).1.source ++ (identLike s).2 = s := by
  have whole := name_source s
  unfold identLike
  dsimp only
  split
  · rename_i r hr
    rw [hr] at whole
    split
    · split
      · rename_i hu
        show (name s).source ++ '(' :: _ ++ _ = s
        rw [List.append_assoc, List.cons_append, url?_source hu, whole]
      · simpa using whole
    · simpa using whole
  · exact whole

theorem fraction_source (s : List Char) : (fraction s).1 ++ (fraction s).2 = s := by
  unfold fraction
  split
  · split
    · exact congrArg ('.' :: ·) List.takeWhile_append_dropWhile
    · rfl
  · rfl

theorem exponent_source (s : List Char) : (exponent s).1 ++ (exponent s).2 = s := by
  unfold exponent
  split
  · split
    · split
      · split
        · exact congrArg (_ :: ·) List.takeWhile_append_dropWhile
        · split
          · exact congrArg (_ :: _ :: ·) List.takeWhile_append_dropWhile
          · rfl
      · rfl
    · rfl
  · rfl

theorem numberEnd_source (s : List Char) : (numberEnd s).1 ++ (numberEnd s).2 = s := by
  have whole := exponent_source s
  unfold numberEnd
  dsimp only
  split
  · rename_i rest h; rw [h] at whole; simpa using whole
  · split
    · rw [List.append_assoc, name_source, whole]
    · exact whole

theorem numeric_source (s : List Char) : (numeric s).1 ++ (numeric s).2 = s := by
  unfold numeric
  dsimp only
  rw [List.append_assoc, numberEnd_source, List.append_assoc, fraction_source,
    List.takeWhile_append_dropWhile]

theorem fractional_source (s : List Char) : (fractional s).1 ++ (fractional s).2 = s := by
  unfold fractional
  dsimp only
  rw [List.append_assoc, numberEnd_source, List.takeWhile_append_dropWhile]

/-- The characters that tokens of their own start with. -/
def marks : List Char :=
  ['"', '\'', '$', '*', '^', '|', '~', '(', ')', '[', ']', '\x7b', '\x7d', ',', ':', ';', '#', '+', '.',
    '-', '/', '<', '@']

theorem next_of_not_mark {c : Char} (other : c ∉ marks) (s : List Char) :
    next c s =
      if isAsciiBlank c then (⟨.space, c :: s.takeWhile isAsciiBlank⟩, s.dropWhile isAsciiBlank)
      else if isDigit c then (⟨.number, c :: (numeric s).1⟩, (numeric s).2)
      else if startsIdent (c :: s) then identLike (c :: s)
      else (⟨.delim c, [c]⟩, s) := by
  unfold next
  dsimp only
  split
  case h_24 => rfl
  all_goals exact absurd (by decide) other

theorem next_source (c : Char) (s : List Char) : (next c s).1.source ++ (next c s).2 = c :: s := by
  unfold next
  dsimp only
  split
  case h_1 => exact congrArg (_ :: ·) (stringTail_source _ s)
  case h_2 => exact congrArg (_ :: ·) (stringTail_source _ s)
  case h_3 =>
    split
    · exact congrArg (_ :: ·) (name_source s)
    · rfl
  case h_18 =>
    split
    · exact congrArg (_ :: ·) (numeric_source s)
    · rfl
  case h_19 =>
    split
    · exact congrArg (_ :: ·) (fractional_source s)
    · rfl
  case h_20 =>
    split
    · exact congrArg (_ :: ·) (numeric_source s)
    · split
      · rfl
      · split
        · exact identLike_source _
        · rfl
  case h_21 =>
    split
    · exact congrArg (_ :: _ :: ·) (commentTail_source _)
    · rfl
  case h_22 => split <;> rfl
  case h_23 =>
    split
    · exact congrArg (_ :: ·) (name_source s)
    · rfl
  case h_24 =>
    split
    · exact congrArg (c :: ·) List.takeWhile_append_dropWhile
    · split
      · exact congrArg (c :: ·) (numeric_source s)
      · split
        · exact identLike_source _
        · rfl
  case h_4 | h_5 | h_6 | h_7 | h_8 =>
    split
    · split <;> rfl
    · rfl
  all_goals rfl

theorem next_source_head (c : Char) (s : List Char) : (next c s).1.source.head? = some c := by
  have whole := next_source c s
  have shorter := length_next_le c s
  cases taken : (next c s).1.source with
  | nil =>
    rw [taken, List.nil_append] at whole
    rw [whole] at shorter
    exact absurd shorter (Nat.not_succ_le_self _)
  | cons d r =>
    rw [taken] at whole
    exact congrArg some (List.cons.inj whole).1

/-- The tokens of a text, written one after the other. -/
def flat (ts : List Token) : List Char := ts.flatMap (·.source)

@[simp] theorem flat_nil : flat [] = [] := rfl

@[simp] theorem flat_cons (t : Token) (ts : List Token) : flat (t :: ts) = t.source ++ flat ts := rfl

@[simp] theorem flat_append (ts us : List Token) : flat (ts ++ us) = flat ts ++ flat us :=
  List.flatMap_append

theorem flat_scan (s : List Char) : flat (scan s) = s := by
  fun_induction scan s with
  | case1 => rfl
  | case2 c r ih => rw [flat_cons, ih, next_source]

/-- The tokens from some point of a text on are the tokens of what stands there. -/
theorem scan_of_append {s : List Char} {front back : List Token} (h : scan s = front ++ back) :
    scan (flat back) = back := by
  induction front generalizing s with
  | nil => rw [List.nil_append] at h; rw [← h, flat_scan]
  | cons t front ih =>
    cases s with
    | nil => rw [scan] at h; cases h
    | cons c r =>
      rw [scan] at h
      exact ih (List.cons.inj h).2

def opener : Bracket → Char
  | .paren => '('
  | .square => '['
  | .curly => '\x7b'

/-- How the kinds that a reader looks at are written. -/
def Written (t : Token) : Prop :=
  match t.kind with
  | .ident n => ∃ s, n = String.ofList (name s).value ∧ t.source = (name s).source
  | .atKeyword n => ∃ s, n = String.ofList (name s).value ∧ t.source = '@' :: (name s).source
  | .function _ => '(' ∈ t.source
  | .opening b => t.source = [opener b]
  | .colon => t.source = [':']
  | .commentOpen => t.source = ['<', '!', '-', '-']
  | .commentClose => t.source = ['-', '-', '>']
  | _ => True

theorem identLike_written (s : List Char) : Written (identLike s).1 := by
  have bracket (r : List Char) : '(' ∈ r ++ ['('] := List.mem_append_right _ (List.mem_singleton_self _)
  unfold identLike
  dsimp only
  split
  · split
    · split
      · trivial
      · exact bracket _
    · exact bracket _
  · exact ⟨s, rfl, rfl⟩

theorem next_written (c : Char) (s : List Char) : Written (next c s).1 := by
  unfold next
  dsimp only
  split
  case h_3 => split <;> trivial
  case h_4 | h_5 | h_6 | h_7 | h_8 =>
    split
    · split <;> trivial
    · trivial
  case h_9 | h_11 | h_13 => exact rfl
  case h_16 => exact rfl
  case h_18 => split <;> trivial
  case h_19 => split <;> trivial
  case h_20 =>
    split
    · trivial
    · split
      · exact rfl
      · split
        · exact identLike_written _
        · trivial
  case h_21 => split <;> trivial
  case h_22 =>
    split
    · exact rfl
    · trivial
  case h_23 =>
    split
    · exact ⟨s, rfl, rfl⟩
    · trivial
  case h_24 =>
    split
    · trivial
    · split
      · trivial
      · split
        · exact identLike_written _
        · trivial
  all_goals trivial

theorem next_blank {c : Char} (blank : isAsciiBlank c = true) (s : List Char) :
    next c s = (⟨.space, c :: s.takeWhile isAsciiBlank⟩, s.dropWhile isAsciiBlank) := by
  have other : c ∉ marks := by
    intro mark
    have : marks.all (!isAsciiBlank ·) = true := by decide
    have plain := List.all_eq_true.1 this c mark
    rw [blank] at plain
    cases plain
  rw [next_of_not_mark other, if_pos blank]

/-- An identifier without escapes. -/
structure Plain (n : List Char) : Prop where
  start : startsIdent n = true
  chars : ∀ c ∈ n, isNameChar c = true

theorem isDigit_of_startsName {c : Char} (h : startsName c = true) : isDigit c = false := by
  rw [Bool.eq_false_iff]
  intro digit
  simp only [isDigit, Bool.and_eq_true, decide_eq_true_eq, Char.le_def, UInt32.le_iff_toNat_le] at digit
  obtain ⟨low, high⟩ := digit
  have low : 48 ≤ c.toNat := low
  have high : c.toNat ≤ 57 := high
  simp only [startsName, isNonAscii, Bool.or_eq_true, decide_eq_true_eq, beq_iff_eq, Text.isAlpha_iff,
    Text.isUpper_iff, Text.isLower_iff] at h
  rcases h with (((⟨h, -⟩ | ⟨h, -⟩) | rfl) | rfl) | h
  · omega
  · omega
  · revert high; decide
  · revert low; decide
  · omega

theorem isAsciiBlank_of_startsName {c : Char} (h : startsName c = true) : isAsciiBlank c = false := by
  rw [Bool.eq_false_iff]
  intro blank
  simp only [isAsciiBlank, Bool.or_eq_true, beq_iff_eq] at blank
  rcases blank with (((rfl | rfl) | rfl) | rfl) | rfl <;> cases h

theorem startsIdent_cons {c : Char} (h : startsName c = true) (s : List Char) : startsIdent (c :: s) = true := by
  have hyphen : c ≠ '-' := by rintro rfl; cases h
  have slash : c ≠ '\\' := by rintro rfl; cases h
  simp [startsIdent, hyphen, h]

/-- An identifier starts with a letter, perhaps behind a hyphen, or with two hyphens. -/
theorem Plain.head {n : List Char} (plain : Plain n) :
    (∃ c r, n = c :: r ∧ startsName c = true) ∨
      ∃ d r, n = '-' :: d :: r ∧ (startsName d = true ∨ d = '-') := by
  obtain ⟨start, chars⟩ := plain
  cases n with
  | nil => cases start
  | cons c n =>
    by_cases hyphen : c = '-'
    · subst hyphen
      cases n with
      | nil => cases start
      | cons d n =>
        have slash : d ≠ '\\' := by
          rintro rfl
          cases chars '\\' (by simp)
        simp only [startsIdent, Bool.or_eq_true, beq_iff_eq, slash, or_false] at start
        exact .inr ⟨d, n, rfl, start⟩
    · have slash : c ≠ '\\' := by
        rintro rfl
        cases chars '\\' (by simp)
      exact .inl ⟨c, n, rfl, by simpa [startsIdent, hyphen] using start⟩

theorem Plain.startsIdent {n : List Char} (plain : Plain n) (s : List Char) :
    startsIdent (n ++ s) = true := by
  rcases plain.head with ⟨c, r, rfl, hc⟩ | ⟨d, r, rfl, hd | rfl⟩
  · exact startsIdent_cons hc _
  · simp [Token.startsIdent, hd]
  · rfl

theorem Plain.solid {n : List Char} (plain : Plain n) (s : List Char) :
    ∀ c ∈ (n ++ s).head?, isAsciiBlank c = false := by
  intro c hc
  rcases plain.head with ⟨d, r, rfl, hd⟩ | ⟨d, r, rfl, -⟩
  · obtain rfl := Option.some.inj hc
    exact isAsciiBlank_of_startsName hd
  · obtain rfl := Option.some.inj hc
    rfl

variable {n s : List Char} {d : Char}

theorem name_append (chars : ∀ c ∈ n, isNameChar c = true) (ends : d = ' ' ∨ d = ';' ∨ d = ':') :
    name (n ++ d :: s) = ⟨n, n, d :: s⟩ := by
  induction n with
  | nil =>
    rw [List.nil_append, name]
    rcases ends with rfl | rfl | rfl <;> rfl
  | cons c n ih =>
    rw [List.forall_mem_cons] at chars
    rw [List.cons_append, name, if_pos chars.1, ih chars.2]

theorem identLike_plain (plain : Plain n) (ends : d = ' ' ∨ d = ';' ∨ d = ':') :
    identLike (n ++ d :: s) = (⟨.ident (String.ofList n), n⟩, d :: s) := by
  unfold identLike
  rw [name_append plain.chars ends]
  rcases ends with rfl | rfl | rfl <;> rfl

theorem scan_brace (s : List Char) : scan ('\x7b' :: s) = ⟨.opening .curly, ['\x7b']⟩ :: scan s := by
  rw [scan]
  rfl

theorem scan_semicolon (s : List Char) : scan (';' :: s) = ⟨.semicolon, [';']⟩ :: scan s := by
  rw [scan]
  rfl

theorem scan_closing (s : List Char) : scan ('\x7d' :: s) = ⟨.closing .curly, ['\x7d']⟩ :: scan s := by
  rw [scan]
  rfl

theorem scan_colon (s : List Char) : scan (':' :: s) = ⟨.colon, [':']⟩ :: scan s := by
  rw [scan]
  rfl

theorem scan_blank {c : Char} (blank : isAsciiBlank c = true) (s : List Char)
    (solid : ∀ d ∈ s.head?, isAsciiBlank d = false) : scan (c :: s) = ⟨.space, [c]⟩ :: scan s := by
  rw [scan, next_blank blank]
  cases s with
  | nil => rfl
  | cons d s =>
    have solid := solid d rfl
    rw [List.takeWhile_cons_of_neg (by simp [solid]), List.dropWhile_cons_of_neg (by simp [solid])]

theorem scan_at (plain : Plain n) (ends : d = ' ' ∨ d = ';' ∨ d = ':') :
    scan ('@' :: (n ++ d :: s)) = ⟨.atKeyword (String.ofList n), '@' :: n⟩ :: scan (d :: s) := by
  rw [scan]
  simp only [next, plain.startsIdent, name_append plain.chars ends, if_true]

theorem scan_ident (plain : Plain n) (ends : d = ' ' ∨ d = ';' ∨ d = ':') :
    scan (n ++ d :: s) = ⟨.ident (String.ofList n), n⟩ :: scan (d :: s) := by
  have ident := identLike_plain (s := s) plain ends
  have start := plain.startsIdent (d :: s)
  have read {c : Char} {r : List Char} (h : next c (r ++ d :: s) = identLike (c :: (r ++ d :: s))) (hn : n = c :: r) :
      scan (n ++ d :: s) = ⟨.ident (String.ofList n), n⟩ :: scan (d :: s) := by
    subst hn
    rw [List.cons_append] at ident ⊢
    rw [scan, h, ident]
  rcases plain.head with ⟨c, r, rfl, hc⟩ | ⟨e, r, rfl, he⟩
  · have mark : c ∉ marks := by
      intro h
      have : marks.all (!startsName ·) = true := by decide
      have plain := List.all_eq_true.1 this c h
      rw [hc] at plain
      cases plain
    have solid : isAsciiBlank c = false := isAsciiBlank_of_startsName hc
    refine read ?_ rfl
    rw [next_of_not_mark mark, solid, isDigit_of_startsName hc, if_neg (by decide), if_neg (by decide)]
    exact if_pos start
  · refine read ?_ rfl
    have number : startsNumber (e :: (r ++ d :: s)) = false := by
      rcases he with he | rfl
      · have point : e ≠ '.' := by rintro rfl; cases he
        simp [startsNumber, point, startsDigit, isDigit_of_startsName he]
      · rfl
    have comment (rest : List Char) : e :: (r ++ d :: s) ≠ '-' :: '>' :: rest := by
      intro h
      have second := (List.cons.inj h).2
      cases r with
      | nil => rcases ends with rfl | rfl | rfl <;> cases second
      | cons f r =>
        obtain ⟨rfl, -⟩ := List.cons.inj second
        cases plain.chars '>' (by simp)
    simp only [next, List.cons_append, number]
    rw [if_neg (by decide)]
    exact if_pos start

end Token

end Stencil.Style
