import Stencil.Text.Blank

/-! Stylesheet tokens. A token keeps the source characters it was read from, so the tokens of a text
concatenate to the text; names also carry their value with escapes undone. The text is not preprocessed:
a line ends at a line feed, a form feed, a carriage return or the pair of carriage return and line feed,
and a null character inside a name counts as the replacement character. -/
namespace Stencil.Style

open Text

inductive Bracket where
  | paren
  | square
  | curly
  deriving DecidableEq, Repr

namespace Token

inductive Kind where
  | ident (name : String)
  | function (name : String)
  | atKeyword (name : String)
  | hash (name : String)
  | string
  | url
  | number
  | space
  | comment
  | colon
  | semicolon
  | comma
  | opening (bracket : Bracket)
  | closing (bracket : Bracket)
  | commentOpen
  | commentClose
  | attributeMatch
  | delim (c : Char)
  deriving DecidableEq, Repr

end Token

structure Token where
  kind : Token.Kind
  source : List Char
  deriving DecidableEq, Repr

namespace Token

/-- A value read from the front of the input: the characters it took, and what follows them. -/
structure Taken (α : Type) where
  value : α
  source : List Char
  rest : List Char

def replacement : Char := '�'

def isNewline (c : Char) : Bool := c == '\n' || c == '\r' || c == '\x0c'

def startsNewline : List Char → Bool
  | c :: _ => isNewline c
  | [] => false

def isNonAscii (c : Char) : Bool := 0x80 ≤ c.toNat

def isDigit (c : Char) : Bool := '0' ≤ c && c ≤ '9'

def isHex (c : Char) : Bool :=
  isDigit c || ('a' ≤ c && c ≤ 'f') || ('A' ≤ c && c ≤ 'F')

/-- Characters that can start a name; the null character stands for the replacement character. -/
def startsName (c : Char) : Bool := c.isAlpha || c == '_' || c == '\x00' || isNonAscii c

/-- Characters that stand for themselves inside a name. -/
def isNameChar (c : Char) : Bool := c.isAlphanum || c == '_' || c == '-' || isNonAscii c

/-- Whether an identifier starts here. After a hyphen every backslash counts as an escape. -/
def startsIdent : List Char → Bool
  | '-' :: c :: _ => startsName c || c == '-' || c == '\\'
  | '\\' :: s => !startsNewline s
  | c :: _ => startsName c
  | [] => false

def startsDigit : List Char → Bool
  | c :: _ => isDigit c
  | [] => false

/-- Digits, or a point and digits. -/
def startsNumber : List Char → Bool
  | '.' :: s => startsDigit s
  | s => startsDigit s

def hexValue (ds : List Char) : Nat :=
  ds.foldl (fun n c =>
    n * 16 + (if isDigit c then c.toNat - 48 else if 'a' ≤ c then c.toNat - 87 else c.toNat - 55)) 0

/-- The character with this number; zero, surrogates and numbers beyond Unicode have none. -/
def charOf (n : Nat) : Char :=
  if n == 0 || !(n.isValidChar : Bool) then replacement else Char.ofNat n

/-- One space or line end, as it may follow a hexadecimal escape. -/
def oneSpace : List Char → List Char × List Char
  | '\r' :: '\n' :: s => (['\r', '\n'], s)
  | c :: s => if isAsciiBlank c then ([c], s) else ([], c :: s)
  | [] => ([], [])

/-- An escape, after its backslash: up to six hexadecimal digits and one space, or any one character.
At the end of the input it is the replacement character. -/
def escape (s : List Char) : Taken Char :=
  match s with
  | [] => ⟨replacement, [], []⟩
  | c :: r =>
    if isHex c then
      let digits := (s.take 6).takeWhile isHex
      let (space, rest) := oneSpace (s.drop digits.length)
      ⟨charOf (hexValue digits), digits ++ space, rest⟩
    else ⟨if c == '\x00' then replacement else c, [c], r⟩

theorem length_oneSpace_le (s : List Char) : (oneSpace s).2.length ≤ s.length := by
  unfold oneSpace
  split
  · simp; omega
  · split <;> simp
  · simp

theorem length_escape_le (s : List Char) : (escape s).rest.length ≤ s.length := by
  unfold escape
  split
  · simp
  · split
    · rename_i c r _
      have := length_oneSpace_le (List.drop (((c :: r).take 6).takeWhile isHex).length (c :: r))
      rw [List.length_drop] at this
      exact Nat.le_trans this (Nat.sub_le _ _)
    · simp

/-- A name, as far as it goes. -/
def name (s : List Char) : Taken (List Char) :=
  match s with
  | [] => ⟨[], [], []⟩
  | c :: r =>
    if isNameChar c then
      let n := name r
      ⟨c :: n.value, c :: n.source, n.rest⟩
    else if c == '\x00' then
      let n := name r
      ⟨replacement :: n.value, c :: n.source, n.rest⟩
    else if c == '\\' && !startsNewline r then
      let e := escape r
      let n := name e.rest
      ⟨e.value :: n.value, c :: e.source ++ n.source, n.rest⟩
    else ⟨[], [], s⟩
termination_by s.length
decreasing_by
  · simp
  · simp
  · have := length_escape_le r
    simp; omega

theorem length_name_le (s : List Char) : (name s).rest.length ≤ s.length := by
  fun_induction name s with
  | case1 => simp
  | case2 c r _ n ih => exact Nat.le_succ_of_le ih
  | case3 c r _ _ n ih => exact Nat.le_succ_of_le ih
  | case4 c r _ _ _ e n ih => exact Nat.le_succ_of_le (Nat.le_trans ih (length_escape_le r))
  | case5 => simp

/-- The rest of a comment after its opening, to the first closing or the end. -/
def commentTail : List Char → List Char × List Char
  | '*' :: '/' :: s => (['*', '/'], s)
  | c :: s => let (body, rest) := commentTail s; (c :: body, rest)
  | [] => ([], [])

theorem length_commentTail_le (s : List Char) : (commentTail s).2.length ≤ s.length := by
  fun_induction commentTail s with
  | case1 => simp; omega
  | case2 c s _ body rest h ih => simp_all; omega
  | case3 => simp

/-- The rest of a string after its opening quote: to the closing quote, to the end, or up to a line end
that no backslash precedes, which stays outside. -/
def stringTail (quote : Char) (s : List Char) : List Char × List Char :=
  match s with
  | [] => ([], [])
  | c :: r =>
    if c == quote then ([c], r)
    else if isNewline c then ([], s)
    else if c == '\\' then
      let e : Taken Char :=
        if startsNewline r then let (space, rest) := oneSpace r; ⟨replacement, space, rest⟩
        else escape r
      let (body, rest) := stringTail quote e.rest
      (c :: e.source ++ body, rest)
    else let (body, rest) := stringTail quote r; (c :: body, rest)
termination_by s.length
decreasing_by
  · have h1 := length_escape_le r
    have h2 := length_oneSpace_le r
    simp only [List.length_cons]
    split
    · exact Nat.lt_succ_of_le h2
    · exact Nat.lt_succ_of_le h1
  · simp

theorem length_stringTail_le (quote : Char) (s : List Char) :
    (stringTail quote s).2.length ≤ s.length := by
  fun_induction stringTail quote s with
  | case1 => simp
  | case2 => simp
  | case3 => simp
  | case4 c r _ _ _ e body rest h ih =>
    have h1 := length_escape_le r
    have h2 := length_oneSpace_le r
    have h3 : e.rest.length ≤ r.length := by
      simp only [e]
      split
      · exact h2
      · exact h1
    rw [h] at ih
    simp only [List.length_cons] at ih ⊢
    omega
  | case5 c r _ _ _ body rest h ih => simp_all; omega

/-- The rest of an address that cannot be one, to its closing bracket. -/
def badUrlTail : List Char → List Char × List Char
  | [] => ([], [])
  | ')' :: s => ([')'], s)
  | '\\' :: ')' :: s => let (body, rest) := badUrlTail s; ('\\' :: ')' :: body, rest)
  | '\\' :: '\\' :: s => let (body, rest) := badUrlTail s; ('\\' :: '\\' :: body, rest)
  | c :: s => let (body, rest) := badUrlTail s; (c :: body, rest)

/-- Characters that cannot stand unescaped in an unquoted address. -/
def endsUrl (c : Char) : Bool :=
  c == '"' || c == '\'' || c == '(' || c == '\x7f' || c == '\x0b' ||
    (1 ≤ c.toNat && c.toNat ≤ 8) || (0x0e ≤ c.toNat && c.toNat ≤ 0x1f)

/-- What follows the spaces inside an unquoted address: only the closing bracket may. -/
def urlEnd (s : List Char) : List Char × List Char :=
  let spaces := s.takeWhile isAsciiBlank
  match s.dropWhile isAsciiBlank with
  | [] => (spaces, [])
  | ')' :: rest => (spaces ++ [')'], rest)
  | c :: r => let (body, rest) := badUrlTail r; (spaces ++ c :: body, rest)

/-- The rest of an unquoted address after its leading spaces, with its closing bracket. -/
def urlTail (s : List Char) : List Char × List Char :=
  match s with
  | [] => ([], [])
  | c :: r =>
    if c == ')' then ([c], r)
    else if isAsciiBlank c then urlEnd s
    else if endsUrl c then let (body, rest) := badUrlTail r; (c :: body, rest)
    else if c == '\\' then
      if startsNewline r then let (body, rest) := badUrlTail r; (c :: body, rest)
      else
        let e := escape r
        let (body, rest) := urlTail e.rest
        (c :: e.source ++ body, rest)
    else let (body, rest) := urlTail r; (c :: body, rest)
termination_by s.length
decreasing_by
  · have := length_escape_le r
    simp; omega
  · simp

theorem length_badUrlTail_le (s : List Char) : (badUrlTail s).2.length ≤ s.length := by
  fun_induction badUrlTail s <;> simp_all <;> omega

theorem length_urlEnd_le (s : List Char) : (urlEnd s).2.length ≤ s.length := by
  have h := (List.dropWhile_suffix isAsciiBlank (l := s)).length_le
  unfold urlEnd
  dsimp only
  split
  · simp
  · rename_i rest hr; rw [hr] at h; simp at h ⊢; omega
  · rename_i c r _ hr
    rw [hr] at h
    have := length_badUrlTail_le r
    simp at h ⊢; omega

theorem length_urlTail_le (s : List Char) : (urlTail s).2.length ≤ s.length := by
  fun_induction urlTail s with
  | case1 => simp
  | case2 => simp
  | case3 c r _ _ => exact length_urlEnd_le (c :: r)
  | case4 c r _ _ _ body rest h =>
    have := length_badUrlTail_le r
    simp_all; omega
  | case5 c r _ _ _ _ _ body rest h =>
    have := length_badUrlTail_le r
    simp_all; omega
  | case6 c r _ _ _ _ _ e body rest h ih =>
    have h1 : e.rest.length ≤ r.length := length_escape_le r
    rw [h] at ih
    simp only [List.length_cons] at ih ⊢
    omega
  | case7 c r _ _ _ _ body rest h ih => simp_all; omega

/-- An address that is not quoted, after its opening bracket; one that starts with a quote is none. -/
def url? (s : List Char) : Option (List Char × List Char) :=
  let spaces := s.takeWhile isAsciiBlank
  match s.dropWhile isAsciiBlank with
  | '"' :: _ => none
  | '\'' :: _ => none
  | r => let (body, rest) := urlTail r; some (spaces ++ body, rest)

/-- An identifier, or a function with its opening bracket, or an unquoted address. -/
def identLike (s : List Char) : Token × List Char :=
  let n := name s
  let text := String.ofList n.value
  match n.rest with
  | '(' :: r =>
    if toLower n.value == "url".toList then
      match url? r with
      | some (body, rest) => (⟨.url, n.source ++ '(' :: body⟩, rest)
      | none => (⟨.function text, n.source ++ ['(']⟩, r)
    else (⟨.function text, n.source ++ ['(']⟩, r)
  | rest => (⟨.ident text, n.source⟩, rest)
where
  toLower (cs : List Char) : List Char := cs.map Char.toLower

/-- A fraction: a point and at least one digit. -/
def fraction : List Char → List Char × List Char
  | '.' :: s =>
    if startsDigit s then ('.' :: s.takeWhile isDigit, s.dropWhile isDigit) else ([], '.' :: s)
  | s => ([], s)

/-- An exponent: its mark, perhaps a sign, and at least one digit. -/
def exponent : List Char → List Char × List Char
  | c :: s =>
    if c == 'e' || c == 'E' then
      match s with
      | sign :: r =>
        if isDigit sign then (c :: s.takeWhile isDigit, s.dropWhile isDigit)
        else if (sign == '+' || sign == '-') && startsDigit r then
          (c :: sign :: r.takeWhile isDigit, r.dropWhile isDigit)
        else ([], c :: s)
      | [] => ([], c :: s)
    else ([], c :: s)
  | [] => ([], [])

/-- The end of a number after its digits: an exponent, then a percent sign or a unit. -/
def numberEnd (s : List Char) : List Char × List Char :=
  let (exp, r) := exponent s
  match r with
  | '%' :: rest => (exp ++ ['%'], rest)
  | r => if startsIdent r then let n := name r; (exp ++ n.source, n.rest) else (exp, r)

/-- A number after its sign or first digit. -/
def numeric (s : List Char) : List Char × List Char :=
  let (frac, r) := fraction (s.dropWhile isDigit)
  let (tail, rest) := numberEnd r
  (s.takeWhile isDigit ++ frac ++ tail, rest)

/-- A number after its leading point. -/
def fractional (s : List Char) : List Char × List Char :=
  let (tail, rest) := numberEnd (s.dropWhile isDigit)
  (s.takeWhile isDigit ++ tail, rest)

/-- The token that starts with `c`, and what follows it. -/
def next (c : Char) (s : List Char) : Token × List Char :=
  let plain (kind : Kind) : Token × List Char := (⟨kind, [c]⟩, s)
  let paired (second : Char) : Token × List Char :=
    match s with
    | d :: rest => if d == second then (⟨.attributeMatch, [c, d]⟩, rest) else plain (.delim c)
    | [] => plain (.delim c)
  let number : Token × List Char := let (body, rest) := numeric s; (⟨.number, c :: body⟩, rest)
  match c with
  | '"' | '\'' => let (body, rest) := stringTail c s; (⟨.string, c :: body⟩, rest)
  | '#' =>
    if startsIdent s || startsDigit s || s.head? == some '-' then
      let n := name s
      (⟨.hash (String.ofList n.value), c :: n.source⟩, n.rest)
    else plain (.delim c)
  | '$' | '*' | '^' | '|' | '~' => paired '='
  | '(' => plain (.opening .paren)
  | ')' => plain (.closing .paren)
  | '[' => plain (.opening .square)
  | ']' => plain (.closing .square)
  | '\x7b' => plain (.opening .curly)
  | '\x7d' => plain (.closing .curly)
  | ',' => plain .comma
  | ':' => plain .colon
  | ';' => plain .semicolon
  | '+' => if startsNumber s then number else plain (.delim c)
  | '.' =>
    if startsDigit s then let (body, rest) := fractional s; (⟨.number, c :: body⟩, rest)
    else plain (.delim c)
  | '-' =>
    if startsNumber s then number
    else
      match s with
      | '-' :: '>' :: rest => (⟨.commentClose, [c, '-', '>']⟩, rest)
      | _ => if startsIdent (c :: s) then identLike (c :: s) else plain (.delim c)
  | '/' =>
    match s with
    | '*' :: r => let (body, rest) := commentTail r; (⟨.comment, '/' :: '*' :: body⟩, rest)
    | _ => plain (.delim c)
  | '<' =>
    match s with
    | '!' :: '-' :: '-' :: rest => (⟨.commentOpen, [c, '!', '-', '-']⟩, rest)
    | _ => plain (.delim c)
  | '@' =>
    if startsIdent s then
      let n := name s
      (⟨.atKeyword (String.ofList n.value), c :: n.source⟩, n.rest)
    else plain (.delim c)
  | _ =>
    if isAsciiBlank c then (⟨.space, c :: s.takeWhile isAsciiBlank⟩, s.dropWhile isAsciiBlank)
    else if isDigit c then number
    else if startsIdent (c :: s) then identLike (c :: s)
    else plain (.delim c)

theorem length_fraction_le (s : List Char) : (fraction s).2.length ≤ s.length := by
  unfold fraction
  split
  · rename_i r
    split
    · exact Nat.le_succ_of_le (List.dropWhile_suffix _).length_le
    · exact Nat.le_refl _
  · exact Nat.le_refl _

theorem length_exponent_le (s : List Char) : (exponent s).2.length ≤ s.length := by
  unfold exponent
  split
  · split
    · split
      · split
        · exact Nat.le_succ_of_le (List.dropWhile_suffix _).length_le
        · split
          · exact Nat.le_succ_of_le (Nat.le_succ_of_le (List.dropWhile_suffix _).length_le)
          · exact Nat.le_refl _
      · exact Nat.le_refl _
    · exact Nat.le_refl _
  · exact Nat.le_refl _

theorem length_numberEnd_le (s : List Char) : (numberEnd s).2.length ≤ s.length := by
  have h := length_exponent_le s
  unfold numberEnd
  dsimp only
  split
  · rename_i rest hr; rw [hr] at h; exact Nat.le_of_succ_le h
  · split
    · exact Nat.le_trans (length_name_le _) h
    · exact h

theorem length_numeric_le (s : List Char) : (numeric s).2.length ≤ s.length :=
  Nat.le_trans (length_numberEnd_le _)
    (Nat.le_trans (length_fraction_le _) (List.dropWhile_suffix _).length_le)

theorem length_fractional_le (s : List Char) : (fractional s).2.length ≤ s.length :=
  Nat.le_trans (length_numberEnd_le _) (List.dropWhile_suffix _).length_le

theorem length_url?_le {s body rest : List Char} (h : url? s = some (body, rest)) :
    rest.length ≤ s.length := by
  have hd := (List.dropWhile_suffix isAsciiBlank (l := s)).length_le
  unfold url? at h
  dsimp only at h
  split at h
  · simp at h
  · simp at h
  · simp at h
    rw [← h.2]
    exact Nat.le_trans (length_urlTail_le _) hd

theorem length_identLike_le (s : List Char) : (identLike s).2.length ≤ (name s).rest.length := by
  unfold identLike
  dsimp only
  split
  · rename_i r hr
    rw [hr]
    split
    · split
      · rename_i hu; exact Nat.le_succ_of_le (length_url?_le hu)
      · exact Nat.le_succ _
    · exact Nat.le_succ _
  · exact Nat.le_refl _

/-- Where an identifier starts, its name takes at least one character. -/
theorem length_name_cons_le {c : Char} {s : List Char} (h : startsIdent (c :: s) = true) :
    (name (c :: s)).rest.length ≤ s.length := by
  have hchar (h : startsName c = true) : isNameChar c = true ∨ (c == '\x00') = true := by
    simp only [startsName, isNameChar, Char.isAlphanum, Bool.or_eq_true] at h ⊢
    rcases h with ((h | h) | h) | h <;> simp [h]
  have take (hc : isNameChar c = true ∨ (c == '\x00') = true) :
      (name (c :: s)).rest.length ≤ s.length := by
    rw [name]
    rcases hc with hc | hc
    · rw [if_pos hc]; exact length_name_le s
    · split
      · exact length_name_le s
      · exact length_name_le s
  unfold startsIdent at h
  split at h
  · rename_i heq
    obtain ⟨rfl, rfl⟩ := List.cons.inj heq
    exact take (.inl (by decide))
  · rename_i r heq
    obtain ⟨rfl, rfl⟩ := List.cons.inj heq
    rw [name]
    split
    · exact length_name_le _
    · split
      · exact length_name_le _
      · rw [if_pos (by simpa using h)]
        exact Nat.le_trans (length_name_le _) (length_escape_le _)
  · rename_i heq
    obtain ⟨rfl, rfl⟩ := List.cons.inj heq
    exact take (hchar h)
  · simp at h

theorem length_next_le (c : Char) (s : List Char) : (next c s).2.length ≤ s.length := by
  have hnum := length_numeric_le s
  have hdrop := (List.dropWhile_suffix isAsciiBlank (l := s)).length_le
  have hident (h : startsIdent (c :: s) = true) : (identLike (c :: s)).2.length ≤ s.length :=
    Nat.le_trans (length_identLike_le _) (length_name_cons_le h)
  have hpair (d : Char) : (match s with
      | x :: rest => if x == d then ((⟨.attributeMatch, [c, x]⟩ : Token), rest)
        else (⟨.delim c, [c]⟩, s)
      | [] => (⟨.delim c, [c]⟩, s)).2.length ≤ s.length := by
    split
    · split
      · exact Nat.le_succ _
      · exact Nat.le_refl _
    · exact Nat.le_refl _
  unfold next
  dsimp only
  split
  case h_1 => exact length_stringTail_le _ _
  case h_2 => exact length_stringTail_le _ _
  case h_3 =>
    split
    · exact length_name_le s
    · exact Nat.le_refl _
  case h_4 => exact hpair _
  case h_5 => exact hpair _
  case h_6 => exact hpair _
  case h_7 => exact hpair _
  case h_8 => exact hpair _
  case h_18 => split; exact hnum; exact Nat.le_refl _
  case h_19 => split; exact length_fractional_le s; exact Nat.le_refl _
  case h_20 =>
    split
    · exact hnum
    · split
      · simp; omega
      · split
        · rename_i h; exact hident h
        · exact Nat.le_refl _
  case h_21 =>
    split
    · exact Nat.le_succ_of_le (length_commentTail_le _)
    · exact Nat.le_refl _
  case h_22 =>
    split
    · simp; omega
    · exact Nat.le_refl _
  case h_23 =>
    split
    · exact length_name_le s
    · exact Nat.le_refl _
  case h_24 =>
    split
    · exact hdrop
    · split
      · exact hnum
      · split
        · rename_i h; exact hident h
        · exact Nat.le_refl _
  all_goals exact Nat.le_refl _

/-- All tokens of a text. -/
def scan (s : List Char) : List Token :=
  match s with
  | [] => []
  | c :: r => (next c r).1 :: scan (next c r).2
termination_by s.length
decreasing_by exact Nat.lt_succ_of_le (length_next_le c r)

end Token

end Stencil.Style
