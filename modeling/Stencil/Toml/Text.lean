/-! The strings of a TOML document: basic ones with escapes, literal ones without, and both over several
lines. Each reader starts behind the opening delimiter and returns the text and what follows the
closing one. -/
namespace Stencil.Toml

/-- Controls other than the tab stand nowhere but in line ends. -/
def isControl (c : Char) : Bool := (c.toNat < 32 && c != '\t') || c.toNat == 127

def hexValue? (c : Char) : Option Nat :=
  if c.isDigit then some (c.toNat - 48)
  else if 'a' ≤ c ∧ c ≤ 'f' then some (c.toNat - 87)
  else if 'A' ≤ c ∧ c ≤ 'F' then some (c.toNat - 55)
  else none

/-- The character with a hexadecimal number, unless that is a surrogate or too great. -/
def hexChar? (digits : List Char) : Option Char := do
  let values ← digits.mapM hexValue?
  let n := values.foldl (fun n v => n * 16 + v) 0
  if n < 0xD800 ∨ (0xE000 ≤ n ∧ n < 0x110000) then some (Char.ofNat n) else none

/-- The character of a short escape. -/
def shortEscape? (c : Char) : Option Char :=
  [('b', '\x08'), ('t', '\t'), ('n', '\n'), ('f', '\x0c'), ('r', '\r'), ('e', '\x1b'), ('"', '"'),
    ('\\', '\\')].lookup c

/-- The character of an escape, after the backslash. -/
def escape? : List Char → Option (Char × List Char)
  | 'x' :: a :: b :: s => (hexChar? [a, b]).map (·, s)
  | 'u' :: a :: b :: c :: d :: s => (hexChar? [a, b, c, d]).map (·, s)
  | 'U' :: a :: b :: c :: d :: e :: f :: g :: h :: s => (hexChar? [a, b, c, d, e, f, g, h]).map (·, s)
  | c :: s => (shortEscape? c).map (·, s)
  | [] => none

theorem escape?_length {s rest : List Char} {c : Char} (h : escape? s = some (c, rest)) :
    rest.length < s.length := by
  unfold escape? at h
  split at h
  all_goals simp at h
  all_goals obtain ⟨_, _, _, rfl⟩ := h
  all_goals simp
  all_goals omega

/-- What follows the closing three quotes, of which two more may stand right before them. -/
def closing? (q : Char) (s : List Char) : Option (List Char × List Char) :=
  let n := min (s.takeWhile (· == q)).length 5
  if 3 ≤ n then some (List.replicate (n - 3) q, s.drop n) else none

theorem closing?_length {q : Char} {s text rest : List Char} (h : closing? q s = some (text, rest)) :
    rest.length < s.length := by
  have hs := (List.takeWhile_prefix (· == q) (l := s)).length_le
  simp only [closing?] at h
  split at h
  · simp at h; rw [← h.2]; simp; omega
  · simp at h

/-- A line end and what follows it. -/
def lineEnd? : List Char → Option (List Char)
  | '\n' :: s => some s
  | '\r' :: '\n' :: s => some s
  | _ => none

theorem lineEnd?_length {s rest : List Char} (h : lineEnd? s = some rest) : rest.length < s.length := by
  unfold lineEnd? at h
  split at h <;> simp at h <;> simp only [← h, List.length_cons] <;> omega

/-- What follows blanks and line ends. -/
def skipBlankLines : List Char → List Char
  | ' ' :: s => skipBlankLines s
  | '\t' :: s => skipBlankLines s
  | '\n' :: s => skipBlankLines s
  | '\r' :: '\n' :: s => skipBlankLines s
  | s => s

theorem skipBlankLines_length (s : List Char) : (skipBlankLines s).length ≤ s.length := by
  fun_induction skipBlankLines s <;> grind

/-- What follows a backslash at the end of a line: blanks up to the line end, and the blanks and line
ends after it. -/
def continuation? (s : List Char) : Option (List Char) :=
  (lineEnd? (s.dropWhile fun c => c == ' ' || c == '\t')).map skipBlankLines

theorem continuation?_length {s rest : List Char} (h : continuation? s = some rest) :
    rest.length < s.length := by
  simp only [continuation?, Option.map_eq_some_iff] at h
  obtain ⟨r, hr, rfl⟩ := h
  have h₁ := lineEnd?_length hr
  have h₂ := (List.dropWhile_suffix (fun c => c == ' ' || c == '\t') (l := s)).length_le
  have h₃ := skipBlankLines_length r
  omega

def prepend (text : List Char) (r : Option (List Char × List Char)) : Option (List Char × List Char) :=
  r.map fun (more, rest) => (text ++ more, rest)

def basicText? (s : List Char) : Option (List Char × List Char) :=
  match s with
  | [] => none
  | c :: s =>
    if c = '"' then some ([], s)
    else if c = '\\' then
      match _h : escape? s with
      | some (c, rest) => prepend [c] (basicText? rest)
      | none => none
    else if isControl c then none
    else prepend [c] (basicText? s)
termination_by s.length
decreasing_by
  · have := escape?_length _h
    simp; omega
  · simp

def literalText? : List Char → Option (List Char × List Char)
  | [] => none
  | c :: s =>
    if c = '\'' then some ([], s) else if isControl c then none else prepend [c] (literalText? s)

/-- Line ends are kept as they are; a backslash at the end of a line joins it with the next text. -/
def multilineBasicText? (s : List Char) : Option (List Char × List Char) :=
  match _hc : closing? '"' s with
  | some end' => some end'
  | none =>
    match _hl : lineEnd? s with
    | some rest => prepend (s.take (s.length - rest.length)) (multilineBasicText? rest)
    | none =>
      match s with
      | [] => none
      | c :: s =>
        if c = '\\' then
          match _hk : continuation? s with
          | some rest => multilineBasicText? rest
          | none =>
            match _h : escape? s with
            | some (c, rest) => prepend [c] (multilineBasicText? rest)
            | none => none
        else if isControl c then none
        else prepend [c] (multilineBasicText? s)
termination_by s.length
decreasing_by
  · exact lineEnd?_length _hl
  · have := continuation?_length _hk
    simp; omega
  · have := escape?_length _h
    simp; omega
  · simp

def multilineLiteralText? (s : List Char) : Option (List Char × List Char) :=
  match closing? '\'' s with
  | some end' => some end'
  | none =>
    match _hl : lineEnd? s with
    | some rest => prepend (s.take (s.length - rest.length)) (multilineLiteralText? rest)
    | none =>
      match s with
      | [] => none
      | c :: s => if isControl c then none else prepend [c] (multilineLiteralText? s)
termination_by s.length
decreasing_by
  · exact lineEnd?_length _hl
  · simp

theorem prepend_eq_some {text cs rest : List Char} {r : Option (List Char × List Char)}
    (h : prepend text r = some (cs, rest)) : ∃ more, r = some (more, rest) := by
  simp only [prepend, Option.map_eq_some_iff] at h
  obtain ⟨⟨more, rest'⟩, hr, he⟩ := h
  exact ⟨more, by simp at he; rw [hr, he.2]⟩

theorem basicText?_length {s text rest : List Char} (h : basicText? s = some (text, rest)) :
    rest.length < s.length := by
  fun_induction basicText? s generalizing text rest with
  | case1 => simp at h
  | case2 s => simp at h; rw [h.2]; simp
  | case3 s c r he _ ih =>
    obtain ⟨more, hm⟩ := prepend_eq_some h
    have h₁ := ih hm
    have h₂ := escape?_length he
    simp; omega
  | case4 => simp at h
  | case5 => simp at h
  | case6 c s _ _ _ ih =>
    obtain ⟨more, hm⟩ := prepend_eq_some h
    have h₁ := ih hm
    simp; omega

theorem literalText?_length {s text rest : List Char} (h : literalText? s = some (text, rest)) :
    rest.length < s.length := by
  fun_induction literalText? s generalizing text rest with
  | case1 => simp at h
  | case2 s => simp at h; rw [h.2]; simp
  | case3 => simp at h
  | case4 c s _ _ ih =>
    obtain ⟨more, hm⟩ := prepend_eq_some h
    have h₁ := ih hm
    simp; omega

theorem multilineBasicText?_length {s text rest : List Char}
    (h : multilineBasicText? s = some (text, rest)) : rest.length < s.length := by
  fun_induction multilineBasicText? s generalizing text rest with
  | case1 s e he => simp at h; exact closing?_length (he.trans (congrArg some h))
  | case2 s hc r hl ih =>
    obtain ⟨more, hm⟩ := prepend_eq_some h
    have h₁ := ih hm
    have h₂ := lineEnd?_length hl
    omega
  | case3 => simp at h
  | case4 s r hk _ _ ih =>
    have h₁ := ih h
    have h₂ := continuation?_length hk
    simp; omega
  | case5 s _ c r he _ _ ih =>
    obtain ⟨more, hm⟩ := prepend_eq_some h
    have h₁ := ih hm
    have h₂ := escape?_length he
    simp; omega
  | case6 => simp at h
  | case7 => simp at h
  | case8 c s _ _ _ _ ih =>
    obtain ⟨more, hm⟩ := prepend_eq_some h
    have h₁ := ih hm
    simp; omega

theorem multilineLiteralText?_length {s text rest : List Char}
    (h : multilineLiteralText? s = some (text, rest)) : rest.length < s.length := by
  fun_induction multilineLiteralText? s generalizing text rest with
  | case1 s e he => simp at h; exact closing?_length (he.trans (congrArg some h))
  | case2 s hc r hl ih =>
    obtain ⟨more, hm⟩ := prepend_eq_some h
    have h₁ := ih hm
    have h₂ := lineEnd?_length hl
    omega
  | case3 => simp at h
  | case4 => simp at h
  | case5 c s _ _ _ ih =>
    obtain ⟨more, hm⟩ := prepend_eq_some h
    have h₁ := ih hm
    simp; omega

end Stencil.Toml
