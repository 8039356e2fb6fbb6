import Stencil.Toml.Text

/-! The tokens of a TOML document. Comments and spaces are dropped, line ends are tokens. Numbers, dates
and booleans are runs of bare text, dots and signs. -/
namespace Stencil.Toml

inductive Kind where
  | bare (text : String)
  | string (value : String) (multiline : Bool)
  | dot
  | equals
  | comma
  | openBracket
  | closeBracket
  | openBrace
  | closeBrace
  | newline
  /-- A character that only numbers and dates have. -/
  | sign (c : Char)
  deriving DecidableEq, Repr

/-- The space in front of a token, as far as it matters: brackets that stand side by side, and one blank
between a date and a time. -/
inductive Gap where
  | none
  | blank
  | wide
  deriving DecidableEq, Repr

def Gap.widen (gap : Gap) (c : Char) : Gap := if gap = .none ∧ c = ' ' then .blank else .wide

structure Token where
  kind : Kind
  gap : Gap
  deriving DecidableEq, Repr

namespace Token

def isBare (c : Char) : Bool := c.isAlphanum || c == '-' || c == '_'

def isSpace (c : Char) : Bool := c == ' ' || c == '\t'

def symbol? (c : Char) : Option Kind :=
  [('.', .dot), ('=', .equals), (',', .comma), ('[', .openBracket), (']', .closeBracket),
    ('{', .openBrace), ('}', .closeBrace), ('+', .sign '+'), (':', .sign ':')].lookup c

/-- The text of a string over several lines does not have a line end right after the delimiter. -/
def dropLineEnd (s : List Char) : List Char := (lineEnd? s).getD s

/-- The string that starts here. -/
def string? : List Char → Option (Kind × List Char)
  | '"' :: '"' :: '"' :: s =>
    (multilineBasicText? (dropLineEnd s)).map fun (t, rest) => (.string (String.ofList t) true, rest)
  | '"' :: s => (basicText? s).map fun (t, rest) => (.string (String.ofList t) false, rest)
  | '\'' :: '\'' :: '\'' :: s =>
    (multilineLiteralText? (dropLineEnd s)).map fun (t, rest) => (.string (String.ofList t) true, rest)
  | '\'' :: s => (literalText? s).map fun (t, rest) => (.string (String.ofList t) false, rest)
  | _ => none

theorem dropLineEnd_length (s : List Char) : (dropLineEnd s).length ≤ s.length := by
  unfold dropLineEnd
  cases h : lineEnd? s with
  | none => simp
  | some rest => have := lineEnd?_length h; simp; omega

theorem string?_length {s rest : List Char} {k : Kind} (h : string? s = some (k, rest)) :
    rest.length < s.length := by
  unfold string? at h
  split at h
  · simp only [Option.map_eq_some_iff] at h
    obtain ⟨⟨t, r⟩, ht, he⟩ := h
    simp at he
    have h₁ := multilineBasicText?_length ht
    rename_i s
    have h₂ := dropLineEnd_length s
    rw [← he.2]; simp; omega
  · simp only [Option.map_eq_some_iff] at h
    obtain ⟨⟨t, r⟩, ht, he⟩ := h
    simp at he
    have h₁ := basicText?_length ht
    rw [← he.2]; simp; omega
  · simp only [Option.map_eq_some_iff] at h
    obtain ⟨⟨t, r⟩, ht, he⟩ := h
    simp at he
    have h₁ := multilineLiteralText?_length ht
    rename_i s
    have h₂ := dropLineEnd_length s
    rw [← he.2]; simp; omega
  · simp only [Option.map_eq_some_iff] at h
    obtain ⟨⟨t, r⟩, ht, he⟩ := h
    simp at he
    have h₁ := literalText?_length ht
    rw [← he.2]; simp; omega
  · simp at h

/-- The tokens from here on, given the space in front. A comment runs up to the first control
after it, which has to be a line end. -/
def scanFrom (gap : Gap) (s : List Char) : Option (List Token) :=
  match _hl : lineEnd? s with
  | some rest => (scanFrom .wide rest).map (⟨.newline, gap⟩ :: ·)
  | none =>
    match s with
    | [] => some []
    | c :: rest =>
      if isSpace c then scanFrom (gap.widen c) rest
      else if c == '#' then scanFrom .wide (rest.dropWhile (!isControl ·))
      else if isBare c then
        (scanFrom .none (rest.dropWhile isBare)).map
          (⟨.bare (String.ofList (c :: rest.takeWhile isBare)), gap⟩ :: ·)
      else match symbol? c with
        | some kind => (scanFrom .none rest).map (⟨kind, gap⟩ :: ·)
        | none =>
          match _hs : string? (c :: rest) with
          | some (kind, rest') => (scanFrom .none rest').map (⟨kind, gap⟩ :: ·)
          | none => none
termination_by s.length
decreasing_by
  · exact lineEnd?_length _hl
  · simp
  · have := (List.dropWhile_suffix (!isControl ·) (l := rest)).length_le
    simp; omega
  · have := (List.dropWhile_suffix isBare (l := rest)).length_le
    simp; omega
  · simp
  · exact string?_length _hs

/-- A byte order mark in front is ignored. -/
def scan (text : String) : Option (List Token) :=
  match text.toList with
  | '\uFEFF' :: s => scanFrom .wide s
  | s => scanFrom .wide s

end Token

end Stencil.Toml
