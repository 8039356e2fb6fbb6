import Stencil.Proofs.NarrowedRules
import Stencil.Style.Selector

/-! Selectors as they are written: elements that combinators join, each with a tag and parts, and functions
whose arguments are selectors again. The text of each piece has components of its own, whatever stands
around it; only an address, which a function named `url` reads as, ends at the first parenthesis that is
closed. -/
namespace Stencil.Style

open Text

/-- Up to `rest` the text has these components, whatever is open before it. -/
def Covers (s rest : List Char) (cs : List ComponentValue) : Prop :=
  ∃ ts, Token.scan s = ts ++ Token.scan rest ∧ ∀ n : Nesting, ts.foldl Nesting.step n = n.addAll cs

namespace Covers

open ComponentValue

variable {s mid rest : List Char} {cs ds : List ComponentValue}

theorem nil : Covers s s [] := ⟨[], rfl, fun _ => rfl⟩

theorem append (first : Covers s mid cs) (last : Covers mid rest ds) : Covers s rest (cs ++ ds) := by
  obtain ⟨ts, scanned, gathered⟩ := first
  obtain ⟨us, scanned', gathered'⟩ := last
  refine ⟨ts ++ us, by rw [scanned, scanned', List.append_assoc], fun n => ?_⟩
  rw [List.foldl_append, gathered, gathered']
  exact List.foldl_append.symm

theorem token {t : Token} (scanned : Token.scan s = t :: Token.scan rest) (opens : t.opens? = none)
    (closes : t.closes? = none) : Covers s rest [.token t] :=
  ⟨[t], scanned, fun _ => Nesting.step_token opens (by simp [closes])⟩

theorem block {b : Bracket} {t u : Token} {mid' : List Char} (front : Token.scan s = t :: Token.scan mid)
    (opens : t.opens? = some b) (inside : Covers mid mid' cs) (back : Token.scan mid' = u :: Token.scan rest)
    (closes : u.closes? = some b) : Covers s rest [.block b t cs (some u)] := by
  obtain ⟨ts, scanned, gathered⟩ := inside
  refine ⟨t :: (ts ++ [u]), by rw [front, scanned, back]; simp, fun n => ?_⟩
  have settled := n.settle_opened b t cs u
  unfold Nesting.settle at settled
  dsimp only at settled
  rw [List.foldl_cons, Nesting.step_opens opens, List.foldl_append, gathered, List.foldl_cons, List.foldl_nil,
    Nesting.step_closes (Token.opens?_of_closes closes) closes, settled]
  · rfl
  · rw [Nesting.addAll_opened cs rfl]
    rfl

/-- The components of a whole text. -/
theorem scan_eq (whole : Covers s [] cs) : ComponentValue.scan s = cs := by
  obtain ⟨ts, scanned, gathered⟩ := whole
  have ended : Token.scan [] = [] := by rw [Token.scan]
  rw [ended, List.append_nil] at scanned
  rw [ComponentValue.scan, scanned, ofTokens, gathered, Nesting.addAll_outside cs rfl]
  simp [Nesting.finish, Nesting.closeInners]

theorem source {front : List Char} (h : Covers (front ++ rest) rest cs) : sourceAll cs = front := by
  obtain ⟨ts, scanned, gathered⟩ := h
  have text := congrArg Token.flat scanned
  rw [Token.flat_append, Token.flat_scan, Token.flat_scan] at text
  rw [List.append_cancel_right text, ← sourceAll_ofTokens, ofTokens, gathered, Nesting.addAll_outside cs rfl]
  simp [Nesting.finish, Nesting.closeInners]

/-- The component of some spaces, if there are any. -/
def gap : List Char → List ComponentValue
  | [] => []
  | c :: b => [.token ⟨.space, c :: b⟩]

theorem spaces {b : List Char} (blank : ∀ c ∈ b, c = ' ') (solid : ∀ c ∈ s.head?, isAsciiBlank c = false) :
    Covers (b ++ s) s (gap b) := by
  cases b with
  | nil => exact nil
  | cons c b =>
    obtain ⟨rfl, later⟩ := List.forall_mem_cons.mp blank
    exact token (Token.scan_space later solid) rfl rfl

end Covers

namespace Grammar

/-- The characters of a name behind its first letter. -/
def isWordChar (c : Char) : Bool := c.isAlphanum || c == '-' || c == '_'

/-- A name: letters, digits, hyphens and underscores behind a letter. -/
structure Name where
  first : Char
  later : List Char
  letter : first.isAlpha = true
  word : later.all isWordChar = true

namespace Name

def chars (n : Name) : List Char := n.first :: n.later

def text (n : Name) : String := String.ofList n.chars

def ident (n : Name) : Token := ⟨.ident n.text, n.chars⟩

/-- A function of this name is read as an address. -/
def isUrl (n : Name) : Bool := Token.identLike.toLower n.chars == "url".toList

end Name

/-- A tag, which is a name or `*`. -/
inductive Tag where
  | any
  | named (name : Name)

def Tag.chars : Tag → List Char
  | any => ['*']
  | named n => n.chars

/-- The text of a tag, if there is one. -/
def leading (tag : Option Tag) : List Char := (tag.map Tag.chars).getD []

/-- The parts of a selector without arguments. -/
inductive Simple where
  | ofClass (name : Name)
  | ofId (name : Name)
  | ofAttribute (name : Name) (value : Option Name)
  | pseudoClass (name : Name)
  | pseudoElement (name : Name)

def Simple.chars : Simple → List Char
  | ofClass n => '.' :: n.chars
  | ofId n => '#' :: n.chars
  | ofAttribute n none => '[' :: (n.chars ++ [']'])
  | ofAttribute n (some v) => '[' :: (n.chars ++ '=' :: (v.chars ++ [']']))
  | pseudoClass n => ':' :: n.chars
  | pseudoElement n => ':' :: ':' :: n.chars

/-- The combinators that have a mark. -/
inductive Mark where
  | child
  | adjacent
  | sibling

def Mark.char : Mark → Char
  | child => '>'
  | adjacent => '+'
  | sibling => '~'

inductive Separator where
  | comma
  | space
  | mark (mark : Mark)

def Separator.char : Separator → Char
  | comma => ','
  | space => ' '
  | mark m => m.char

/-- The text of a function with this inside. -/
def callChars (name : Name) (inside : List Char) : List Char := ':' :: (name.chars ++ '(' :: (inside ++ [')']))

/-- The arguments of a function behind their first tag. Another tag can follow where a separator or a
parenthesis keeps it apart. -/
inductive Arguments where
  | done
  | simple (part : Simple) (rest : Arguments)
  | call (name : Name) (tag : Option Tag) (inner rest : Arguments)
  | separator (mark : Separator) (tag : Option Tag) (rest : Arguments)

namespace Arguments

def chars : Arguments → List Char
  | done => []
  | simple p rest => p.chars ++ rest.chars
  | call n tag inner rest => callChars n (leading tag ++ inner.chars) ++ rest.chars
  | separator m tag rest => m.char :: (leading tag ++ rest.chars)

/-- No function is among the arguments. -/
def isFlat : Arguments → Bool
  | done => true
  | simple _ rest => rest.isFlat
  | call .. => false
  | separator _ _ rest => rest.isFlat

/-- No function that is read as an address has a function among its arguments. -/
def isSound : Arguments → Bool
  | done => true
  | simple _ rest => rest.isSound
  | call n _ inner rest => (!n.isUrl || inner.isFlat) && inner.isSound && rest.isSound
  | separator _ _ rest => rest.isSound

end Arguments

/-- What a name or another piece ends before. -/
def isBorder (c : Char) : Bool := ['.', '#', '[', ':', ',', ' ', '>', '+', '~', ')'].contains c

def AtBorder (s : List Char) : Prop := ∀ c ∈ s.head?, isBorder c = true

/-- The characters that a name stops at. -/
def stopsName (c : Char) : Bool := isBorder c || ['(', ']', '='].contains c

section Names

open Token

variable {n : Name} {s : List Char}

/-- What holds of letters, digits, hyphens and underscores holds of a name. -/
theorem forall_chars {P : Char → Prop} (alnum : ∀ c, c.isAlphanum = true → P c) (hyphen : P '-')
    (underscore : P '_') : ∀ c ∈ n.chars, P c := by
  intro c member
  rcases List.mem_cons.mp member with rfl | later
  · exact alnum _ (isAlphanum_iff.mpr (.inl n.letter))
  · have word := List.all_eq_true.mp n.word c later
    simp only [isWordChar, Bool.or_eq_true, beq_iff_eq] at word
    rcases word with (h | rfl) | rfl
    · exact alnum c h
    · exact hyphen
    · exact underscore

theorem isNameChar_of_mem : ∀ c ∈ n.chars, isNameChar c = true :=
  forall_chars (fun c h => by simp [isNameChar, h]) rfl rfl

theorem name_chars (stops : ∀ c ∈ s.head?, stopsName c = true) :
    Token.name (n.chars ++ s) = ⟨n.chars, n.chars, s⟩ := by
  have front (word : List Char) (chars : ∀ c ∈ word, isNameChar c = true) :
      Token.name (word ++ s) = ⟨word, word, s⟩ := by
    induction word with
    | nil =>
      cases s with
      | nil => rw [List.nil_append, Token.name]
      | cons c s =>
        have all : (['.', '#', '[', ':', ',', ' ', '>', '+', '~', ')', '(', ']', '='].all fun c =>
          !isNameChar c && !(c == '\x00') && !(c == '\\')) = true := by decide
        have member : c ∈ ['.', '#', '[', ':', ',', ' ', '>', '+', '~', ')', '(', ']', '='] := by
          simpa [stopsName, isBorder, or_assoc] using stops c rfl
        have other := List.all_eq_true.mp all c member
        simp only [Bool.and_eq_true, Bool.not_eq_true'] at other
        rw [List.nil_append, Token.name, other.1.1, other.1.2, other.2]
        rfl
    | cons c word ih =>
      rw [List.forall_mem_cons] at chars
      rw [List.cons_append, Token.name, if_pos chars.1, ih chars.2]
  exact front n.chars isNameChar_of_mem

theorem isDigit_first (n : Name) : isDigit n.first = false :=
  isDigit_of_startsName (by simp [startsName, n.letter])

theorem next_letter {c : Char} (letter : c.isAlpha = true) (s : List Char) : next c s = identLike (c :: s) := by
  have starts : startsName c = true := by simp [startsName, letter]
  have mark : c ∉ marks := by
    intro h
    have all : marks.all (!startsName ·) = true := by decide
    have plain := List.all_eq_true.mp all c h
    rw [starts] at plain
    cases plain
  rw [next_of_not_mark mark, isAsciiBlank_of_startsName starts, isDigit_of_startsName starts,
    startsIdent_cons starts]
  rfl

theorem scan_chars (n : Name) (s : List Char) : Token.scan (n.chars ++ s) =
    (identLike (n.chars ++ s)).1 :: Token.scan (identLike (n.chars ++ s)).2 := by
  rw [Name.chars, List.cons_append, Token.scan, next_letter n.letter]

theorem scan_name (stops : ∀ c ∈ s.head?, stopsName c = true ∧ c ≠ '(') :
    Token.scan (n.chars ++ s) = n.ident :: Token.scan s := by
  have named := name_chars (n := n) (s := s) fun c member => (stops c member).1
  have plain : s.head? ≠ some '(' := fun opening => (stops '(' opening).2 rfl
  rw [scan_chars, identLike_other (by rwa [named]), named]
  rfl

theorem scan_function (other : n.isUrl = false) :
    Token.scan (n.chars ++ '(' :: s) = ⟨.function n.text, n.chars ++ ['(']⟩ :: Token.scan s := by
  have named := name_chars (n := n) (s := '(' :: s) (by simp [stopsName])
  have plain : ¬ (identLike.toLower (Token.name (n.chars ++ '(' :: s)).value == "url".toList) = true := by
    rw [named]
    exact Bool.eq_false_iff.mp other
  rw [scan_chars, identLike_function (by rw [named]) plain, named]
  rfl

theorem scan_url (address : n.isUrl = true) (chars : IsSelectorText (n.chars ++ '(' :: s)) :
    Token.scan (n.chars ++ '(' :: s) =
      ⟨.url, n.chars ++ '(' :: (throughParen s).1⟩ :: Token.scan (throughParen s).2 := by
  have named := name_chars (n := n) (s := '(' :: s) (by simp [stopsName])
  rw [scan_chars, identLike_url chars (by rw [named]) (by rw [named]; exact address), named]

end Names

def colon : ComponentValue := .token ⟨.colon, [':']⟩

def Tag.component : Tag → ComponentValue
  | any => .token ⟨.delim '*', ['*']⟩
  | named n => .token n.ident

/-- The components of the value of an attribute, with the sign in front. -/
def valueComponents : Option Name → List ComponentValue
  | none => []
  | some v => [.token ⟨.delim '=', ['=']⟩, .token v.ident]

def Simple.components : Simple → List ComponentValue
  | ofClass n => [.token ⟨.delim '.', ['.']⟩, .token n.ident]
  | ofId n => [.token ⟨.hash n.text, '#' :: n.chars⟩]
  | ofAttribute n v => [.block .square ⟨.opening .square, ['[']⟩ (.token n.ident :: valueComponents v)
      (some ⟨.closing .square, [']']⟩)]
  | pseudoClass n => [colon, .token n.ident]
  | pseudoElement n => [colon, colon, .token n.ident]

section Pieces

variable {s : List Char}

theorem AtBorder.stops (ends : AtBorder s) : ∀ c ∈ s.head?, stopsName c = true ∧ c ≠ '(' := by
  intro c member
  have mark := ends c member
  refine ⟨by simp [stopsName, mark], ?_⟩
  rintro rfl
  cases mark

theorem covers_name (n : Name) (stops : ∀ c ∈ s.head?, stopsName c = true ∧ c ≠ '(') :
    Covers (n.chars ++ s) s [.token n.ident] := .token (scan_name stops) rfl rfl

theorem covers_colon : Covers (':' :: s) s [colon] := .token (Token.scan_colon s) rfl rfl

theorem covers_tag (t : Tag) (ends : AtBorder s) : Covers (t.chars ++ s) s [t.component] := by
  cases t with
  | named n => exact covers_name n ends.stops
  | any =>
    refine .token ?_ rfl rfl
    rw [Tag.chars, List.singleton_append, Token.scan]
    cases s with
    | nil => rfl
    | cons d s =>
      have other : d ≠ '=' := by
        rintro rfl
        cases ends '=' rfl
      simp [Token.next, other]

theorem covers_leading (tag : Option Tag) (ends : AtBorder s) :
    Covers (leading tag ++ s) s (tag.map Tag.component).toList := by
  cases tag with
  | none => exact .nil
  | some t => exact covers_tag t ends

theorem covers_simple (p : Simple) (ends : AtBorder s) : Covers (p.chars ++ s) s p.components := by
  cases p with
  | ofClass n =>
    have point : Token.scan ('.' :: (n.chars ++ s)) = ⟨.delim '.', ['.']⟩ :: Token.scan (n.chars ++ s) := by
      rw [Token.scan]
      simp [Token.next, Name.chars, Token.startsDigit, isDigit_first]
    exact Covers.append (.token point rfl rfl) (covers_name n ends.stops)
  | ofId n =>
    refine .token ?_ rfl rfl
    have starts : Token.startsIdent (n.chars ++ s) = true :=
      Token.startsIdent_cons (by simp [Token.startsName, n.letter]) _
    rw [Simple.chars, List.cons_append, Token.scan]
    simp only [Token.next, starts, Bool.true_or, if_true, name_chars fun c member => (ends.stops c member).1]
    rfl
  | ofAttribute n v =>
    have bracket (s : List Char) : Token.scan ('[' :: s) = ⟨.opening .square, ['[']⟩ :: Token.scan s := by
      rw [Token.scan]
      rfl
    have back : Token.scan (']' :: s) = ⟨.closing .square, [']']⟩ :: Token.scan s := by
      rw [Token.scan]
      rfl
    have last (n : Name) : Covers (n.chars ++ ']' :: s) (']' :: s) [.token n.ident] :=
      covers_name n (by simp [stopsName])
    cases v with
    | none =>
      have inside := last n
      simp only [Simple.chars, List.cons_append, List.append_assoc, List.nil_append]
      exact .block (bracket _) rfl inside back rfl
    | some v =>
      have sign : Token.scan ('=' :: (v.chars ++ ']' :: s)) =
          ⟨.delim '=', ['=']⟩ :: Token.scan (v.chars ++ ']' :: s) := by
        rw [Token.scan]
        rfl
      have inside : Covers (n.chars ++ '=' :: (v.chars ++ ']' :: s)) (']' :: s)
          ([.token n.ident] ++ ([.token ⟨.delim '=', ['=']⟩] ++ [.token v.ident])) :=
        (covers_name n (by simp [stopsName])).append (Covers.append (.token sign rfl rfl) (last v))
      simp only [Simple.chars, List.cons_append, List.append_assoc, List.nil_append]
      exact .block (bracket _) rfl inside back rfl
  | pseudoClass n => exact covers_colon.append (covers_name n ends.stops)
  | pseudoElement n => exact covers_colon.append (covers_colon.append (covers_name n ends.stops))

theorem scan_paren (s : List Char) : Token.scan (')' :: s) = ⟨.closing .paren, [')']⟩ :: Token.scan s := by
  rw [Token.scan]
  rfl

/-- A function is a block, and its arguments are what stands inside. -/
theorem covers_call {n : Name} {inside : List Char} {cs : List ComponentValue} (other : n.isUrl = false)
    (inner : Covers (inside ++ ')' :: s) (')' :: s) cs) :
    Covers (callChars n inside ++ s) s [colon, .block .paren ⟨.function n.text, n.chars ++ ['(']⟩ cs
      (some ⟨.closing .paren, [')']⟩)] := by
  have text : callChars n inside ++ s = ':' :: (n.chars ++ '(' :: (inside ++ ')' :: s)) := by
    simp [callChars]
  rw [text]
  exact covers_colon.append (.block (scan_function other) rfl inner (scan_paren s) rfl)

/-- An address is one token, up to the first parenthesis that is closed. -/
theorem covers_address {n : Name} {inside : List Char} (address : n.isUrl = true) (flat : ')' ∉ inside)
    (chars : IsSelectorText (callChars n inside ++ s)) :
    Covers (callChars n inside ++ s) s [colon, .token ⟨.url, n.chars ++ '(' :: (inside ++ [')'])⟩] := by
  have text : callChars n inside ++ s = ':' :: (n.chars ++ '(' :: (inside ++ ')' :: s)) := by
    simp [callChars]
  rw [text] at chars ⊢
  have through : Token.throughParen (inside ++ ')' :: s) = (inside ++ [')'], s) := by
    rw [Token.throughParen_append, if_neg flat]
    rfl
  have scanned := scan_url address (chars.subset (List.subset_cons_self ..))
  rw [through] at scanned
  exact covers_colon.append (.token scanned rfl rfl)

end Pieces

section Texts

variable {s : List Char}

theorem chars_name (n : Name) : IsSelectorText n.chars :=
  forall_chars (fun c h => by simp [isSelectorChar, h]) rfl rfl

/-- A parenthesis does not stand in names. -/
theorem paren_not_mem (n : Name) : ')' ∉ n.chars := by
  intro member
  cases isNameChar_of_mem _ member

theorem chars_leading (tag : Option Tag) : IsSelectorText (leading tag) ∧ ')' ∉ leading tag := by
  rcases tag with _ | (_ | n)
  · simp [leading, IsSelectorText]
  · simp [leading, Tag.chars, IsSelectorText, isSelectorChar]
  · exact ⟨chars_name n, paren_not_mem n⟩

theorem isSelectorText_cons {c : Char} :
    IsSelectorText (c :: s) ↔ isSelectorChar c = true ∧ IsSelectorText s := List.forall_mem_cons

theorem isSelectorText_append {t : List Char} :
    IsSelectorText (s ++ t) ↔ IsSelectorText s ∧ IsSelectorText t := List.forall_mem_append

theorem isSelectorText_nil : IsSelectorText [] := by simp [IsSelectorText]

theorem chars_simple (p : Simple) : IsSelectorText p.chars ∧ ')' ∉ p.chars := by
  rcases p with n | n | ⟨n, _ | v⟩ | n | n
  all_goals
    simp [Simple.chars, isSelectorText_cons, isSelectorText_append, isSelectorText_nil, chars_name, paren_not_mem,
      isSelectorChar]

theorem char_separator (m : Separator) : isSelectorChar m.char = true ∧ m.char ≠ ')' := by
  rcases m with _ | _ | (_ | _ | _) <;> decide

theorem chars_call {n : Name} {inside : List Char} (chars : IsSelectorText inside) :
    IsSelectorText (callChars n inside) := by
  simp [callChars, isSelectorText_cons, isSelectorText_append, isSelectorText_nil, chars_name, chars,
    isSelectorChar]

theorem chars_arguments (args : Arguments) : IsSelectorText args.chars := by
  induction args with
  | done => exact isSelectorText_nil
  | simple p rest ih => exact (chars_simple p).1.append ih
  | call n tag inner rest ih ih' => exact (chars_call ((chars_leading tag).1.append ih)).append ih'
  | separator m tag rest ih =>
    exact isSelectorText_cons.mpr ⟨(char_separator m).1, (chars_leading tag).1.append ih⟩

theorem paren_not_mem_flat {args : Arguments} (flat : args.isFlat = true) : ')' ∉ args.chars := by
  induction args with
  | done => simp [Arguments.chars]
  | simple p rest ih => simpa [Arguments.chars, (chars_simple p).2] using ih flat
  | call n tag inner rest => cases flat
  | separator m tag rest ih =>
    simpa [Arguments.chars, (char_separator m).2.symm, (chars_leading tag).2] using ih flat

/-- What may stand behind a mark, so that the mark is a token of its own. -/
def Follows (s : List Char) : Prop := Token.startsNumber s = false ∧ s.head? ≠ some '='

theorem first_ne (n : Name) {d : Char} (other : d.isAlpha = false) : n.first ≠ d := by
  intro same
  have letter := n.letter
  rw [same, other] at letter
  cases letter

theorem follows_tag (t : Tag) : Follows (t.chars ++ s) := by
  cases t with
  | any => simp [Follows, Tag.chars, Token.startsNumber, Token.startsDigit, Token.isDigit]
  | named n =>
    simp [Follows, Tag.chars, Name.chars, Token.startsNumber, Token.startsDigit, first_ne n (d := '.') rfl,
      first_ne n (d := '=') rfl, isDigit_first]

theorem follows_leading {tag : Option Tag} (h : Follows s) : Follows (leading tag ++ s) := by
  cases tag with
  | none => exact h
  | some t => exact follows_tag t

/-- Something other than a space comes first. -/
def SolidHead (s : List Char) : Prop := ∀ c ∈ s.head?, isAsciiBlank c = false

theorem solid_tag (t : Tag) : SolidHead (t.chars ++ s) := by
  cases t with
  | any => simp [SolidHead, Tag.chars, isAsciiBlank]
  | named n =>
    have letter := Token.isAsciiBlank_of_startsName (c := n.first) (by simp [Token.startsName, n.letter])
    simp [SolidHead, Tag.chars, Name.chars, letter]

/-- How a part starts. -/
theorem starts_simple (p : Simple) (s : List Char) :
    AtBorder (p.chars ++ s) ∧ Follows (p.chars ++ s) ∧ SolidHead (p.chars ++ s) := by
  rcases p with n | n | ⟨n, _ | v⟩ | n | n
  all_goals
    simp [AtBorder, isBorder, Follows, SolidHead, isAsciiBlank, Simple.chars, Name.chars, Token.startsNumber,
      Token.startsDigit, isDigit_first]
  all_goals simp [Token.isDigit]

theorem starts_call (n : Name) (inside s : List Char) :
    AtBorder (callChars n inside ++ s) ∧ Follows (callChars n inside ++ s) ∧
      SolidHead (callChars n inside ++ s) := by
  simp [AtBorder, isBorder, Follows, SolidHead, isAsciiBlank, callChars, Token.startsNumber, Token.startsDigit,
    Token.isDigit]

theorem starts_arguments (args : Arguments) (s : List Char) :
    AtBorder (args.chars ++ ')' :: s) ∧ Follows (args.chars ++ ')' :: s) := by
  cases args with
  | done =>
    simp [AtBorder, isBorder, Follows, Arguments.chars, Token.startsNumber, Token.startsDigit, Token.isDigit]
  | simple p rest =>
    obtain ⟨ends, follows, -⟩ := starts_simple p (rest.chars ++ ')' :: s)
    rw [Arguments.chars, List.append_assoc]
    exact ⟨ends, follows⟩
  | call n tag inner rest =>
    obtain ⟨ends, follows, -⟩ := starts_call n (leading tag ++ inner.chars) (rest.chars ++ ')' :: s)
    rw [Arguments.chars, List.append_assoc]
    exact ⟨ends, follows⟩
  | separator m tag rest =>
    rcases m with _ | _ | (_ | _ | _)
    all_goals
      simp [AtBorder, isBorder, Follows, Arguments.chars, Separator.char, Mark.char, Token.startsNumber,
        Token.startsDigit, Token.isDigit]

theorem scan_mark (m : Mark) (follows : Follows s) :
    Token.scan (m.char :: s) = ⟨.delim m.char, [m.char]⟩ :: Token.scan s := by
  obtain ⟨number, sign⟩ := follows
  rw [Token.scan]
  cases m with
  | child => rfl
  | adjacent => simp [Token.next, Mark.char, number]
  | sibling =>
    cases s with
    | nil => rfl
    | cons d s =>
      have other : d ≠ '=' := by simpa using sign
      simp [Token.next, Mark.char, other]

end Texts

/-- What stands behind the colon of a function: a block, or an address. -/
def IsCall (x : ComponentValue) : Prop := Selector.isFunction x = true ∨ ∃ source, x = .token ⟨.url, source⟩

theorem covers_function {n : Name} {inside s : List Char} {cs : List ComponentValue}
    (inner : Covers (inside ++ ')' :: s) (')' :: s) cs) (flat : n.isUrl = true → ')' ∉ inside)
    (chars : IsSelectorText (callChars n inside ++ s)) :
    ∃ x, IsCall x ∧ Covers (callChars n inside ++ s) s [colon, x] := by
  cases address : n.isUrl with
  | false => exact ⟨_, .inl rfl, covers_call address inner⟩
  | true => exact ⟨_, .inr ⟨_, rfl⟩, covers_address address (flat address) chars⟩

/-- A function whose first argument may start with a tag. -/
theorem covers_tagged {n : Name} (tag : Option Tag) {args : Arguments} {s : List Char} {cs : List ComponentValue}
    (flat : (!n.isUrl || args.isFlat) = true) (inside : Covers (args.chars ++ ')' :: s) (')' :: s) cs)
    (chars : IsSelectorText s) :
    ∃ x, IsCall x ∧ Covers (callChars n (leading tag ++ args.chars) ++ s) s [colon, x] := by
  have inner : Covers ((leading tag ++ args.chars) ++ ')' :: s) (')' :: s)
      ((tag.map Tag.component).toList ++ cs) := by
    rw [List.append_assoc]
    exact (covers_leading tag (starts_arguments args s).1).append inside
  refine covers_function inner (fun address => ?_)
    ((chars_call ((chars_leading tag).1.append (chars_arguments args))).append chars)
  rw [address] at flat
  simpa [(chars_leading tag).2] using paren_not_mem_flat flat

/-- Arguments have components of their own, also behind spaces that may go on among them. -/
theorem covers_arguments {args : Arguments} (sound : args.isSound = true) {b s : List Char}
    (blank : ∀ c ∈ b, c = ' ') (chars : IsSelectorText s) :
    ∃ cs, Covers (b ++ (args.chars ++ ')' :: s)) (')' :: s) cs := by
  induction args generalizing b s with
  | done => exact ⟨_, .spaces blank (by simp [Arguments.chars, isAsciiBlank])⟩
  | simple p rest ih =>
    obtain ⟨cs, later⟩ := ih sound (b := []) (by simp) chars
    obtain ⟨-, -, solid⟩ := starts_simple p (rest.chars ++ ')' :: s)
    have here := covers_simple p (starts_arguments rest s).1
    rw [Arguments.chars, List.append_assoc]
    exact ⟨_, (Covers.spaces blank solid).append (here.append later)⟩
  | call n tag inner rest ih ih' =>
    simp only [Arguments.isSound, Bool.and_eq_true] at sound
    obtain ⟨⟨flat, soundInner⟩, soundRest⟩ := sound
    have beyond : IsSelectorText (rest.chars ++ ')' :: s) :=
      (chars_arguments rest).append (isSelectorText_cons.mpr ⟨rfl, chars⟩)
    obtain ⟨cs, inside⟩ := ih soundInner (b := []) (by simp) beyond
    obtain ⟨ds, later⟩ := ih' soundRest (b := []) (by simp) chars
    obtain ⟨-, -, solid⟩ := starts_call n (leading tag ++ inner.chars) (rest.chars ++ ')' :: s)
    obtain ⟨x, -, here⟩ := covers_tagged tag flat inside beyond
    rw [Arguments.chars, List.append_assoc]
    exact ⟨_, (Covers.spaces blank solid).append (here.append later)⟩
  | separator m tag rest ih =>
    obtain ⟨ends, follows⟩ := starts_arguments rest s
    obtain ⟨cs, later⟩ := ih sound (b := []) (by simp) chars
    have tagged := (covers_leading tag ends).append later
    rw [Arguments.chars, List.cons_append, List.append_assoc]
    cases m with
    | comma =>
      have here := (Covers.token (Token.scan_comma _) rfl rfl).append tagged
      exact ⟨_, (Covers.spaces blank (by simp [Separator.char, isAsciiBlank])).append here⟩
    | mark m =>
      have here := (Covers.token (scan_mark m (follows_leading follows)) rfl rfl).append tagged
      exact ⟨_, (Covers.spaces blank (by cases m <;> simp [Separator.char, Mark.char, isAsciiBlank])).append here⟩
    | space =>
      have blank' : ∀ c ∈ b ++ [' '], c = ' ' := by simpa [or_imp, forall_and] using blank
      have text (s : List Char) : b ++ Separator.space.char :: s = (b ++ [' ']) ++ s := by
        simp [Separator.char]
      rw [text]
      cases tag with
      | none => exact ih sound blank' chars
      | some t => exact ⟨_, (Covers.spaces blank' (solid_tag t)).append tagged⟩

end Grammar

end Stencil.Style
