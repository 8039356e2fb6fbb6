/-! Blank characters and what is cut at them: trimming, words and lines. A blank is a character with
the Unicode property `White_Space`; the narrower class of markup and stylesheets has no vertical tab
and nothing beyond ASCII. -/
namespace Stencil.Text

/-- The property `White_Space`. -/
def isBlank (c : Char) : Bool :=
  let n := c.toNat
  (9 ≤ n && n ≤ 13) || n == 0x20 || n == 0x85 || n == 0xA0 || n == 0x1680 ||
    (0x2000 ≤ n && n ≤ 0x200A) || n == 0x2028 || n == 0x2029 || n == 0x202F || n == 0x205F ||
    n == 0x3000

/-- Space, tab, line feed, form feed and carriage return. -/
def isAsciiBlank (c : Char) : Bool :=
  c == ' ' || c == '\t' || c == '\n' || c == '\x0c' || c == '\r'

namespace Chars

def trimLeft (s : List Char) : List Char := s.dropWhile isBlank

def trimRight (s : List Char) : List Char := (s.reverse.dropWhile isBlank).reverse

def trim (s : List Char) : List Char := trimRight (trimLeft s)

/-- The parts between the characters that `cut` holds of; one more part than such characters. -/
def pieces (cut : Char → Bool) : List Char → List (List Char)
  | [] => [[]]
  | c :: s =>
    if cut c then [] :: pieces cut s
    else match pieces cut s with
      | [] => [[c]]
      | first :: rest => (c :: first) :: rest

/-- The maximal runs without a blank. -/
def words (s : List Char) : List (List Char) := (pieces isBlank s).filter (!·.isEmpty)

/-- Drops the carriage return of a line that a line feed ends. -/
def dropReturn (line : List Char) : List Char :=
  match line.getLast? with
  | some '\r' => line.dropLast
  | _ => line

/-- The lines, given the parts between line feeds: only the last part is not ended by one. -/
def endLines : List (List Char) → List (List Char)
  | [] => []
  | [last] => if last.isEmpty then [] else [last]
  | line :: rest => dropReturn line :: endLines rest

/-- The lines of a text, without the line feed or carriage return and line feed that ends each. -/
def lines (s : List Char) : List (List Char) := endLines (pieces (· == '\n') s)

end Chars

def trim (s : String) : String := String.ofList (Chars.trim s.toList)

def words (s : String) : List String := (Chars.words s.toList).map String.ofList

def lines (s : String) : List String := (Chars.lines s.toList).map String.ofList

/-- Whether every character is blank; the empty text counts. -/
def allBlank (s : String) : Bool := s.toList.all isBlank

/-- A text followed by the parts, `sep` in front of each. -/
def joinOnto (sep front : String) : List String → String
  | [] => front
  | s :: rest => joinOnto sep (front ++ sep ++ s) rest

/-- The parts joined, `sep` between neighbours. -/
def join (sep : String) : List String → String
  | [] => ""
  | s :: rest => joinOnto sep s rest

theorem joinOnto_append (sep front s : String) (rest : List String) :
    joinOnto sep (front ++ s) rest = front ++ joinOnto sep s rest := by
  induction rest generalizing s with
  | nil => rfl
  | cons t rest ih => simp only [joinOnto, String.append_assoc, ih]

@[simp] theorem join_nil (sep : String) : join sep [] = "" := rfl

@[simp] theorem join_singleton (sep s : String) : join sep [s] = s := rfl

@[simp] theorem join_cons_cons (sep s t : String) (rest : List String) :
    join sep (s :: t :: rest) = s ++ sep ++ join sep (t :: rest) :=
  joinOnto_append sep (s ++ sep) t rest

def concat (parts : List String) : String := join "" parts

end Stencil.Text
