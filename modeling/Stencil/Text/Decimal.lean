import Stencil.Text.Search

/-! Texts that denote a number: an optional sign, digits with an optional point and at least one digit,
an optional exponent; or infinity or not-a-number in any case. -/
namespace Stencil.Text

namespace Chars

def dropSign : List Char → List Char
  | '+' :: s => s
  | '-' :: s => s
  | s => s

/-- Nothing, or an exponent with at least one digit. -/
def isExponent : List Char → Bool
  | [] => true
  | c :: s => (c == 'e' || c == 'E') && !(dropSign s).isEmpty && (dropSign s).all Char.isDigit

/-- Digits with an optional point, and an optional exponent. -/
def isUnsignedDecimal (s : List Char) : Bool :=
  let whole := s.takeWhile Char.isDigit
  match s.dropWhile Char.isDigit with
  | '.' :: rest =>
    !(whole.isEmpty && (rest.takeWhile Char.isDigit).isEmpty) && isExponent (rest.dropWhile Char.isDigit)
  | rest => !whole.isEmpty && isExponent rest

end Chars

def isNumber (s : String) : Bool :=
  let unsigned := Chars.dropSign s.toList
  Chars.isUnsignedDecimal unsigned ||
    ["inf", "infinity", "nan"].contains (toLowerAscii (String.ofList unsigned))

end Stencil.Text
