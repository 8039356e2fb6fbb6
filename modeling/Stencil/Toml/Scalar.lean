import Stencil.Toml.Text

/-! The values of a TOML document that stand without quotes: booleans, integers, floats, dates and times.
Only their form is checked; how great a number is does not matter. -/
namespace Stencil.Toml.Scalar

/-- Digits, at least one, with single underscores between them. -/
def isDigits (isDigit : Char → Bool) : List Char → Bool
  | [] => false
  | [c] => isDigit c
  | c :: '_' :: s => isDigit c && isDigits isDigit s
  | c :: s => isDigit c && isDigits isDigit s

/-- Decimal digits; one alone may be zero, but more do not start with it. -/
def isWhole (s : List Char) : Bool := isDigits Char.isDigit s && (s.length == 1 || s.head? != some '0')

def dropSign : List Char → List Char
  | '+' :: s => s
  | '-' :: s => s
  | s => s

/-- A decimal integer may have a sign; one in another base has none. -/
def isInteger : List Char → Bool
  | '0' :: 'x' :: s => isDigits (fun c => (hexValue? c).isSome) s
  | '0' :: 'o' :: s => isDigits (fun c => '0' ≤ c && c ≤ '7') s
  | '0' :: 'b' :: s => isDigits (fun c => c == '0' || c == '1') s
  | s => isWhole (dropSign s)

def isDigitPart (c : Char) : Bool := c.isDigit || c == '_'

def isExponent : List Char → Bool
  | 'e' :: s => isDigits Char.isDigit (dropSign s)
  | 'E' :: s => isDigits Char.isDigit (dropSign s)
  | _ => false

/-- A float has a fraction, an exponent or both. -/
def isFloat (s : List Char) : Bool :=
  let s := dropSign s
  let rest := s.dropWhile isDigitPart
  s == "inf".toList || s == "nan".toList ||
    (isWhole (s.takeWhile isDigitPart) &&
      match rest with
      | '.' :: r =>
        isDigits Char.isDigit (r.takeWhile isDigitPart) &&
          ((r.dropWhile isDigitPart).isEmpty || isExponent (r.dropWhile isDigitPart))
      | r => isExponent r)

def twoDigits? : List Char → Option (Nat × List Char)
  | a :: b :: s =>
    if a.isDigit && b.isDigit then some ((a.toNat - 48) * 10 + (b.toNat - 48), s) else none
  | _ => none

def after? (c : Char) : List Char → Option (List Char)
  | d :: s => if d == c then some s else none
  | [] => none

def isLeapYear (year : Nat) : Bool := year % 4 == 0 && (year % 100 != 0 || year % 400 == 0)

def daysIn (year month : Nat) : Nat :=
  if month == 2 then if isLeapYear year then 29 else 28
  else if [4, 6, 9, 11].contains month then 30
  else 31

def afterDate? (s : List Char) : Option (List Char) := do
  let (century, s) ← twoDigits? s
  let (year, s) ← twoDigits? s
  let (month, s) ← twoDigits? (← after? '-' s)
  let (day, s) ← twoDigits? (← after? '-' s)
  if 1 ≤ month && month ≤ 12 && 1 ≤ day && day ≤ daysIn (century * 100 + year) month then some s
  else none

/-- What follows the fraction of a second; there may be none. -/
def afterFraction? : List Char → Option (List Char)
  | '.' :: c :: s => if c.isDigit then some (s.dropWhile Char.isDigit) else none
  | ['.'] => none
  | s => some s

/-- What follows a time. Seconds may be left out, and the sixtieth can be a leap second. -/
def afterTime? (s : List Char) : Option (List Char) := do
  let (hour, s) ← twoDigits? s
  let (minute, s) ← twoDigits? (← after? ':' s)
  if hour > 23 || minute > 59 then none
  else
    match s with
    | ':' :: s =>
      let (second, s) ← twoDigits? s
      if second > 60 then none else afterFraction? s
    | s => some s

/-- The distance from universal time, which a time with a date may have. -/
def isOffset : List Char → Bool
  | [] => true
  | ['Z'] => true
  | ['z'] => true
  | c :: s =>
    (c == '+' || c == '-') &&
      (do
        let (hour, s) ← twoDigits? s
        let (minute, s) ← twoDigits? (← after? ':' s)
        return s.isEmpty && hour ≤ 23 && minute ≤ 59) == some true

def isDate (s : List Char) : Bool := afterDate? s == some []

def isTime (s : List Char) : Bool := afterTime? s == some []

/-- A date and a time, with a letter or one blank between them. -/
def isDateTime (s : List Char) : Bool :=
  match afterDate? s with
  | some (c :: s) => (c == 'T' || c == 't' || c == ' ') && (afterTime? s).any isOffset
  | _ => false

def isScalar (s : List Char) : Bool :=
  s == "true".toList || s == "false".toList || isInteger s || isFloat s || isDate s || isTime s ||
    isDateTime s

end Stencil.Toml.Scalar
