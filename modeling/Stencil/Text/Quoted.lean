import Stencil.Text.GraphemeExtend
import Stencil.Text.Unprintable

/-! Text in double quotes as error messages show it: backslash escapes for the quote, the backslash, tab
and line ends, the code point in braces for what has no visible form of its own, and everything else as
it is. -/
namespace Stencil.Text

def hexDigits (n : Nat) : List Char := Nat.toDigits 16 n

/-- The halfwidth sound marks continue a character and yet stand in a cell of their own. -/
def isHalfwidthSoundMark (c : Char) : Bool := c.toNat == 0xFF9E || c.toNat == 0xFF9F

/-- Whether a character would not be seen, or would change the look of the one before. -/
def isHidden (c : Char) : Bool :=
  isUnprintable c || (isGraphemeExtend c && !isHalfwidthSoundMark c)

def quoteChar (c : Char) : List Char :=
  if c = '\x00' then ['\\', '0']
  else if c = '\t' then ['\\', 't']
  else if c = '\r' then ['\\', 'r']
  else if c = '\n' then ['\\', 'n']
  else if c = '"' then ['\\', '"']
  else if c = '\\' then ['\\', '\\']
  else if isHidden c then
    ['\\', 'u', '\x7b'] ++ hexDigits c.toNat ++ ['\x7d']
  else [c]

def quoted (s : String) : String := "\"" ++ String.ofList (s.toList.flatMap quoteChar) ++ "\""

end Stencil.Text
