/-! How great a number is, and whether a double can hold it. The digits are gathered in a word of 64 bits
beside a power of ten; word and power are rounded to doubles, and so is their product. -/
namespace Stencil.Json

structure Magnitude where
  significand : Nat
  /-- The power of ten that the significand is multiplied by. -/
  exponent : Int
  deriving DecidableEq, Repr

namespace Magnitude

def digitValue (c : Char) : Nat := c.toNat - 48

def digitsValue (ds : List Char) : Nat := ds.foldl (fun n c => n * 10 + digitValue c) 0

/-- Puts digits at the end of a number up to the first that makes it too great for a word, and returns
the digits that are left. -/
def gather (n : Nat) : List Char → Nat × List Char
  | [] => (n, [])
  | d :: ds =>
    if n * 10 + digitValue d < Nat.pow 2 64 then gather (n * 10 + digitValue d) ds else (n, d :: ds)

/-- A digit left of the whole part counts by its place only, one left of the fraction not at all. -/
def ofDigits (whole fraction : List Char) (negative : Bool) (exponent : List Char) : Magnitude :=
  let (n, leftOfWhole) := gather 0 whole
  let (n, leftOfFraction) := gather n fraction
  let power : Int := digitsValue exponent
  { significand := n
    exponent :=
      leftOfWhole.length - (fraction.length - leftOfFraction.length : Nat) +
        if negative then -power else power }

/-- The nearest number with 53 binary digits; of two that are as near, the even one. -/
def roundToDouble (n : Nat) : Nat :=
  let unit := Nat.pow 2 (Nat.log2 n - 52)
  let below := n / unit
  let left := n % unit
  let up := unit < 2 * left || (unit == 2 * left && below % 2 == 1)
  (if up then below + 1 else below) * unit

def limit : Nat := Nat.pow 2 1024 - Nat.pow 2 970

/-- A power that is no double is too great for all but zero. -/
def isFinite (m : Magnitude) : Bool :=
  m.significand == 0 || m.exponent < 0 ||
    (m.exponent ≤ 308 &&
      roundToDouble m.significand * roundToDouble (Nat.pow 10 m.exponent.toNat) < limit)

theorem gather_lt {n : Nat} (ds : List Char) (h : n < Nat.pow 2 64) :
    (gather n ds).1 < Nat.pow 2 64 := by
  fun_induction gather n ds with
  | case1 => exact h
  | case2 n d ds hd ih => exact ih hd
  | case3 => exact h

theorem significand_lt (whole fraction : List Char) (negative : Bool) (exponent : List Char) :
    (ofDigits whole fraction negative exponent).significand < Nat.pow 2 64 :=
  gather_lt fraction (gather_lt whole (by decide))

end Magnitude

end Stencil.Json
