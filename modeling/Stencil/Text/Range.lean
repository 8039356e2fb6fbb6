/-! Sets of characters given as ascending ranges of code points. -/
namespace Stencil.Text

/-- Whether a code point lies in one of the ranges, both ends included. -/
def inRanges (ranges : List (Nat × Nat)) (n : Nat) : Bool :=
  ranges.any fun (first, last) => first ≤ n && n ≤ last

end Stencil.Text
