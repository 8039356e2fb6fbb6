import Stencil.Text.CaseMapping
import Stencil.Text.Grapheme

/-! Names in camel case and Pascal case. A text is cut into words at underscores, hyphens and spaces,
between a small and a capital letter, between letters and digits, and before the last capital of a run
that a small letter follows. -/
namespace Stencil.Text

namespace WordCase

/-- A cluster that case changes and that is in lower case. -/
def isLower (g : List Char) : Bool := upper g != lower g && g == lower g

/-- A cluster that case changes and that is in upper case. -/
def isUpper (g : List Char) : Bool := upper g != lower g && g == upper g

def isDigit (g : List Char) : Bool := g.all fun c => '0' ≤ c && c ≤ '9'

def isSeparator (g : List Char) : Bool := g == ['_'] || g == ['-'] || g == [' ']

/-- Whether a word ends between two neighbouring clusters, given what follows them. -/
def cutsBetween (a b : List Char) (next : Option (List Char)) : Bool :=
  (isLower a && isUpper b) || (isUpper a && isUpper b && next.any isLower) ||
    ((isLower a || isUpper a) && isDigit b) || (isDigit a && (isLower b || isUpper b))

/-- The words, each as its clusters; some may be empty. -/
def cut : List (List Char) → List (List (List Char))
  | [] => [[]]
  | g :: rest =>
    let later := cut rest
    if isSeparator g then [] :: later
    else
      match rest, later with
      | b :: rest', first :: others =>
        if cutsBetween g b rest'.head? then [g] :: first :: others else (g :: first) :: others
      | _, _ => [g] :: later.tail

def words (s : List Char) : List (List (List Char)) := (cut (graphemes s)).filter (!·.isEmpty)

def capitalize : List (List Char) → List Char
  | [] => []
  | g :: rest => upper g ++ lower rest.flatten

/-- The first word in lower case, the later ones capitalized. -/
def camelWords : List (List (List Char)) → List Char
  | [] => []
  | w :: rest => lower w.flatten ++ rest.flatMap capitalize

end WordCase

def camelCase (s : String) : String :=
  String.ofList (WordCase.camelWords (WordCase.words s.toList))

def pascalCase (s : String) : String :=
  String.ofList ((WordCase.words s.toList).flatMap WordCase.capitalize)

end Stencil.Text
