/-! Names that are not taken. A name keeps its spelling if it can; otherwise the numbers 2, 3, … are
tried behind it. Of the first `n + 1` candidates one is free whenever `n` names are taken, so the
search looks no further. -/
namespace Stencil.FreshName

/-- The candidates for `name` in the order in which they are tried. -/
def candidate (name : String) : Nat → String
  | 0 => name
  | k + 1 => name ++ toString (k + 2)

/-- The first free candidate from the `k`-th on; the `tries`-th after it is taken to be free. -/
def search (taken : List String) (name : String) : (tries k : Nat) → String
  | 0, k => candidate name k
  | tries + 1, k =>
    if taken.contains (candidate name k) then search taken name tries (k + 1) else candidate name k

def pick (taken : List String) (name : String) : String := search taken name taken.length 0

def take (taken : List String) (name : String) : String × List String :=
  (pick taken name, taken ++ [pick taken name])

def takeAll (taken : List String) : List String → List String × List String
  | [] => ([], taken)
  | name :: rest =>
    let (given, taken) := take taken name
    let (later, taken) := takeAll taken rest
    (given :: later, taken)

end Stencil.FreshName
