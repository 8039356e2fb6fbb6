import Stencil.Entries
import Stencil.Toml.Token

/-! The tables of a TOML document and how statements extend them. A table can be opened once by a header;
the tables a header passes through may still be opened later. Dotted keys extend only tables that
dotted keys made, and inline tables are closed. -/
namespace Stencil.Toml

inductive Origin where
  | inline
  | header
  | passed
  | dotted
  deriving DecidableEq, Repr

inductive Value where
  | string (value : String)
  | scalar
  | array (items : List Value)
  | table (origin : Origin) (entries : List (String × Value))
  /-- Tables under one header that is repeated. -/
  | tables (items : List (List (String × Value)))
  deriving Repr, Inhabited

abbrev Table := Entries Value

namespace Table

def add? (t : Table) (k : String) (v : Value) : Option Table :=
  if (Entries.get? t k).isSome then none else some (t ++ [(k, v)])

/-- Adds the last key of a dotted path. -/
def insert? (k : String) (v : Value) : List String → Table → Option Table
  | [], t => add? t k v
  | first :: rest, t =>
    match Entries.get? t first with
    | none => (insert? k v rest []).map fun inner => t ++ [(first, .table .dotted inner)]
    | some (.table origin inner) =>
      if origin = .dotted ∨ (origin = .passed ∧ rest ≠ []) then
        (insert? k v rest inner).map fun inner => Entries.put t first (.table origin inner)
      else none
    | some _ => none

/-- Changes the table under a key on the path of a header; of repeated tables it is the last. -/
def descend (k : String) (f : Table → Option Table) (t : Table) : Option Table :=
  match Entries.get? t k with
  | none => (f []).map fun inner => t ++ [(k, .table .passed inner)]
  | some (.table origin inner) =>
    if origin = .inline then none else (f inner).map fun inner => Entries.put t k (.table origin inner)
  | some (.tables items) => do
    let last ← items.getLast?
    let last ← f last
    return Entries.put t k (.tables (items.dropLast ++ [last]))
  | some _ => none

def under (f : Table → Option Table) : List String → Table → Option Table
  | [], t => f t
  | k :: rest, t => descend k (under f rest) t

def openTable (k : String) (t : Table) : Option Table :=
  match Entries.get? t k with
  | none => some (t ++ [(k, .table .header [])])
  | some (.table .passed inner) => some (Entries.put t k (.table .header inner))
  | some _ => none

/-- Opens one more of the repeated tables under this key. -/
def openRepeated (k : String) (t : Table) : Option Table :=
  match Entries.get? t k with
  | none => some (t ++ [(k, .tables [[]])])
  | some (.tables items) => some (Entries.put t k (.tables (items ++ [[]])))
  | some _ => none

end Table

end Stencil.Toml
