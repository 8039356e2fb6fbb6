import Stencil.Markup.Access
import Stencil.Notice

/-! Attribute changes that are taken back together. A guard keeps the reverse of each change; ending it
applies them, the latest first, up to the first that fails. Rolling back reports that failure and then
lets the guard go, which goes on with what is left; letting go reports only by a notice. -/
namespace Stencil.Markup

/-- A node under a guard and the changes to take back, the latest first. -/
structure Scoped (σ : Type) where
  node : σ
  pending : List Undo := []

abbrev ScopedM (σ : Type) := ExceptT AccessError (StateM (Scoped σ))

namespace Scoped

variable {σ : Type}

def onNode {α : Type} (x : AccessM σ α) : ScopedM σ α := fun s =>
  let (result, node) := x.run s.node
  (result, { s with node })

/-- Runs a change and keeps its reverse. -/
def recording (x : AccessM σ Undo) : ScopedM σ Unit := do
  let undo ← onNode x
  modify fun s => { s with pending := undo :: s.pending }

def addClass (a : Access σ) (name : String) : ScopedM σ Unit := recording (a.addClass name)

def removeAttribute (a : Access σ) (name : String) : ScopedM σ Unit :=
  recording (a.removeAttribute name)

/-- The class attribute is added to, one class after the other; any other attribute is set. -/
def setAttribute (a : Access σ) (name value : String) : ScopedM σ Unit :=
  if name == "class" then (Text.words value).forM (addClass a)
  else recording (a.setAttribute name value)

/-- Applies changes in turn up to the first that fails; returns those not tried. -/
def unwind (a : Access σ) : List Undo → σ → Except AccessError Unit × Scoped σ
  | [], node => (.ok (), ⟨node, []⟩)
  | undo :: rest, node =>
    match (a.applyUndo undo).run node with
    | (.ok (), node) => unwind a rest node
    | (.error e, node) => (.error e, ⟨node, rest⟩)

def drop (a : Access σ) (s : Scoped σ) : List Notice × σ :=
  match unwind a s.pending s.node with
  | (.ok (), s) => ([], s.node)
  | (.error e, s) => ([.rollbackFailed e.message], s.node)

def rollback (a : Access σ) (s : Scoped σ) : Except AccessError Unit × List Notice × σ :=
  let (result, s) := unwind a s.pending s.node
  (result, s.drop a)

end Scoped

end Stencil.Markup
