import Stencil.Proofs.AuthoredValues

/-! What the end of a guard leaves of an element at hand. The changes that are kept are taken back in
elements that only read like those in which they were kept: an attribute that was taken off comes back at
another place, and a class attribute that was made for a class stays behind without it. This reading is
restored: each attribute but the class has its value or its absence back, and the classes are the same
words in the same order. -/
namespace Stencil.Markup

namespace Element

variable {e e' x : Element} {name : String}

theorem get?_setAttribute (e : Element) (name value other : String) :
    (e.setAttribute name value).2.get? other = if other = name then some value else e.get? other := by
  have put := (e.remember name).get?_put name value other
  rwa [get?_remember] at put

theorem get?_removeAttribute (distinct : (e.attrs.map (·.name)).Nodup) (name other : String) :
    (e.removeAttribute name).2.get? other = if other = name then none else e.get? other := by
  change ((e.remember name).erase name).get? other = _
  by_cases same : other = name
  · rw [if_pos same, same, get?, erase, attrs_remember]
    exact Attr.find?_erase_self distinct name
  · rw [if_neg same, get?_erase_of_ne same, get?_remember]

theorem get?_setClasses_of_ne {other : String} (apart : other ≠ "class") (classes : List String) :
    (e.setClasses classes).get? other = e.get? other := by
  rw [setClasses, get?_put, if_neg apart, get?_remember]

theorem classList_setClasses (e : Element) {classes : List String} (words : ∀ c ∈ classes, Text.IsWord c) :
    (e.setClasses classes).classList = classes := by
  rw [classList, setClasses, get?_put_self, Option.getD_some, Text.words_join words]

theorem isWord_of_mem_classList {word : String} (member : word ∈ e.classList) : Text.IsWord word :=
  Text.isWord_of_mem_words member

/-- The second element reads like the first: attributes other than the class are the same, and the classes
are the same words in the same order. -/
structure ReadsLike (e e' : Element) : Prop where
  get : ∀ name, name ≠ "class" → e'.get? name = e.get? name
  classes : e'.classList = e.classList

theorem ReadsLike.refl (e : Element) : ReadsLike e e := ⟨fun _ _ => rfl, rfl⟩

theorem ReadsLike.trans {e'' : Element} (first : ReadsLike e e') (second : ReadsLike e' e'') :
    ReadsLike e e'' :=
  ⟨fun name other => (second.get name other).trans (first.get name other),
    second.classes.trans first.classes⟩

/-- The reverse of a change takes back every element that reads like the one after the change. -/
def Reverses (e : Element) (change : Undo × Element) : Prop :=
  ∀ x : Element, (x.attrs.map (·.name)).Nodup → ReadsLike change.2 x → ReadsLike e (x.applyUndo change.1)

theorem classList_eq_of_get? (same : e'.get? "class" = e.get? "class") : e'.classList = e.classList := by
  rw [classList, classList, same]

/-- An attribute other than the class has been changed, and is now changed back. -/
theorem readsLike_of_restored (other : name ≠ "class")
    (changed : ∀ n, n ≠ name → e'.get? n = e.get? n) (like : ReadsLike e' x) {y : Element}
    (restored : y.get? name = e.get? name) (kept : ∀ n, n ≠ name → y.get? n = x.get? n) :
    ReadsLike e y := by
  constructor
  · intro n apart
    by_cases same : n = name
    · rw [same, restored]
    · rw [kept n same, like.get n apart, changed n same]
  · rw [classList_eq_of_get? (kept "class" other.symm), like.classes,
      classList_eq_of_get? (changed "class" other.symm)]

theorem reverses_setAttribute (other : name ≠ "class") (e : Element) (value : String) :
    Reverses e (e.setAttribute name value) := by
  intro x distinct like
  have changed : ∀ n, n ≠ name → (e.setAttribute name value).2.get? n = e.get? n := by
    intro n apart
    rw [get?_setAttribute, if_neg apart]
  cases before : e.get? name with
  | some previous =>
    have undo : (e.setAttribute name value).1 = .restore name previous := by simp [setAttribute, before]
    rw [undo]
    refine readsLike_of_restored other changed like ?_ fun n apart => ?_
    · rw [applyUndo, get?_setAttribute, if_pos rfl, before]
    · rw [applyUndo, get?_setAttribute, if_neg apart]
  | none =>
    have undo : (e.setAttribute name value).1 = .remove name := by simp [setAttribute, before]
    rw [undo]
    refine readsLike_of_restored other changed like ?_ fun n apart => ?_
    · rw [applyUndo, get?_removeAttribute distinct, if_pos rfl, before]
    · rw [applyUndo, get?_removeAttribute distinct, if_neg apart]

/-- Nothing was there to be taken off. -/
theorem readsLike_of_absent (distinct : (e.attrs.map (·.name)).Nodup) (absent : e.get? name = none) :
    ReadsLike e (e.removeAttribute name).2 := by
  have same : ∀ n, (e.removeAttribute name).2.get? n = e.get? n := by
    intro n
    rw [get?_removeAttribute distinct]
    split
    · rename_i own
      rw [own, absent]
    · rfl
  exact ⟨fun n _ => same n, classList_eq_of_get? (same "class")⟩

theorem reverses_removeAttribute (distinct : (e.attrs.map (·.name)).Nodup) (name : String) :
    Reverses e (e.removeAttribute name) := by
  intro x distinct' like
  have changed : ∀ n, n ≠ name → (e.removeAttribute name).2.get? n = e.get? n := by
    intro n apart
    rw [get?_removeAttribute distinct, if_neg apart]
  cases before : e.get? name with
  | none =>
    have undo : (e.removeAttribute name).1 = .nothing := by simp [removeAttribute, before]
    rw [undo]
    exact (readsLike_of_absent distinct before).trans like
  | some previous =>
    have undo : (e.removeAttribute name).1 = .restore name previous := by simp [removeAttribute, before]
    rw [undo]
    have restored : (x.applyUndo (.restore name previous)).get? name = e.get? name := by
      rw [applyUndo, get?_setAttribute, if_pos rfl, before]
    have kept : ∀ n, n ≠ name → (x.applyUndo (.restore name previous)).get? n = x.get? n := by
      intro n apart
      rw [applyUndo, get?_setAttribute, if_neg apart]
    by_cases isClass : name = "class"
    · -- The whole class attribute comes back, whatever classes there are meanwhile.
      subst isClass
      refine ⟨fun n apart => ?_, classList_eq_of_get? restored⟩
      rw [kept n apart, like.get n apart, changed n apart]
    · exact readsLike_of_restored isClass changed like restored kept

theorem reverses_addClass (e : Element) {word : String} (isWord : Text.IsWord word) :
    Reverses e (e.addClass word) := by
  intro x _ like
  by_cases member : word ∈ e.classList
  · have idle : e.addClass word = (.nothing, e) := by simp [addClass, member]
    rw [idle] at like ⊢
    exact like
  have added : e.addClass word = (.removeClass word, e.setClasses (e.classList ++ [word])) := by
    simp [addClass, member]
  rw [added] at like ⊢
  have all : ∀ c ∈ e.classList ++ [word], Text.IsWord c := by
    intro c inside
    rcases List.mem_append.mp inside with old | new
    · exact isWord_of_mem_classList old
    · rw [List.mem_singleton.mp new]
      exact isWord
  have classes : x.classList = e.classList ++ [word] := by
    rw [like.classes, classList_setClasses e all]
  -- The class is the last one, and no other is like it.
  have others : x.classList.filter (· != word) = e.classList := by
    have kept : e.classList.filter (· != word) = e.classList := by
      rw [List.filter_eq_self]
      intro c inside
      simpa using fun same : c = word => member (same ▸ inside)
    rw [classes, List.filter_append, kept]
    simp
  have removed : x.applyUndo (.removeClass word) = x.setClasses e.classList := by
    rw [applyUndo, removeClass, if_pos (by simp [classes]), others]
  rw [removed]
  refine ⟨fun n apart => ?_, classList_setClasses x fun c => isWord_of_mem_classList⟩
  rw [get?_setClasses_of_ne apart, like.get n apart, get?_setClasses_of_ne apart]

end Element

namespace Scoped

open Element (ReadsLike Reverses Keeps)

/-- Taking back what is kept leads from every element that reads like the guarded one to one that reads like
`e`. -/
structure Restores (e : Element) (s : Scoped Element) : Prop where
  distinct : (s.node.attrs.map (·.name)).Nodup
  back : ∀ x : Element, (x.attrs.map (·.name)).Nodup → ReadsLike s.node x →
    ReadsLike e (undone s.pending x)

theorem restores_start {e : Element} (distinct : (e.attrs.map (·.name)).Nodup) :
    Restores e { node := e } :=
  ⟨distinct, fun _ _ like => like⟩

variable {e : Element} {s : Scoped Element}

theorem Restores.record (restores : Restores e s) {change : Undo × Element} (keeps : Keeps s.node change.2)
    (reverses : Reverses s.node change) : Restores e (s.record change) := by
  refine ⟨keeps.distinct restores.distinct, fun x distinct like => ?_⟩
  exact restores.back _ ((x.keeps_applyUndo change.1).distinct distinct) (reverses x distinct like)

theorem Restores.addClass (restores : Restores e s) {word : String} (isWord : Text.IsWord word) :
    Restores e (s.record (s.node.addClass word)) :=
  restores.record (s.node.keeps_addClass word) (s.node.reverses_addClass isWord)

theorem Restores.addClasses (restores : Restores e s) {classes : List String}
    (words : ∀ c ∈ classes, Text.IsWord c) : Restores e (s.addClasses classes) := by
  induction classes generalizing s with
  | nil => exact restores
  | cons word rest ih =>
    obtain ⟨here, later⟩ := List.forall_mem_cons.mp words
    exact ih (restores.addClass here) later

/-- What can be done through a guard. -/
inductive Change where
  | set (name value : String)
  | remove (name : String)
  | addClass (word : String)
  deriving DecidableEq, Repr

namespace Change

def run {σ : Type} (a : Access σ) : Change → ScopedM σ Unit
  | set name value => setAttribute a name value
  | remove name => removeAttribute a name
  | addClass word => Scoped.addClass a word

/-- The changes one after the other; one that fails does not stop the next. -/
def runAll {σ : Type} (a : Access σ) : List Change → Scoped σ → Scoped σ
  | [], s => s
  | change :: rest, s => runAll a rest (change.run a s).2

theorem restores_run (restores : Restores e s) {change : Change}
    (words : ∀ word, change = .addClass word → Text.IsWord word) :
    Restores e (change.run Access.ofElement s).2 := by
  cases change with
  | set name value =>
    rw [run, setAttribute_ofElement]
    by_cases isClass : name = "class"
    · rw [if_pos isClass]
      exact restores.addClasses fun c => Text.isWord_of_mem_words
    · rw [if_neg isClass]
      exact restores.record (s.node.keeps_put name value) (s.node.reverses_setAttribute isClass value)
  | remove name =>
    rw [run, removeAttribute_ofElement]
    exact restores.record (s.node.keeps_erase name) (Element.reverses_removeAttribute restores.distinct name)
  | addClass word =>
    rw [run, addClass_ofElement]
    exact restores.addClass (words word rfl)

theorem restores_runAll (restores : Restores e s) {changes : List Change}
    (words : ∀ word, .addClass word ∈ changes → Text.IsWord word) :
    Restores e (runAll Access.ofElement changes s) := by
  induction changes generalizing s with
  | nil => exact restores
  | cons change rest ih =>
    refine ih (restores_run restores fun word same => ?_) fun word member => ?_
    · exact words word (same ▸ List.mem_cons_self ..)
    · exact words word (List.mem_cons_of_mem _ member)

end Change

end Scoped

open Scoped (Change)

/-- A guard that ends takes back what was done through it. Whichever way it ends there is no failure to
report; every attribute but the class has the value it had or is absent as it was, and the classes are the
same words in the same order. -/
theorem rollback_restores {e : Element} (distinct : (e.attrs.map (·.name)).Nodup) {changes : List Change}
    (words : ∀ word, .addClass word ∈ changes → Text.IsWord word) :
    let s := Change.runAll Access.ofElement changes { node := e }
    ∃ left : Element, s.rollback Access.ofElement = (.ok (), [], left) ∧
      s.drop Access.ofElement = ([], left) ∧
      (∀ name, name ≠ "class" → left.get? name = e.get? name) ∧ left.classList = e.classList := by
  intro s
  have restores : s.Restores e := Change.restores_runAll (Scoped.restores_start distinct) words
  have like := restores.back s.node restores.distinct (.refl _)
  exact ⟨_, s.rollback_ofElement, s.drop_ofElement, like.get, like.classes⟩

/-- A field that loses its class and is given others, one of them twice: what the guard leaves has its class
back, and no name. -/
theorem rollback_restores_field :
    let field : Element := { tag := "input", attrs := [⟨"class", " field  on"⟩, ⟨"value", "17"⟩] }
    let changes : List Change := [.addClass "wide", .set "name" "amount", .remove "class",
      .set "class" "on active on", .remove "value"]
    let s := Change.runAll Access.ofElement changes { node := field }
    s.node.classList = ["on", "active"] ∧ s.pending.length = 7 ∧
      ∃ left : Element, s.rollback Access.ofElement = (.ok (), [], left) ∧ left.get? "name" = none ∧
        left.get? "value" = some "17" ∧ left.classList = ["field", "on"] := by
  intro field changes s
  have words : ∀ word, .addClass word ∈ changes → Text.IsWord word := by
    intro word member
    obtain rfl : word = "wide" := by simpa [changes] using member
    exact Text.isWord_of_mem_words (show "wide" ∈ Text.words "wide" by decide +kernel)
  obtain ⟨left, ended, -, same, classes⟩ := rollback_restores (e := field) (by decide) words
  refine ⟨by decide +kernel, by decide +kernel, left, ended, ?_, ?_, classes.trans (by decide +kernel)⟩
  · exact same "name" (by decide)
  · exact same "value" (by decide)

end Stencil.Markup
