import Stencil.Proofs.GuardedElement
import Stencil.Template.Preview

/-! One element in a preview: what the values do to each attribute, the element while it is written, and
the element that the guard leaves behind. An attribute that was taken off comes back at the end, so the
guard restores every value and not always the order. -/
namespace Stencil.Preview

open Markup (Element Attr Scoped ScopedM Access Undo addWord)

/-- What the values do to an attribute. -/
inductive Fate where
  | kept
  | set (value : String)
  | gone
  /-- The class attribute, taken off and built again from these words. -/
  | rebuilt (classes : List String)
  deriving DecidableEq, Repr

namespace Fate

def ofMarkers (values : Values) (name text : String) (markers : List Marker) : Fate :=
  let value := attributeText text markers values
  if markers.isEmpty then .kept
  else if name == "class" then
    match Text.words value with
    | [] => .gone
    | classes => .rebuilt classes
  else if value.isEmpty then .gone
  else .set value

def ofRaw (values : Values) (name raw : String) : Except MarkerError Fate :=
  (Marker.parse raw).map fun (text, markers) => ofMarkers values name text markers

def isGone : Fate → Bool
  | gone => true
  | _ => false

def isRebuilt : Fate → Bool
  | rebuilt _ => true
  | _ => false

/-- The attribute keeps its place. -/
def stays (f : Fate) : Bool := !f.isGone && !f.isRebuilt

/-- The class attribute alone is built again, and never from nothing. -/
theorem rebuilt_of_ofRaw {values : Values} {name raw : String} {classes : List String}
    (known : ofRaw values name raw = .ok (.rebuilt classes)) : name = "class" ∧ classes ≠ [] := by
  unfold ofRaw at known
  rcases parsed : Marker.parse raw with reason | ⟨text, markers⟩ <;> rw [parsed] at known
  · cases known
  have fate : ofMarkers values name text markers = .rebuilt classes := Except.ok.inj known
  unfold ofMarkers at fate
  dsimp only at fate
  split at fate
  · cases fate
  split at fate
  · rename_i isClass
    refine ⟨by simpa using isClass, ?_⟩
    split at fate
    · cases fate
    · rename_i filled
      cases fate
      exact filled
  · split at fate <;> cases fate

end Fate

/-- An attribute and what becomes of it. -/
structure Fated where
  attr : Attr
  fate : Fate
  deriving DecidableEq, Repr

namespace Fated

/-- What stands in the place of the attribute. -/
def shown (x : Fated) : Option Attr :=
  match x.fate with
  | .kept => some x.attr
  | .set value => some ⟨x.attr.name, value⟩
  | .gone | .rebuilt _ => none

/-- The attribute that is built again, behind all others. -/
def anew (x : Fated) : Option Attr :=
  match x.fate with
  | .rebuilt classes => some ⟨x.attr.name, classes.foldl addWord ""⟩
  | _ => none

end Fated

/-- Makes the changes of one attribute. -/
def change (s : Scoped Element) (name : String) : Fate → Scoped Element
  | .kept => s
  | .set value => s.record (s.node.setAttribute name value)
  | .gone => s.record (s.node.removeAttribute name)
  | .rebuilt classes => (s.record (s.node.removeAttribute name)).addClasses classes

/-- Why an attribute cannot be shown. -/
def failure (template name raw : String) (reason : MarkerError) : CompileError :=
  .attributes { template, snippet := name ++ "=\"" ++ raw ++ "\"", reason := .marker name reason }

theorem onGuard_removeAttribute (name : String) (s : Scoped Element) :
    onGuard (Scoped.removeAttribute Access.ofElement name) s =
      (.ok (), s.record (s.node.removeAttribute name)) := rfl

theorem onGuard_setAttribute {name : String} (other : name ≠ "class") (value : String) (s : Scoped Element) :
    onGuard (Scoped.setAttribute Access.ofElement name value) s =
      (.ok (), s.record (s.node.setAttribute name value)) := by
  rw [onGuard, Scoped.setAttribute_ofElement, if_neg other]

theorem onGuard_setClasses (value : String) (s : Scoped Element) :
    onGuard (Scoped.setAttribute Access.ofElement "class" value) s =
      (.ok (), s.addClasses (Text.words value)) := by
  rw [onGuard, Scoped.setAttribute_ofElement, if_pos rfl]

theorem bindAttribute_eq (template : String) (values : Values) (name : String) (s : Scoped Element) :
    bindAttribute template values name s =
      match Fate.ofRaw values name (s.node.authored name) with
      | .error reason => (.error (failure template name (s.node.authored name) reason), s)
      | .ok f => (.ok (), change s name f) := by
  have read : onGuard (Scoped.onNode (Access.ofElement.read name)) s =
      (.ok (s.node.authored name), s) := by
    have here : (Access.ofElement.read name).run s.node = (.ok (s.node.authored name), s.node) :=
      Attribute.read_ofElement s.node name
    rw [onGuard, Scoped.onNode, here]
  unfold bindAttribute
  dsimp only
  rw [bind_apply, read]
  dsimp only
  unfold Fate.ofRaw
  rcases Marker.parse (s.node.authored name) with reason | ⟨text, markers⟩
  · rfl
  · change _ = (Except.ok (), change s name (Fate.ofMarkers values name text markers))
    unfold Fate.ofMarkers
    dsimp only
    generalize attributeText text markers values = value
    by_cases unmarked : markers.isEmpty = true
    · rw [if_neg (by simp [unmarked]), if_pos unmarked]
      rfl
    rw [if_pos (by simpa using unmarked), if_neg unmarked]
    by_cases empty : value = ""
    · subst empty
      rw [if_pos (by simp), bind_apply, onGuard_removeAttribute]
      by_cases isClass : name = "class" <;> simp [isClass] <;> rfl
    have filled : value.isEmpty = false := by simpa using empty
    by_cases isClass : name = "class"
    · subst isClass
      rw [if_pos (by simp), bind_apply, onGuard_removeAttribute]
      dsimp only
      rw [if_pos (by simp [filled]), onGuard_setClasses, if_pos (by decide)]
      cases Text.words value <;> rfl
    · rw [if_neg (by simp [filled, isClass]), if_pos (by simp [filled]), onGuard_setAttribute isClass,
        if_neg (by simpa using isClass), if_neg (by simp [filled])]
      rfl

/-! The element while its attributes are gone through. Those that are done stand in front as they are
shown, except for a class attribute that was built again, which stands last. -/

/-- The first values that are noted down when these attributes change. -/
def noted (e : Element) (done : List Fated) : List Attr :=
  (done.filter fun x => x.fate != .kept && (e.pristine? x.attr.name).isNone).map (·.attr)

def staying (done : List Fated) : List Fated := done.filter (·.fate.stays)

def rebuilt (done : List Fated) : List Fated := done.filter (·.fate.isRebuilt)

def gone (done : List Fated) : List Fated := done.filter (·.fate.isGone)

/-- The element with some of its attributes done. -/
def written (e : Element) (done : List Fated) (todo : List Attr) : Element :=
  { e with
    attrs := done.filterMap Fated.shown ++ todo ++ done.filterMap Fated.anew
    pristine := e.pristine ++ noted e done }

/-- The changes that are kept take an element back whatever has been added to it meanwhile: what was set
gets its value in place, what was removed comes back at the end, the latest first. -/
def TakesBack (e : Element) (done : List Fated) (pending : List Undo) : Prop :=
  ∀ middle last pristine,
    (∀ x ∈ done, x.attr.name ∉ (middle ++ last).map (·.name)) →
    (∀ x ∈ done, x.fate ≠ .kept → x.attr.name ∈ pristine.map (·.name)) →
    Scoped.undone pending { e with
        attrs := done.filterMap Fated.shown ++ middle ++ done.filterMap Fated.anew ++ last, pristine } =
      { e with
        attrs := (staying done).map (·.attr) ++ middle ++ (rebuilt done).map (·.attr) ++ last ++
          ((gone done).map (·.attr)).reverse
        pristine }

structure Bound (e : Element) (done : List Fated) (todo : List Attr) (s : Scoped Element) : Prop where
  node : s.node = written e done todo
  back : TakesBack e done s.pending

theorem bound_start (e : Element) : Bound e [] e.attrs { node := e } where
  node := by simp [written, noted]
  back := by
    intro middle last pristine _ _
    simp [staying, rebuilt, gone]

section Names

variable {done : List Fated} {name : String}

/-- What is made of attributes without giving them other names has no other names. -/
theorem find?_filterMap {f : Fated → Option Attr} (named : ∀ x a, f x = some a → a.name = x.attr.name)
    (absent : name ∉ done.map (·.attr.name)) : Attr.find? (done.filterMap f) name = none := by
  rw [Attr.find?_eq_none_iff]
  intro member
  obtain ⟨a, found, rfl⟩ := List.mem_map.mp member
  obtain ⟨x, here, made⟩ := List.mem_filterMap.mp found
  exact absent (List.mem_map.mpr ⟨x, here, (named x a made).symm⟩)

theorem find?_shown (absent : name ∉ done.map (·.attr.name)) :
    Attr.find? (done.filterMap Fated.shown) name = none := by
  refine find?_filterMap ?_ absent
  rintro ⟨attr, _ | value | _ | classes⟩ a ⟨⟩ <;> rfl

theorem find?_anew (absent : name ∉ done.map (·.attr.name)) :
    Attr.find? (done.filterMap Fated.anew) name = none := by
  refine find?_filterMap ?_ absent
  rintro ⟨attr, _ | value | _ | classes⟩ a ⟨⟩
  rfl

/-- Among attributes that are done and others, a name that neither have is missing. -/
theorem find?_around {middle last : List Attr} (absent : name ∉ done.map (·.attr.name))
    (apart : name ∉ (middle ++ last).map (·.name)) :
    Attr.find? (done.filterMap Fated.shown ++ middle ++ done.filterMap Fated.anew ++ last) name = none := by
  rw [List.map_append, List.mem_append, not_or, ← Attr.find?_eq_none_iff, ← Attr.find?_eq_none_iff] at apart
  simp [Attr.find?_append, find?_shown absent, find?_anew absent, apart]

theorem find?_noted (e : Element) (absent : name ∉ done.map (·.attr.name)) :
    Attr.find? (noted e done) name = none := by
  rw [Attr.find?_eq_none_iff]
  intro member
  obtain ⟨a, found, rfl⟩ := List.mem_map.mp member
  obtain ⟨x, here, rfl⟩ := List.mem_map.mp found
  exact absent (List.mem_map.mpr ⟨x, List.mem_of_mem_filter here, rfl⟩)

theorem noted_snoc (e : Element) (done : List Fated) (a : Attr) {f : Fate} (changed : f ≠ .kept) :
    noted e (done ++ [⟨a, f⟩]) = noted e done ++ if (e.pristine? a.name).isNone then [a] else [] := by
  cases known : e.pristine? a.name <;> simp [noted, known, changed]

/-- The first value of every changed attribute is noted down, unless it was before. -/
theorem mem_pristine (e : Element) {x : Fated} (member : x ∈ done) (changed : x.fate ≠ .kept) :
    x.attr.name ∈ (e.pristine ++ noted e done).map (·.name) := by
  rw [List.map_append, List.mem_append]
  by_cases known : x.attr.name ∈ e.pristine.map (·.name)
  · exact .inl known
  · have first : e.pristine? x.attr.name = none := Attr.find?_eq_none_iff.mpr known
    refine .inr (List.mem_map.mpr ⟨x.attr, List.mem_map.mpr ⟨x, ?_, rfl⟩, rfl⟩)
    simp [member, changed, first]

end Names

section Step

variable {e : Element} {a : Attr} {done : List Fated} {todo : List Attr}

theorem get?_written (absent : a.name ∉ done.map (·.attr.name)) :
    (written e done (a :: todo)).get? a.name = some a.value := by
  simp [written, Element.get?, Attr.find?_append, find?_shown absent]

theorem remember_written {f : Fate} (absent : a.name ∉ done.map (·.attr.name)) (changed : f ≠ .kept) :
    (written e done (a :: todo)).remember a.name =
      { written e done (a :: todo) with pristine := e.pristine ++ noted e (done ++ [⟨a, f⟩]) } := by
  have found : (written e done (a :: todo)).pristine? a.name = e.pristine? a.name := by
    simp [written, Element.pristine?, Attr.find?_append, find?_noted e absent]
  unfold Element.remember
  rw [found, get?_written absent]
  cases known : e.pristine? a.name <;> simp [written, noted_snoc, known, changed]

theorem written_kept : written e done (a :: todo) = written e (done ++ [⟨a, .kept⟩]) todo := by
  simp [written, noted, Fated.shown, Fated.anew]

theorem written_set (absent : a.name ∉ done.map (·.attr.name)) (value : String) :
    (written e done (a :: todo)).setAttribute a.name value =
      (.restore a.name a.value, written e (done ++ [⟨a, .set value⟩]) todo) := by
  unfold Element.setAttribute
  rw [get?_written absent, remember_written (f := .set value) absent (by simp)]
  simp [written, Element.put, Attr.put_append (find?_shown absent), Fated.shown, Fated.anew,
    List.filterMap_cons]

theorem written_gone (absent : a.name ∉ done.map (·.attr.name)) :
    (written e done (a :: todo)).removeAttribute a.name =
      (.restore a.name a.value, written e (done ++ [⟨a, .gone⟩]) todo) := by
  unfold Element.removeAttribute
  rw [get?_written absent, remember_written (f := .gone) absent (by simp)]
  simp [written, Element.erase, Attr.erase_append (find?_shown absent), Fated.shown, Fated.anew,
    List.filterMap_cons]

theorem written_rebuilt (isClass : a.name = "class") (absent : a.name ∉ done.map (·.attr.name))
    (apart : a.name ∉ todo.map (·.name)) {classes : List String} (filled : classes ≠ []) (s : Scoped Element)
    (node : s.node = written e done (a :: todo)) :
    (change s a.name (.rebuilt classes)).node = written e (done ++ [⟨a, .rebuilt classes⟩]) todo := by
  obtain ⟨word, rest, rfl⟩ := List.exists_cons_of_ne_nil filled
  have removed := @written_gone e a done todo absent
  have attrs : (written e (done ++ [⟨a, .gone⟩]) todo).attrs =
      done.filterMap Fated.shown ++ todo ++ done.filterMap Fated.anew := by
    simp [written, Fated.shown, Fated.anew, List.filterMap_cons]
  have empty :
      Attr.find? (done.filterMap Fated.shown ++ todo ++ done.filterMap Fated.anew) "class" = none := by
    have around := @find?_around _ _ todo [] absent (by simpa using apart)
    simpa [isClass] using around
  have kept : ((written e (done ++ [⟨a, .gone⟩]) todo).pristine? "class").isSome = true := by
    rw [Element.pristine?, Attr.isSome_find?_iff, ← isClass]
    exact mem_pristine (x := ⟨a, .gone⟩) e (by simp) (by simp)
  have grown := fun value => Attr.put_of_find?_eq_none value empty
  rw [change, node, removed, Scoped.node_addClasses kept]
  simp only [Scoped.record, Element.get?, Element.put, attrs, empty, grown]
  simp [written, noted_snoc, isClass, Fated.shown, Fated.anew, List.filterMap_cons]

end Step

section TakesBack

variable {e : Element} {a : Attr} {done : List Fated} {pending : List Undo}

/-- An attribute that is done last shares its name with no earlier one. -/
theorem apart_of_snoc {x : Fated} {names names' : List String} (absent : x.attr.name ∉ done.map (·.attr.name))
    (apart : ∀ y ∈ done ++ [x], y.attr.name ∉ names)
    (only : ∀ name ∈ names', name = x.attr.name ∨ name ∈ names) : ∀ y ∈ done, y.attr.name ∉ names' := by
  intro y member found
  rcases only _ found with same | other
  · exact absent (List.mem_map.mpr ⟨y, member, same⟩)
  · exact apart y (List.mem_append_left _ member) other

theorem takesBack_kept (back : TakesBack e done pending) (absent : a.name ∉ done.map (·.attr.name)) :
    TakesBack e (done ++ [⟨a, .kept⟩]) pending := by
  intro middle last pristine apart kept
  have earlier := back (a :: middle) last pristine
    (apart_of_snoc absent apart (by simp))
    fun x member => kept x (List.mem_append_left _ member)
  simpa [staying, rebuilt, gone, Fated.shown, Fated.anew, List.filterMap_cons, Fate.stays, Fate.isGone,
    Fate.isRebuilt] using earlier

theorem takesBack_set (back : TakesBack e done pending) (absent : a.name ∉ done.map (·.attr.name))
    (value : String) :
    TakesBack e (done ++ [⟨a, .set value⟩]) (.restore a.name a.value :: pending) := by
  intro middle last pristine apart kept
  have earlier := back (a :: middle) last pristine
    (apart_of_snoc absent apart (by simp))
    fun x member => kept x (List.mem_append_left _ member)
  have noted : a.name ∈ pristine.map (·.name) := kept ⟨a, .set value⟩ (by simp) (by simp)
  rw [Scoped.undone_cons, Element.applyUndo_restore (Attr.isSome_find?_iff.mpr noted)]
  simpa [Element.put, Attr.put_append (find?_shown absent), staying, rebuilt, gone, Fated.shown, Fated.anew,
    List.filterMap_cons, Fate.stays, Fate.isGone, Fate.isRebuilt] using earlier

theorem takesBack_gone (back : TakesBack e done pending) (absent : a.name ∉ done.map (·.attr.name)) :
    TakesBack e (done ++ [⟨a, .gone⟩]) (.restore a.name a.value :: pending) := by
  intro middle last pristine apart kept
  have earlier := back middle (last ++ [a]) pristine
    (apart_of_snoc absent apart (by grind))
    fun x member => kept x (List.mem_append_left _ member)
  have noted : a.name ∈ pristine.map (·.name) := kept ⟨a, .gone⟩ (by simp) (by simp)
  have missing := find?_around absent (apart ⟨a, .gone⟩ (by simp))
  have grown := Attr.put_of_find?_eq_none a.value missing
  rw [Scoped.undone_cons, Element.applyUndo_restore (Attr.isSome_find?_iff.mpr noted)]
  simp only [List.append_assoc] at grown
  simpa [Element.put, grown, staying, rebuilt, gone, Fated.shown, Fated.anew,
    List.filterMap_cons, Fate.stays, Fate.isGone, Fate.isRebuilt] using earlier

theorem takesBack_rebuilt (back : TakesBack e done pending) (isClass : a.name = "class")
    (absent : a.name ∉ done.map (·.attr.name)) {undos : List Undo} (ofClass : ∀ u ∈ undos, u.OfClass)
    (classes : List String) :
    TakesBack e (done ++ [⟨a, .rebuilt classes⟩]) (undos ++ .restore a.name a.value :: pending) := by
  intro middle last pristine apart kept
  obtain ⟨name, value⟩ := a
  obtain rfl : name = "class" := isClass
  have earlier := back middle (⟨"class", value⟩ :: last) pristine
    (apart_of_snoc absent apart (by grind))
    fun x member => kept x (List.mem_append_left _ member)
  have noted : "class" ∈ pristine.map (·.name) :=
    kept ⟨⟨"class", value⟩, .rebuilt classes⟩ (by simp) (by simp)
  have fresh : "class" ∉ middle.map (·.name) := by
    have outside := apart ⟨⟨"class", value⟩, .rebuilt classes⟩ (by simp)
    simp_all
  have ahead := @find?_around _ _ middle [] absent (by simpa using fresh)
  rw [List.append_nil] at ahead
  let x : Fated := ⟨⟨"class", value⟩, .rebuilt classes⟩
  have attrs : (done ++ [x]).filterMap Fated.shown ++ middle ++ (done ++ [x]).filterMap Fated.anew ++ last =
      done.filterMap Fated.shown ++ middle ++ done.filterMap Fated.anew ++
        ⟨"class", classes.foldl addWord ""⟩ :: last := by
    simp [x, Fated.shown, Fated.anew, List.filterMap_cons]
  rw [Scoped.undone_rebuilt ofClass (Attr.isSome_find?_iff.mpr noted) ahead attrs, earlier]
  simp [staying, rebuilt, gone, Fate.stays, Fate.isGone, Fate.isRebuilt]

end TakesBack

/-- One attribute is done. -/
theorem Bound.step {e : Element} {a : Attr} {done : List Fated} {todo : List Attr} {s : Scoped Element}
    {f : Fate} (bound : Bound e done (a :: todo) s) (absent : a.name ∉ done.map (·.attr.name))
    (apart : a.name ∉ todo.map (·.name))
    (filled : ∀ classes, f = .rebuilt classes → a.name = "class" ∧ classes ≠ []) :
    Bound e (done ++ [⟨a, f⟩]) todo (change s a.name f) := by
  obtain ⟨node, back⟩ := bound
  cases f with
  | kept => exact ⟨node.trans written_kept, takesBack_kept back absent⟩
  | set value =>
    rw [change, node, written_set absent]
    exact ⟨rfl, takesBack_set back absent value⟩
  | gone =>
    rw [change, node, written_gone absent]
    exact ⟨rfl, takesBack_gone back absent⟩
  | rebuilt classes =>
    obtain ⟨isClass, nonempty⟩ := filled classes rfl
    refine ⟨written_rebuilt isClass absent apart nonempty s node, ?_⟩
    rw [change, node, written_gone absent]
    obtain ⟨undos, pending, ofClass⟩ := Scoped.pending_addClasses
      (s.record (.restore a.name a.value, written e (done ++ [⟨a, .gone⟩]) todo)) classes
    rw [pending]
    exact takesBack_rebuilt back isClass absent ofClass classes

section Run

variable (template : String) (values : Values) (e : Element)

/-- The attributes and what becomes of them, up to the first that cannot be shown. -/
def fated : List Attr → List Fated
  | [] => []
  | a :: rest =>
    match Fate.ofRaw values a.name (e.authored a.name) with
    | .error _ => []
    | .ok f => ⟨a, f⟩ :: fated rest

/-- Whether all attributes can be shown. -/
def outcome : List Attr → Except CompileError Unit
  | [] => .ok ()
  | a :: rest =>
    match Fate.ofRaw values a.name (e.authored a.name) with
    | .error reason => .error (failure template a.name (e.authored a.name) reason)
    | .ok _ => outcome rest

/-- The attributes that are not reached. -/
def unreached (attrs : List Attr) : List Attr := attrs.drop (fated values e attrs).length

variable {e}

/-- While an attribute is not done it reads as it did. -/
theorem authored_written {done : List Fated} {todo : List Attr} {name : String}
    (all : e.attrs = done.map (·.attr) ++ todo) (absent : name ∉ done.map (·.attr.name)) :
    (written e done todo).authored name = e.authored name := by
  have get : (written e done todo).get? name = e.get? name := by
    have none : Attr.find? (done.map (·.attr)) name = none := by
      rw [Attr.find?_eq_none_iff]
      simpa using absent
    simp [written, Element.get?, all, Attr.find?_append, find?_shown absent, find?_anew absent, none]
  have pristine : (written e done todo).pristine? name = e.pristine? name := by
    simp [written, Element.pristine?, Attr.find?_append, find?_noted e absent]
  rw [Element.authored, Element.authored, get, pristine]

/-- All attributes are gone through, up to the first that cannot be shown. -/
theorem bindAttributes_bound {done : List Fated} {todo : List Attr} {s : Scoped Element}
    (distinct : (e.attrs.map (·.name)).Nodup) (all : e.attrs = done.map (·.attr) ++ todo)
    (bound : Bound e done todo s) :
    ∃ s', bindAttributes template values (todo.map (·.name)) s = (outcome template values e todo, s') ∧
      Bound e (done ++ fated values e todo) (unreached values e todo) s' := by
  induction todo generalizing done s with
  | nil => exact ⟨s, rfl, by simpa [fated, unreached] using bound⟩
  | cons a rest ih =>
    have names : (done.map (·.attr.name) ++ a.name :: rest.map (·.name)).Nodup := by
      simpa [all, Function.comp_def] using distinct
    obtain ⟨-, later, disjoint⟩ := List.nodup_append.mp names
    have absent : a.name ∉ done.map (·.attr.name) := fun member =>
      disjoint _ member _ (List.mem_cons_self ..) rfl
    have apart : a.name ∉ rest.map (·.name) := (List.nodup_cons.mp later).1
    have reads : s.node.authored a.name = e.authored a.name := by
      rw [bound.node, authored_written all absent]
    rw [List.map_cons, bindAttributes, bind_apply, bindAttribute_eq, reads, outcome, unreached, fated]
    rcases known : Fate.ofRaw values a.name (e.authored a.name) with reason | f
    · exact ⟨s, rfl, by simpa using bound⟩
    · have next := bound.step absent apart (f := f) fun classes same =>
        Fate.rebuilt_of_ofRaw (same ▸ known)
      obtain ⟨s', run, bound'⟩ := ih (by simpa using all) next
      exact ⟨s', run, by simpa [unreached] using bound'⟩

end Run

end Stencil.Preview
