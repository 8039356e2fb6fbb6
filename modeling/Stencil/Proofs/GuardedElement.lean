import Stencil.Markup.Scoped
import Stencil.Proofs.ParsedElements

/-! An element at hand under a guard. None of its changes can fail, so letting a guard go applies every
change that was kept, the latest first, and leaves what is computed here as a fold. -/
namespace Stencil.Markup

namespace Attr

variable {front rest : List Attr} {name : String}

theorem find?_append (front rest : List Attr) (name : String) :
    find? (front ++ rest) name = (find? front name).or (find? rest name) := by
  cases found : front.find? (·.name == name) <;> simp [find?, List.find?_append, found]

theorem isSome_find?_iff {attrs : List Attr} :
    (find? attrs name).isSome = true ↔ name ∈ attrs.map (·.name) := by
  rw [← not_iff_not, ← find?_eq_none_iff]
  simp

theorem mem_of_find? {attrs : List Attr} {value : String} (found : find? attrs name = some value) :
    ⟨name, value⟩ ∈ attrs := by
  obtain ⟨a, first, rfl⟩ := Option.map_eq_some_iff.mp found
  have same : a.name = name := by simpa using List.find?_some first
  subst same
  exact List.mem_of_find?_eq_some first

/-- Behind attributes of other names, a name is put as if they were not there. -/
theorem put_append (absent : find? front name = none) (value : String) :
    put (front ++ rest) name value = front ++ put rest name value := by
  induction front with
  | nil => rfl
  | cons a front ih =>
    by_cases same : a.name = name
    · simp [find?, same] at absent
    · have later : find? front name = none := by simpa [find?, same] using absent
      simp [put, same, ih later]

@[simp] theorem find?_cons_self (a : Attr) (rest : List Attr) : find? (a :: rest) a.name = some a.value := by
  simp [find?]

@[simp] theorem put_cons_self (a : Attr) (value : String) (rest : List Attr) :
    put (a :: rest) a.name value = ⟨a.name, value⟩ :: rest := by
  simp [put]

@[simp] theorem find?_put_self (attrs : List Attr) (name value : String) :
    find? (put attrs name value) name = some value := by
  induction attrs with
  | nil => simp [put, find?]
  | cons a rest ih =>
    by_cases same : a.name = name
    · simp [put, same, find?]
    · have other : ¬(a.name == name) = true := by simpa using same
      simpa [put, other, find?] using ih

/-- Of two values put under one name the later stays. -/
@[simp] theorem put_put (attrs : List Attr) (name first second : String) :
    put (put attrs name first) name second = put attrs name second := by
  induction attrs with
  | nil => simp [put]
  | cons a rest ih => by_cases same : a.name = name <;> simp [put, same, ih]

theorem put_of_find?_eq_some {attrs : List Attr} {value : String} (found : find? attrs name = some value) :
    put attrs name value = attrs := by
  induction attrs with
  | nil => cases found
  | cons a rest ih =>
    by_cases same : a.name = name
    · have own : a.value = value := by simpa [find?, same] using found
      subst same own
      simp
    · have later : find? rest name = some value := by simpa [find?, same] using found
      simp [put, same, ih later]

theorem erase_append (absent : find? front name = none) :
    erase (front ++ rest) name = front ++ erase rest name := by
  have other : ∀ a ∈ front, ¬(a.name == name) = true := by
    simpa [find?, List.find?_eq_none] using absent
  exact List.eraseP_append_right _ other

@[simp] theorem erase_cons_self (a : Attr) (rest : List Attr) : erase (a :: rest) a.name = rest := by
  simp [erase]

/-- What is put under a name changes nothing under any other. -/
theorem find?_put_of_ne {attrs : List Attr} {other : String} (apart : other ≠ name) (value : String) :
    find? (put attrs name value) other = find? attrs other := by
  induction attrs with
  | nil => simp [put, find?, apart.symm]
  | cons a rest ih =>
    by_cases same : a.name = name
    · simp [put, same, find?, apart.symm]
    · by_cases found : a.name = other
      · subst found
        simp [put, same]
      · simpa [put, same, find?, found] using ih

theorem find?_erase_of_ne {attrs : List Attr} {other : String} (apart : other ≠ name) :
    find? (erase attrs name) other = find? attrs other := by
  induction attrs with
  | nil => rfl
  | cons a rest ih =>
    by_cases same : a.name = name
    · simp [erase, same, find?, apart.symm]
    · by_cases found : a.name = other
      · subst found
        simp [erase, same]
      · simpa [erase, same, find?, found] using ih

/-- One entry for a name is taken off, so with distinct names none is left. -/
theorem find?_erase_self {attrs : List Attr} (distinct : (attrs.map (·.name)).Nodup) (name : String) :
    find? (erase attrs name) name = none := by
  induction attrs with
  | nil => rfl
  | cons a rest ih =>
    obtain ⟨absent, distinct⟩ := List.nodup_cons.mp distinct
    by_cases same : a.name = name
    · subst same
      rw [erase_cons_self]
      exact find?_eq_none_iff.mpr absent
    · simpa [erase, same, find?] using ih distinct

theorem nodup_put {attrs : List Attr} (distinct : (attrs.map (·.name)).Nodup) (name value : String) :
    ((put attrs name value).map (·.name)).Nodup := by
  induction attrs with
  | nil => simp [put]
  | cons a rest ih =>
    obtain ⟨absent, later⟩ := List.nodup_cons.mp distinct
    by_cases same : a.name = name
    · subst same
      simpa using distinct
    · have kept : a.name ∉ (put rest name value).map (·.name) := by
        rw [← find?_eq_none_iff, find?_put_of_ne same]
        exact find?_eq_none_iff.mpr absent
      simp only [put, beq_iff_eq, same, if_false, List.map_cons]
      exact List.nodup_cons.mpr ⟨kept, ih later⟩

theorem nodup_erase {attrs : List Attr} (distinct : (attrs.map (·.name)).Nodup) (name : String) :
    ((erase attrs name).map (·.name)).Nodup :=
  distinct.sublist (List.eraseP_sublist.map _)

end Attr

/-- The text of a class attribute to which a word is added. -/
def addWord (text word : String) : String :=
  if (Text.words text).contains word then text else Text.join " " (Text.words text ++ [word])

namespace Element

variable {e : Element} {name : String}

theorem remember_of_pristine (kept : (e.pristine? name).isSome = true) : e.remember name = e := by
  obtain ⟨value, found⟩ := Option.isSome_iff_exists.mp kept
  simp [remember, found]

@[simp] theorem get?_put_self (e : Element) (name value : String) :
    (e.put name value).get? name = some value :=
  Attr.find?_put_self e.attrs name value

@[simp] theorem put_put (e : Element) (name first second : String) :
    (e.put name first).put name second = e.put name second := by
  simp [put]

theorem put_of_get? {value : String} (found : e.get? name = some value) : e.put name value = e := by
  rw [put, Attr.put_of_find?_eq_some found]

/-- A class that the element has not is added behind the others. -/
theorem addClass_eq_put (kept : (e.pristine? "class").isSome = true) (word : String) :
    (e.addClass word).2 = e.put "class" (addWord ((e.get? "class").getD "") word) := by
  unfold addClass addWord classList
  split
  · rename_i member
    cases found : e.get? "class" with
    | none => simp [found, Text.words_empty] at member
    | some text => exact (put_of_get? found).symm
  · rw [setClasses, remember_of_pristine kept]

/-- A class can only be taken from a class attribute that stands there, and leaves it there. -/
theorem removeClass_eq_put (kept : (e.pristine? "class").isSome = true) {text : String}
    (found : e.get? "class" = some text) (word : String) :
    ∃ text', (e.removeClass word).2 = e.put "class" text' := by
  unfold removeClass
  split
  · rw [setClasses, remember_of_pristine kept]
    exact ⟨_, rfl⟩
  · exact ⟨text, (put_of_get? found).symm⟩

/-- Takes back one change. -/
def applyUndo (e : Element) : Undo → Element
  | .restore name value => (e.setAttribute name value).2
  | .remove name => (e.removeAttribute name).2
  | .addClass name => (e.addClass name).2
  | .removeClass name => (e.removeClass name).2
  | .nothing => e

theorem applyUndo_restore (kept : (e.pristine? name).isSome = true) (value : String) :
    e.applyUndo (.restore name value) = e.put name value := by
  simp [applyUndo, setAttribute, remember_of_pristine kept]

end Element

namespace Undo

/-- The reverse of adding a class: it has no effect but on the text of a class attribute. -/
def OfClass : Undo → Prop
  | .removeClass _ | .nothing => True
  | _ => False

end Undo

namespace Scoped

/-- What is left of an element once these changes are taken back in turn. -/
def undone (pending : List Undo) (e : Element) : Element := pending.foldl Element.applyUndo e

@[simp] theorem undone_nil (e : Element) : undone [] e = e := rfl

@[simp] theorem undone_cons (undo : Undo) (rest : List Undo) (e : Element) :
    undone (undo :: rest) e = undone rest (e.applyUndo undo) := rfl

theorem undone_append (first rest : List Undo) (e : Element) :
    undone (first ++ rest) e = undone rest (undone first e) :=
  List.foldl_append

theorem discard_total (f : Element → Undo × Element) (e : Element) :
    (Access.total f >>= fun _ => pure () : AccessM Element Unit) e = (.ok (), (f e).2) := rfl

theorem applyUndo_ofElement (undo : Undo) (e : Element) :
    Access.ofElement.applyUndo undo e = (.ok (), e.applyUndo undo) := by
  cases undo with
  | restore name value => exact discard_total (·.setAttribute name value) e
  | remove name => exact discard_total (·.removeAttribute name) e
  | addClass word => exact discard_total (·.addClass word) e
  | removeClass word => exact discard_total (·.removeClass word) e
  | nothing => rfl

theorem unwind_ofElement (pending : List Undo) (e : Element) :
    unwind Access.ofElement pending e = (.ok (), ⟨undone pending e, []⟩) := by
  induction pending generalizing e with
  | nil => rfl
  | cons undo rest ih =>
    have first : (Access.ofElement.applyUndo undo).run e = (.ok (), e.applyUndo undo) :=
      applyUndo_ofElement undo e
    rw [unwind, first]
    exact ih _

theorem drop_ofElement (s : Scoped Element) :
    s.drop Access.ofElement = ([], undone s.pending s.node) := by
  rw [drop, unwind_ofElement]

theorem rollback_ofElement (s : Scoped Element) :
    s.rollback Access.ofElement = (.ok (), [], undone s.pending s.node) := by
  rw [rollback, unwind_ofElement]
  dsimp only
  rw [drop_ofElement, undone_nil]

/-- A change that has been made, with its reverse kept. -/
def record (s : Scoped Element) (change : Undo × Element) : Scoped Element :=
  { node := change.2, pending := change.1 :: s.pending }

/-- Adds classes one after the other. -/
def addClasses (s : Scoped Element) (classes : List String) : Scoped Element :=
  classes.foldl (fun s c => s.record (s.node.addClass c)) s

theorem addClasses_cons (s : Scoped Element) (word : String) (rest : List String) :
    s.addClasses (word :: rest) = (s.record (s.node.addClass word)).addClasses rest :=
  List.foldl_cons ..

theorem recording_total (f : Element → Undo × Element) (s : Scoped Element) :
    recording (Access.total f) s = (.ok (), s.record (f s.node)) := rfl

theorem removeAttribute_ofElement (name : String) (s : Scoped Element) :
    removeAttribute Access.ofElement name s = (.ok (), s.record (s.node.removeAttribute name)) :=
  recording_total (·.removeAttribute name) s

theorem addClass_ofElement (word : String) (s : Scoped Element) :
    addClass Access.ofElement word s = (.ok (), s.record (s.node.addClass word)) :=
  recording_total (·.addClass word) s

theorem forM_addClass (classes : List String) (s : Scoped Element) :
    (classes.forM (addClass Access.ofElement)) s = (.ok (), s.addClasses classes) := by
  induction classes generalizing s with
  | nil => rfl
  | cons c rest ih =>
    rw [addClasses_cons, ← ih, List.forM]
    simp only [bind, ExceptT.bind, ExceptT.mk, StateT.bind, addClass_ofElement]
    rfl

theorem setAttribute_ofElement (name value : String) (s : Scoped Element) :
    setAttribute Access.ofElement name value s =
      (.ok (), if name = "class" then s.addClasses (Text.words value)
        else s.record (s.node.setAttribute name value)) := by
  unfold setAttribute
  by_cases isClass : name = "class"
  · rw [if_pos (by simpa using isClass), if_pos isClass, forM_addClass]
  · rw [if_neg (by simpa using isClass), if_neg isClass]
    rfl

/-- The first class that is added puts the attribute there, and each further one changes its text. -/
theorem node_addClasses {s : Scoped Element} (kept : (s.node.pristine? "class").isSome = true)
    (word : String) (classes : List String) :
    (s.addClasses (word :: classes)).node =
      s.node.put "class" ((word :: classes).foldl addWord ((s.node.get? "class").getD "")) := by
  induction classes generalizing s word with
  | nil =>
    simp only [addClasses, List.foldl_cons, List.foldl_nil, record]
    exact Element.addClass_eq_put kept word
  | cons next rest ih =>
    have first := Element.addClass_eq_put kept word
    have later := @ih (s.record (s.node.addClass word)) (by rw [record, first]; exact kept) next
    rw [addClasses_cons, later, record, first]
    simp

theorem pending_addClasses (s : Scoped Element) (classes : List String) :
    ∃ undos, (s.addClasses classes).pending = undos ++ s.pending ∧ ∀ u ∈ undos, u.OfClass := by
  induction classes generalizing s with
  | nil => exact ⟨[], rfl, by simp⟩
  | cons word rest ih =>
    obtain ⟨undos, grown, ofClass⟩ := ih (s.record (s.node.addClass word))
    refine ⟨undos ++ [(s.node.addClass word).1], ?_, ?_⟩
    · rw [addClasses_cons, grown, record, List.append_assoc, List.singleton_append]
    · intro u member
      rcases List.mem_append.mp member with earlier | last
      · exact ofClass u earlier
      · rw [List.mem_singleton.mp last, Element.addClass]
        split <;> trivial

theorem undone_ofClass {undos : List Undo} (ofClass : ∀ u ∈ undos, u.OfClass) {e : Element}
    (kept : (e.pristine? "class").isSome = true) {text : String} (found : e.get? "class" = some text) :
    ∃ text', undone undos e = e.put "class" text' := by
  induction undos generalizing e text with
  | nil => exact ⟨text, (Element.put_of_get? found).symm⟩
  | cons u rest ih =>
    have one : ∃ text', e.applyUndo u = e.put "class" text' := by
      have first := ofClass u (List.mem_cons_self ..)
      match u, first with
      | .removeClass word, _ => exact Element.removeClass_eq_put kept found word
      | .nothing, _ => exact ⟨text, (Element.put_of_get? found).symm⟩
    obtain ⟨text', changed⟩ := one
    obtain ⟨text'', later⟩ := @ih (fun u member => ofClass u (List.mem_cons_of_mem _ member))
      (e.put "class" text') kept text' (by simp)
    refine ⟨text'', ?_⟩
    rw [undone_cons, changed, later, Element.put_put]

/-- A class attribute that was built again, word by word, has its first text back in place. -/
theorem undone_rebuilt {undos : List Undo} (ofClass : ∀ u ∈ undos, u.OfClass) {e : Element}
    (kept : (e.pristine? "class").isSome = true) {front last : List Attr} {text : String}
    (ahead : Attr.find? front "class" = none) (attrs : e.attrs = front ++ ⟨"class", text⟩ :: last)
    (value : String) (pending : List Undo) :
    undone (undos ++ .restore "class" value :: pending) e =
      undone pending { e with attrs := front ++ ⟨"class", value⟩ :: last } := by
  have found : e.get? "class" = some text := by
    rw [Element.get?, attrs, Attr.find?_append, ahead, Option.none_or]
    exact Attr.find?_cons_self ⟨"class", text⟩ last
  have placed : e.put "class" value = { e with attrs := front ++ ⟨"class", value⟩ :: last } := by
    rw [Element.put, attrs, Attr.put_append ahead]
    exact congrArg (fun rest => { e with attrs := front ++ rest })
      (Attr.put_cons_self ⟨"class", text⟩ value last)
  obtain ⟨text', stripped⟩ := undone_ofClass ofClass kept found
  have kept' : ((e.put "class" text').pristine? "class").isSome = true := kept
  rw [undone_append, stripped, undone_cons, Element.applyUndo_restore kept', Element.put_put, placed]

end Scoped

end Stencil.Markup
