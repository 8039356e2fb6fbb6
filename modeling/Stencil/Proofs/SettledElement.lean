import Mathlib.Data.List.Nodup
import Stencil.Proofs.AttributeOrder
import Stencil.Proofs.Lists
import Stencil.Proofs.PreviewedElement

/-! What the guard of a preview leaves of an element. Every attribute has its value back, but those that
were taken off stand behind the others: the element differs in the order of its attributes, and in the
first values that it notes down. A second preview cannot tell. -/
namespace Stencil.Preview

open Markup (Element Attr Scoped Access)

/-- The attributes that come back behind the others. -/
def movers (done : List Fated) : List Fated := rebuilt done ++ (gone done).reverse

section Fated

variable (template : String) (values : Values) (e : Element)

/-- The attributes that keep their place. -/
def placed : List Attr := (staying (fated values e e.attrs)).map (·.attr) ++ unreached values e e.attrs

/-- The attributes that move to the end, in the order in which they come back. -/
def moved : List Attr := (movers (fated values e e.attrs)).map (·.attr)

/-- The element once its guard has ended. -/
def settled : Element :=
  { e with
    attrs := placed values e ++ moved values e
    pristine := e.pristine ++ noted e (fated values e e.attrs) }

/-- The element as it is written. -/
def presented : Element := written e (fated values e e.attrs) (unreached values e e.attrs)

theorem fated_append_unreached (attrs : List Attr) :
    (fated values e attrs).map (·.attr) ++ unreached values e attrs = attrs := by
  induction attrs with
  | nil => rfl
  | cons a rest ih =>
    rw [unreached, fated]
    split
    · simp
    · simpa [unreached] using ih

variable {e}

theorem bindElement_eq (distinct : (e.attrs.map (·.name)).Nodup) :
    ∃ s, bindElement template values e = (outcome template values e e.attrs, s) ∧
      s.node = presented values e ∧ Scoped.undone s.pending s.node = settled values e := by
  obtain ⟨s, run, bound⟩ := @bindAttributes_bound template values e [] e.attrs _ distinct rfl (bound_start e)
  refine ⟨s, run, bound.node, ?_⟩
  have apart : ∀ x ∈ fated values e e.attrs, x.attr.name ∉ (unreached values e e.attrs).map (·.name) := by
    intro x member later
    rw [← fated_append_unreached values e e.attrs, List.map_append, List.nodup_append] at distinct
    have early : x.attr.name ∈ ((fated values e e.attrs).map (·.attr)).map (·.name) :=
      List.mem_map.mpr ⟨x.attr, List.mem_map.mpr ⟨x, member, rfl⟩, rfl⟩
    exact distinct.2.2 _ early _ later rfl
  have back := bound.back _ [] _ (by simpa using apart) fun x member changed => mem_pristine e member changed
  rw [bound.node]
  simpa [written, settled, placed, moved, movers] using back

/-- Both ways to end the guard leave the same element. -/
theorem abandon_eq {s : Scoped Element} (back : Scoped.undone s.pending s.node = settled values e) :
    abandon s = settled values e := by
  rw [abandon, Scoped.drop_ofElement, back]

theorem finish_eq {s : Scoped Element} (node : s.node = presented values e)
    (back : Scoped.undone s.pending s.node = settled values e) (contents : String) :
    finish s contents =
      (.ok (if e.isLeaf then openTag (presented values e)
        else openTag (presented values e) ++ contents ++ "</" ++ e.tag ++ ">"), settled values e) := by
  rw [finish, Scoped.rollback_ofElement, back, node]
  rfl

end Fated

section Settled

variable {values : Values} {e : Element}

theorem perm_staying_movers (done : List Fated) : (staying done ++ movers done).Perm done := by
  have built : (done.filter (!·.fate.stays)).filter (·.fate.isRebuilt) = rebuilt done := by
    rw [List.filter_filter]
    apply List.filter_congr
    intro x _
    cases x.fate <;> rfl
  have taken : (done.filter (!·.fate.stays)).filter (!·.fate.isRebuilt) = gone done := by
    rw [List.filter_filter]
    apply List.filter_congr
    intro x _
    cases x.fate <;> rfl
  have split := List.filter_append_perm (·.fate.isRebuilt) (done.filter (!·.fate.stays))
  rw [built, taken] at split
  have moved : (movers done).Perm (done.filter (!·.fate.stays)) :=
    ((gone done).reverse_perm.append_left _).trans split
  exact (moved.append_left _).trans (List.filter_append_perm _ done)

theorem settled_perm (values : Values) (e : Element) : (settled values e).attrs.Perm e.attrs := by
  have sorted := (perm_staying_movers (fated values e e.attrs)).map (·.attr)
  have whole := sorted.append_right (unreached values e e.attrs)
  rw [fated_append_unreached, List.map_append, List.append_assoc] at whole
  refine List.Perm.trans ?_ whole
  rw [settled, placed, moved, List.append_assoc]
  exact List.perm_append_comm.append_left _

theorem get?_settled (distinct : (e.attrs.map (·.name)).Nodup) (name : String) :
    (settled values e).get? name = e.get? name :=
  (Attr.find?_eq_of_perm (settled_perm values e).symm distinct name).symm

/-- A first value that is noted down is the value. -/
theorem get?_of_noted (distinct : (e.attrs.map (·.name)).Nodup) {name value : String}
    (found : Attr.find? (noted e (fated values e e.attrs)) name = some value) : e.get? name = some value := by
  obtain ⟨x, changed, same⟩ := List.mem_map.mp (Attr.mem_of_find? found)
  have early : x.attr ∈ (fated values e e.attrs).map (·.attr) :=
    List.mem_map.mpr ⟨x, List.mem_of_mem_filter changed, rfl⟩
  have member : ⟨name, value⟩ ∈ e.attrs := by
    rw [← same, ← fated_append_unreached values e e.attrs]
    exact List.mem_append_left _ early
  exact (Attr.find?_eq_some_iff distinct).mpr member

theorem authored_settled (distinct : (e.attrs.map (·.name)).Nodup) (name : String) :
    (settled values e).authored name = e.authored name := by
  have pristine : (settled values e).pristine? name =
      (e.pristine? name).or (Attr.find? (noted e (fated values e e.attrs)) name) :=
    Attr.find?_append _ _ _
  rw [Element.authored, Element.authored, pristine, get?_settled distinct]
  cases e.pristine? name with
  | some value => rfl
  | none =>
    cases found : Attr.find? (noted e (fated values e e.attrs)) name with
    | none => rfl
    | some value => simp [get?_of_noted distinct found]

/-- What becomes of an attribute depends on how it reads. -/
theorem fated_congr {e' : Element} (same : ∀ name, e'.authored name = e.authored name) (attrs : List Attr) :
    fated values e' attrs = fated values e attrs := by
  induction attrs with
  | nil => rfl
  | cons a rest ih => rw [fated, fated, same, ih]

theorem outcome_congr {e' : Element} (same : ∀ name, e'.authored name = e.authored name) (template : String)
    (attrs : List Attr) : outcome template values e' attrs = outcome template values e attrs := by
  induction attrs with
  | nil => rfl
  | cons a rest ih => rw [outcome, outcome, same, ih]

/-- What becomes of the attribute is known. -/
def Known (values : Values) (e : Element) (x : Fated) : Prop :=
  Fate.ofRaw values x.attr.name (e.authored x.attr.name) = .ok x.fate

theorem known_of_mem {attrs : List Attr} {x : Fated} (member : x ∈ fated values e attrs) :
    Known values e x := by
  induction attrs with
  | nil => cases member
  | cons a rest ih =>
    rw [fated] at member
    split at member
    · cases member
    · rename_i f known
      rcases List.mem_cons.mp member with rfl | later
      · exact known
      · exact ih later

theorem fated_append {done : List Fated} (known : ∀ x ∈ done, Known values e x) (rest : List Attr) :
    fated values e (done.map (·.attr) ++ rest) = done ++ fated values e rest := by
  induction done with
  | nil => rfl
  | cons x later ih =>
    have first : Fate.ofRaw values x.attr.name (e.authored x.attr.name) = .ok x.fate :=
      known x (List.mem_cons_self ..)
    rw [List.map_cons, List.cons_append, fated, first]
    exact congrArg (x :: ·) (ih fun y member => known y (List.mem_cons_of_mem _ member))

theorem outcome_append {done : List Fated} (known : ∀ x ∈ done, Known values e x) (template : String)
    (rest : List Attr) :
    outcome template values e (done.map (·.attr) ++ rest) = outcome template values e rest := by
  induction done with
  | nil => rfl
  | cons x later ih =>
    have first : Fate.ofRaw values x.attr.name (e.authored x.attr.name) = .ok x.fate :=
      known x (List.mem_cons_self ..)
    rw [List.map_cons, List.cons_append, outcome, first]
    exact ih fun y member => known y (List.mem_cons_of_mem _ member)

/-- The first attribute that is not reached cannot be shown. -/
theorem error_of_unreached {attrs rest : List Attr} {a : Attr} (first : unreached values e attrs = a :: rest) :
    ∃ reason, Fate.ofRaw values a.name (e.authored a.name) = .error reason := by
  induction attrs with
  | nil => cases first
  | cons b later ih =>
    rw [unreached, fated] at first
    split at first
    · rename_i reason known
      cases first
      exact ⟨reason, known⟩
    · exact ih (by simpa [unreached] using first)

theorem known_staying {x : Fated} (member : x ∈ staying (fated values e e.attrs)) : Known values e x :=
  known_of_mem (List.mem_of_mem_filter member)

theorem known_movers {x : Fated} (member : x ∈ movers (fated values e e.attrs)) : Known values e x := by
  rcases List.mem_append.mp member with built | taken
  · exact known_of_mem (List.mem_of_mem_filter built)
  · exact known_of_mem (List.mem_of_mem_filter (List.mem_reverse.mp taken))

/-- The element that the guard leaves can be shown as far as before, and fails as before. -/
theorem outcome_settled (distinct : (e.attrs.map (·.name)).Nodup) (template : String) :
    outcome template values (settled values e) (settled values e).attrs =
      outcome template values e e.attrs := by
  have whole := fated_append_unreached values e e.attrs
  have before :
      outcome template values e e.attrs = outcome template values e (unreached values e e.attrs) := by
    have known := @outcome_append values e (fated values e e.attrs) (fun x => known_of_mem) template
      (unreached values e e.attrs)
    rwa [whole] at known
  rw [outcome_congr (authored_settled distinct), before, settled, placed, moved, List.append_assoc,
    outcome_append fun x => known_staying]
  cases missed : unreached values e e.attrs with
  | nil =>
    have known :=
      @outcome_append values e (movers (fated values e e.attrs)) (fun x => known_movers) template []
    rwa [List.append_nil] at known
  | cons a rest =>
    obtain ⟨reason, fails⟩ := error_of_unreached missed
    rw [List.cons_append, outcome, outcome, fails]

theorem filterMap_shown_sorted (done : List Fated) :
    (staying done ++ movers done).filterMap Fated.shown = done.filterMap Fated.shown := by
  have stay := filterMap_filter_of_none (p := (·.fate.stays)) (f := Fated.shown)
    (by rintro ⟨a, _ | _ | _ | _⟩ <;> simp [Fate.stays, Fate.isGone, Fate.isRebuilt, Fated.shown]) done
  have moved : (movers done).filterMap Fated.shown = [] := by
    rw [List.filterMap_eq_nil_iff]
    rintro ⟨a, _ | _ | _ | _⟩ <;> simp [movers, rebuilt, gone, Fate.isGone, Fate.isRebuilt, Fated.shown]
  rw [List.filterMap_append, moved, List.append_nil]
  exact stay

theorem filterMap_anew_sorted (done : List Fated) :
    (staying done ++ movers done).filterMap Fated.anew = done.filterMap Fated.anew := by
  have stay : (staying done).filterMap Fated.anew = [] := by
    rw [List.filterMap_eq_nil_iff]
    rintro ⟨a, _ | _ | _ | _⟩ <;> simp [staying, Fate.stays, Fate.isGone, Fate.isRebuilt, Fated.anew]
  have taken : (gone done).reverse.filterMap Fated.anew = [] := by
    rw [List.filterMap_eq_nil_iff]
    rintro ⟨a, _ | _ | _ | _⟩ <;> simp [gone, Fate.isGone, Fated.anew]
  have built := filterMap_filter_of_none (p := (·.fate.isRebuilt)) (f := Fated.anew)
    (by rintro ⟨a, _ | _ | _ | _⟩ <;> simp [Fate.isRebuilt, Fated.anew]) done
  rw [List.filterMap_append, stay, movers, List.filterMap_append, taken, List.append_nil, List.nil_append]
  exact built

theorem unreached_eq_nil {template : String} {attrs : List Attr}
    (shown : outcome template values e attrs = .ok ()) : unreached values e attrs = [] := by
  induction attrs with
  | nil => rfl
  | cons a rest ih =>
    rw [outcome] at shown
    rw [unreached, fated]
    split at shown
    · cases shown
    · simpa [unreached] using ih shown

/-- An element of which all attributes can be shown is written the same again. -/
theorem attrs_presented_settled (distinct : (e.attrs.map (·.name)).Nodup) {template : String}
    (shown : outcome template values e e.attrs = .ok ()) :
    (presented values (settled values e)).attrs = (presented values e).attrs := by
  have none := unreached_eq_nil shown
  have sorted : (settled values e).attrs =
      (staying (fated values e e.attrs) ++ movers (fated values e e.attrs)).map (·.attr) ++ [] := by
    simp [settled, placed, moved, none]
  have known :
      ∀ x ∈ staying (fated values e e.attrs) ++ movers (fated values e e.attrs), Known values e x := by
    intro x member
    exact (List.mem_append.mp member).elim known_staying known_movers
  have again : fated values (settled values e) (settled values e).attrs =
      staying (fated values e e.attrs) ++ movers (fated values e e.attrs) := by
    rw [fated_congr (authored_settled distinct), sorted, fated_append known]
    exact List.append_nil _
  have rest : unreached values (settled values e) (settled values e).attrs = [] :=
    unreached_eq_nil ((outcome_settled distinct template).trans shown)
  rw [presented, presented, written, written, again, rest, none, filterMap_shown_sorted,
    filterMap_anew_sorted]

/-- The attributes that move stand last already, in the order in which they come back. -/
def Steady (values : Values) (e : Element) : Prop := moved values e <:+ e.attrs

instance (values : Values) (e : Element) : Decidable (Steady values e) :=
  inferInstanceAs (Decidable (_ <:+ _))

theorem mem_movers {done : List Fated} {x : Fated} : x ∈ movers done ↔ x ∈ done ∧ x.fate.stays = false := by
  obtain ⟨a, _ | _ | _ | _⟩ := x <;> simp [movers, rebuilt, gone, Fate.stays, Fate.isGone, Fate.isRebuilt]

/-- What moves is known by the attribute alone. -/
theorem mem_moved {x : Fated} (member : x ∈ fated values e e.attrs) :
    x.attr ∈ moved values e ↔ x.fate.stays = false := by
  constructor
  · intro found
    obtain ⟨y, mover, same⟩ := List.mem_map.mp found
    have here : Known values e x := known_of_mem member
    have there : Known values e y := known_movers mover
    have fates : y.fate = x.fate := by
      rw [Known, same] at there
      exact Except.ok.inj (there.symm.trans here)
    rw [← fates]
    exact (mem_movers.mp mover).2
  · intro moves
    exact List.mem_map.mpr ⟨x, mem_movers.mpr ⟨member, moves⟩, rfl⟩

/-- Without the attributes that move, the others stand in their order. -/
theorem filter_not_moved (distinct : (e.attrs.map (·.name)).Nodup) :
    e.attrs.filter (fun a => a ∉ moved values e) = placed values e := by
  have whole := fated_append_unreached values e e.attrs
  have apart := List.Nodup.of_map _ distinct
  rw [← whole] at apart
  have early : ((fated values e e.attrs).map (·.attr)).filter (fun a => a ∉ moved values e) =
      (staying (fated values e e.attrs)).map (·.attr) := by
    rw [List.filter_map, staying]
    congr 1
    apply List.filter_congr
    intro x member
    have iff := mem_moved member
    cases stays : x.fate.stays <;> simp_all
  have late :
      (unreached values e e.attrs).filter (fun a => a ∉ moved values e) = unreached values e e.attrs := by
    rw [List.filter_eq_self]
    intro a member
    rw [decide_eq_true_eq]
    intro found
    obtain ⟨x, mover, rfl⟩ := List.mem_map.mp found
    have before : x.attr ∈ (fated values e e.attrs).map (·.attr) :=
      List.mem_map.mpr ⟨x, (mem_movers.mp mover).1, rfl⟩
    exact (List.nodup_append.mp apart).2.2 _ before _ member rfl
  have filtered := List.filter_append (p := fun a => decide (a ∉ moved values e))
    ((fated values e e.attrs).map (·.attr)) (unreached values e e.attrs)
  rw [whole, early, late] at filtered
  exact filtered

/-- The attributes are back in their order exactly when those that move stood last. -/
theorem settled_attrs_eq_iff (distinct : (e.attrs.map (·.name)).Nodup) :
    (settled values e).attrs = e.attrs ↔ Steady values e := by
  constructor
  · intro same
    exact ⟨placed values e, same⟩
  · rintro ⟨front, whole⟩
    have apart := List.Nodup.of_map _ distinct
    rw [← whole, List.nodup_append] at apart
    have stay : front.filter (fun a => a ∉ moved values e) = front := by
      rw [List.filter_eq_self]
      intro a member
      simpa using fun found => apart.2.2 a member a found rfl
    have move : (moved values e).filter (fun a => a ∉ moved values e) = [] := by
      rw [List.filter_eq_nil_iff]
      simp
    have same := @filter_not_moved values e distinct
    rw [← whole, List.filter_append, stay, move, List.append_nil] at same
    rw [settled, ← same]
    exact whole

end Settled

end Stencil.Preview
