import Stencil.Proofs.KeptMarkers

/-! The list of compiled attributes. It holds what the author wrote, in the order of the names, and behind
it what the tag offers besides, in the order of the tag. No name comes twice, so the last check of a
compilation never fails, and the passes change an authored attribute only where it holds ids, where the
tag puts a key in its place, or where it limits a text box. -/
namespace Stencil

open Markup (Access AccessM Element)
open Registry (Later)

/-- Whatever an access answers about the attributes of an element is true of this one. In any of the states
it may also fail. -/
structure Markup.Access.Shows {σ : Type} (access : Access σ) (e : Element) (states : σ → Prop) : Prop where
  names {s t : σ} {names : List String} : states s → access.attributeNames s = (.ok names, t) →
    names = e.attrs.map (·.name) ∧ states t
  read {s t : σ} {name raw : String} : states s → access.read name s = (.ok raw, t) →
    raw = e.authored name ∧ states t

namespace Default

/-- Of the attributes, only four can change what a tag offers. -/
theorem forTag_congr {attributes others : List Attribute}
    (same : ∀ name ∈ ["name", "value", "type", "maxlength"], literal? attributes name = literal? others name)
    (tag : String) : forTag tag attributes = forTag tag others := by
  have name := same "name" (by decide)
  have value := same "value" (by decide)
  have type := same "type" (by decide)
  have limit := same "maxlength" (by decide)
  unfold forTag
  simp only [name, value, type, limit]

end Default

namespace Attribute

variable {σ α β ε : Type} {access : Access σ} {e : Element} {states : σ → Prop} {tag : String}

theorem repeated?_eq_none {seen names : List String} (once : names.Nodup)
    (new : ∀ name ∈ names, name ∉ seen) : repeated? seen names = none := by
  induction names generalizing seen with
  | nil => rfl
  | cons name rest ih =>
    obtain ⟨apart, once⟩ := List.nodup_cons.mp once
    obtain ⟨here, later⟩ := List.forall_mem_cons.mp new
    rw [repeated?, if_neg (by simpa using here)]
    refine ih once fun other member => ?_
    rw [List.mem_cons, not_or]
    exact ⟨fun same => apart (same ▸ member), later other member⟩

theorem sortNames_ascending {names : List String} (once : names.Nodup) :
    (sortNames names).Pairwise (· < ·) := by
  have sorted := List.pairwise_mergeSort trans_decide_le total_decide_le names
  have distinct : (sortNames names).Nodup := (List.mergeSort_perm ..).nodup_iff.mpr once
  exact (sorted.and distinct).imp fun both => Std.lt_of_le_of_ne (of_decide_eq_true both.1) both.2

/-- The attribute as its author wrote it: the text and the bindings are those of its value, which was read
at some point between two registries. -/
structure IsWritten (e : Element) (tag : String) (first last : Registry) (a : Attribute) : Prop where
  value : ∃ r r', Later first r ∧
    readValue (e.authored a.name) tag (plainType a.name) r = .ok ((a.text, a.bindings), r') ∧ Later r' last
  type : a.type = dataTypeFor tag a.name
  stays : a.omittedIfEmpty = false

theorem IsWritten.mono {first first' last last' : Registry} {a : Attribute}
    (own : a.IsWritten e tag first' last) (before : Later first first') (after : Later last last') :
    a.IsWritten e tag first last' := by
  obtain ⟨r, r', earlier, read, later⟩ := own.value
  exact ⟨⟨r, r', before.trans earlier, read, later.trans after⟩, own.type, own.stays⟩

theorem isWritten_authored (shown : access.Shows e states) {names : List String} {s s' : Compiling σ}
    {written : List Attribute} (here : states s.node)
    (done : authored access tag names s = (.ok written, s')) :
    ∀ a ∈ written, a.IsWritten e tag s.registry s'.registry := by
  induction names generalizing s written with
  | nil =>
    cases done
    simp
  | cons name rest ih =>
    obtain ⟨raw, t, text, bindings, registry, later, read, valued, further, rfl⟩ := authored_cons done
    obtain ⟨node, answered, rfl⟩ := onNode_eq_ok read
    obtain ⟨rfl, there⟩ := shown.read here answered
    have grown := stepwise_grows.authored access tag rest { s with node, registry }
    rw [further] at grown
    intro a member
    rcases List.mem_cons.mp member with rfl | inside
    · exact ⟨⟨s.registry, registry, .refl _, valued, grown⟩, rfl, rfl⟩
    · exact (ih there further a inside).mono (readValue_later valued) (.refl _)

/-- No failure is about a name that comes twice. -/
def ClashFree (x : CompileM σ α) : Prop := ∀ s name t, x s ≠ (.error (.duplicate name), t)

/-- Where a step that is free of clashes comes first, a clash is one of the steps after it. -/
theorem ClashFree.of_bind {x : CompileM σ α} {f : α → CompileM σ β} (free : ClashFree x) {s t : Compiling σ}
    {name : String} (failed : (x >>= f) s = (.error (.duplicate name), t)) :
    ∃ a u, x s = (.ok a, u) ∧ f a u = (.error (.duplicate name), t) := by
  rw [bind_apply] at failed
  rcases ended : x s with ⟨reason | a, u⟩ <;> rw [ended] at failed
  · cases failed
    exact absurd ended (free s name t)
  · exact ⟨a, u, rfl, failed⟩

theorem clashFree_bind {x : CompileM σ α} {f : α → CompileM σ β} (first : ClashFree x)
    (rest : ∀ a, ClashFree (f a)) : ClashFree (x >>= f) := by
  intro s name t failed
  obtain ⟨a, u, -, failed⟩ := first.of_bind failed
  exact rest a u name t failed

theorem clashFree_pure (a : α) : ClashFree (pure a : CompileM σ α) := by
  intro s name t failed
  cases failed

theorem clashFree_onNode (x : AccessM σ α) : ClashFree (onNode x) := by
  intro s name t failed
  unfold onNode at failed
  split at failed <;> cases failed

theorem clashFree_onRegistry {wrap : ε → AttributeError} (other : ∀ e name, wrap e ≠ .duplicate name)
    (f : Registry → Except ε (α × Registry)) : ClashFree (onRegistry wrap f : CompileM σ α) := by
  intro s name t failed
  unfold onRegistry at failed
  split at failed
  · cases failed
  · exact other _ name (Except.error.inj (Prod.mk.inj failed).1)

theorem stepwise_clashFree : Stepwise (ClashFree (σ := σ)) where
  pure := clashFree_pure
  bind := clashFree_bind
  node := clashFree_onNode
  value _ _ _ _ := clashFree_onRegistry (by simp) _
  unusable _ _ s name t failed := by cases failed
  share _ _ := clashFree_onRegistry (by simp) _

theorem clashFree_withDefaults (tag : String) (attributes : List Attribute) :
    ClashFree (withDefaults tag attributes : CompileM σ (List Attribute)) := by
  intro s name t failed
  unfold withDefaults at failed
  split at failed <;> cases failed

section

variable {names : List String} {written bound full : List Attribute} {s t u v : Compiling σ}

theorem nodup_of_passes (once : names.Nodup)
    (read : authored access tag (sortNames names) s = (.ok written, t))
    (tied : bindIds tag idAttributes written t = (.ok bound, u))
    (completed : withDefaults tag bound u = (.ok full, v)) : (full.map (·.name)).Nodup := by
  refine nodup_withDefaults ?_ completed
  rw [names_bindIds tied, names_authored read]
  exact (List.mergeSort_perm ..).nodup_iff.mpr once

/-- An element with distinct names never comes to have an attribute twice. -/
theorem compileAll_ne_duplicate (shown : access.Shows e states) (distinct : (e.attrs.map (·.name)).Nodup)
    (here : states s.node) (name : String) : compileAll access tag s ≠ (.error (.duplicate name), t) := by
  intro failed
  obtain ⟨names, u, named, failed⟩ := (clashFree_onNode _).of_bind failed
  obtain ⟨node, answered, rfl⟩ := onNode_eq_ok named
  obtain ⟨rfl, -⟩ := shown.names here answered
  obtain ⟨written, v, read, failed⟩ := (stepwise_clashFree.authored access tag _).of_bind failed
  obtain ⟨bound, w, tied, failed⟩ := (stepwise_clashFree.bindIds tag _ written).of_bind failed
  obtain ⟨full, x, completed, failed⟩ := (clashFree_withDefaults tag bound).of_bind failed
  rw [repeated?_eq_none (nodup_of_passes distinct read tied completed) (by simp)] at failed
  cases failed

/-- Where ids are bound, any other attribute stays. -/
theorem find?_bindIds_of_other {name : String} (other : name ∉ idAttributes)
    (tied : bindIds tag idAttributes written t = (.ok bound, u)) : find? bound name = find? written name := by
  cases found : find? written name with
  | some a => exact find?_bindIds found (fun ids => absurd ids other) tied
  | none =>
    have unnamed : name ∉ written.map (·.name) := by simpa [find?] using found
    rw [← names_bindIds tied] at unnamed
    simpa [find?] using unnamed

theorem literal?_bindIds {name : String} (other : name ∉ idAttributes)
    (tied : bindIds tag idAttributes written t = (.ok bound, u)) :
    Default.literal? bound name = Default.literal? written name := by
  rw [Default.literal?, find?_bindIds_of_other other tied, Default.literal?]

theorem forTag_bindIds (tied : bindIds tag idAttributes written t = (.ok bound, u)) :
    Default.forTag tag bound = Default.forTag tag written := by
  refine Default.forTag_congr (fun name member => literal?_bindIds ?_ tied) tag
  revert name
  decide

end

/-- Compiling an element with distinct attribute names never fails because a name comes twice. What comes
out has distinct names: first those of the element, ascending, then those that the tag offers and the
element does not have, in the order of the tag. An authored attribute in which no ids are written comes
out as it was read if it has bindings or the tag does not offer it; only the length limit of a text box
is then left out when it is empty. -/
theorem compiled_shape {s : Compiling σ} (shown : access.Shows e states)
    (distinct : (e.attrs.map (·.name)).Nodup) (here : states s.node) (tag template : String) :
    (∀ failure after, compile access tag template s = (.error failure, after) →
      ∀ name, failure.reason ≠ .duplicate name) ∧
    ∀ full after, compile access tag template s = (.ok full, after) → ∃ written : List Attribute,
      let offered := (Default.forTag (Text.toLowerAscii tag) written).map (·.attributeName)
      (written.map (·.name)).Perm (e.attrs.map (·.name)) ∧ (written.map (·.name)).Pairwise (· < ·) ∧
      (∀ a ∈ written, a.IsWritten e (Text.toLowerAscii tag) s.registry after.registry) ∧
      full.map (·.name) = written.map (·.name) ++ offered.filter (· ∉ written.map (·.name)) ∧
      (full.map (·.name)).Nodup ∧
      ∀ a ∈ written, a.holdsIds = false → a.bindings ≠ [] ∨ a.name ∉ offered →
        limited (Text.toLowerAscii tag) (Default.literal? written "type") a ∈ full := by
  refine ⟨fun failure after failed name clash => ?_, fun full after done => ?_⟩
  · unfold compile at failed
    split at failed
    · cases failed
    · rename_i reason t ended
      cases failed
      obtain rfl : reason = .duplicate name := clash
      exact compileAll_ne_duplicate shown distinct here name ended
  · obtain ⟨names, start, written, t, bound, u, named, read, tied, completed⟩ :=
      compileAll_eq_ok (compile_eq_ok done)
    obtain ⟨node, answered, rfl⟩ := onNode_eq_ok named
    obtain ⟨rfl, there⟩ := shown.names here answered
    have sorted := names_authored read
    have same := names_bindIds tied
    have once : (written.map (·.name)).Nodup := sorted ▸ (List.mergeSort_perm ..).nodup_iff.mpr distinct
    refine ⟨written, sorted ▸ List.mergeSort_perm .., sorted ▸ sortNames_ascending distinct,
      fun a member => ?_, ?_, nodup_of_passes distinct read tied completed, fun a member apart kept => ?_⟩
    · exact (isWritten_authored shown there read a member).mono (.refl _) (later_of_passes tied completed)
    · rw [names_withDefaults completed, same, forTag_bindIds tied]
    · have plain : a.name ∈ idAttributes → a.text = "" := by
        simpa [holdsIds, List.contains_iff_mem] using apart
      rw [← literal?_bindIds (show "type" ∉ idAttributes by decide) tied]
      refine List.mem_of_find?_eq_some
        (find?_withDefaults (find?_bindIds (find?_of_mem once member) plain tied) ?_ completed)
      refine kept.imp_right fun other d offered own => other ?_
      rw [← forTag_bindIds tied]
      exact List.mem_map.mpr ⟨d, offered, own⟩

theorem shows_ofElement (e : Element) : Access.ofElement.Shows e (· = e) where
  names := by
    rintro _ t names rfl answered
    cases answered
    exact ⟨rfl, rfl⟩
  read := by
    rintro _ t name raw rfl answered
    rw [read_ofElement] at answered
    cases answered
    exact ⟨rfl, rfl⟩

/-- A link with a title: the title comes first, as it was read, and what links offer comes after it. -/
theorem compiled_shape_link :
    let link : Element := { tag := "a", attrs := [⟨"title", "see {{ hint }}"⟩] }
    let ended := compile Access.ofElement "A" "card" { node := link, registry := {} }
    ∃ full, ended.1 = .ok full ∧ full.map (·.name) = ["title", "href", "rel", "target"] ∧
      ∃ a ∈ full, a.name = "title" ∧ a.IsWritten link "a" {} ended.2.registry := by
  intro link ended
  have some : ended.1.toOption.isSome = true := by decide +kernel
  obtain ⟨full, found⟩ := Option.isSome_iff_exists.mp some
  have done : ended = (.ok full, ended.2) := Prod.ext (ok_of_toOption found) rfl
  obtain ⟨written, listed, -, own, shape, -, kept⟩ :=
    (compiled_shape (shows_ofElement link) (by decide) rfl "A" "card").2 full ended.2 done
  have lower : Text.toLowerAscii "A" = "a" := by decide
  rw [lower] at own shape kept
  have names : written.map (·.name) = ["title"] := List.perm_singleton.mp listed
  obtain ⟨a, rfl⟩ : ∃ a, written = [a] :=
    List.length_eq_one_iff.mp (by simpa using congrArg List.length names)
  have title : a.name = "title" := by simpa using names
  refine ⟨full, ok_of_toOption found, by rw [shape, names]; rfl, a, ?_, title,
    own a (List.mem_singleton_self a)⟩
  rw [← limited_of_other (show a.name ≠ "maxlength" by rw [title]; decide)]
  refine kept a (List.mem_singleton_self a) ?_ (.inr ?_)
  · rw [holdsIds, title]
    rfl
  · rw [title]
    exact (by decide : "title" ∉ ["href", "rel", "target"])

end Attribute

end Stencil
