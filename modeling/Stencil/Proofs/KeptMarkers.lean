import Stencil.Proofs.AttributeNames
import Stencil.Proofs.GrantedBindings
import Stencil.Proofs.MatchedAccess

/-! The keys that compiling an element registers, and the attributes that bind them. Every marker is given a
key, and the attribute it stands in binds that key in the end, whatever the tag brings besides. There is
one exception: where ids are written beside markers in an attribute that holds ids, the keys of the ids
take the place of those of the markers, which stay registered. No other key is registered that no
attribute binds. -/
namespace Stencil

open Markup (Access Element)
open Registry (Later Registers)

theorem Registry.Entry.registers (entry : Entry) {r r' : Registry} {name key : String} {d : KeyDefinition}
    (called : entry.call r name d = .ok (key, r')) : Registers r key r' := by
  rcases entry.call_cases called with ⟨free, rfl, -⟩ | ⟨known, rfl, -⟩
  · exact registers_append free d
  · exact registers_update known _

theorem Registry.Registers.names_cons {r r' r'' : Registry} {key : String} {keys : List String}
    (registers : Registers r key r') (later : ∀ name ∈ r''.names, name ∈ r'.names ∨ name ∈ keys) :
    ∀ name ∈ r''.names, name ∈ r.names ∨ name ∈ key :: keys := by
  intro name known
  rcases later name known with old | new
  · rcases (registers.mem_names name).mp old with before | rfl
    · exact .inl before
    · exact .inr (List.mem_cons_self ..)
  · exact .inr (List.mem_cons_of_mem _ new)

theorem Marker.names_registerAll {plain : KeyType} {tag : String} {markers : List Marker} {r r' : Registry}
    {bindings : List Binding} (done : registerAll plain tag markers r = .ok (bindings, r')) :
    ∀ key ∈ r'.names, key ∈ r.names ∨ key ∈ bindings.map (·.key) := by
  induction markers generalizing r bindings with
  | nil =>
    cases done
    exact fun key => .inl
  | cons m rest ih =>
    obtain ⟨binding, middle, others, first, later, rfl⟩ := registerAll_cons done
    obtain ⟨key, called, rfl⟩ := called_of_register first
    exact (Registry.Entry.registers .registerMarker called).names_cons (ih later)

namespace Attribute

def keys (a : Attribute) : List String := a.bindings.map (·.key)

def holdsIds (a : Attribute) : Bool := idAttributes.contains a.name && !a.text.isEmpty

def idKeys (a : Attribute) : List String :=
  (Text.words a.text).map fun id => Text.trim (Text.camelCase id)

/-- The text of the attribute and its bindings are those of the value that its author wrote: at some point
between two registries, the markers were registered one after the other. -/
def IsAuthored (e : Element) (tag : String) (first last : Registry) (a : Attribute) : Prop :=
  ∃ markers, Marker.parse (e.authored a.name) = .ok (a.text, markers) ∧
    ∃ plain r r', Later first r ∧ Marker.registerAll plain tag markers r = .ok (a.bindings, r') ∧
      Later r' last

/-- Some attribute that is found under its name binds the key. -/
def Binds (attributes : List Attribute) (key : String) : Prop :=
  ∃ name a, find? attributes name = some a ∧ key ∈ a.keys

theorem find?_of_mem {attributes : List Attribute} {a : Attribute}
    (distinct : (attributes.map (·.name)).Nodup) (member : a ∈ attributes) :
    find? attributes a.name = some a := by
  induction attributes with
  | nil => cases member
  | cons b rest ih =>
    rw [List.map_cons, List.nodup_cons] at distinct
    rcases List.mem_cons.mp member with rfl | later
    · simp [find?]
    · have other : b.name ≠ a.name := fun same => distinct.1 (same ▸ List.mem_map_of_mem later)
      simpa [find?, other] using ih distinct.2 later

theorem binds_put_self (attributes : List Attribute) {a : Attribute} {key : String} (own : key ∈ a.keys) :
    Binds (put attributes a) key := by
  refine ⟨a.name, a, ?_, own⟩
  rw [find?_put, if_pos rfl]

/-- A key is still bound after an attribute is put in place, unless the attribute it replaces bound it. -/
theorem Binds.put {attributes : List Attribute} {key : String} (bound : Binds attributes key)
    (a : Attribute) :
    Binds (put attributes a) key ∨ ∃ b, find? attributes a.name = some b ∧ key ∈ b.keys := by
  obtain ⟨name, b, found, held⟩ := bound
  by_cases same : a.name = name
  · exact .inr ⟨b, same ▸ found, held⟩
  · refine .inl ⟨name, b, ?_, held⟩
    rw [find?_put, if_neg same]
    exact found

section

variable {σ : Type} {tag : String} {s s' : Compiling σ}

theorem names_of_authored {access : Access σ} {names : List String} {attributes : List Attribute}
    (done : authored access tag names s = (.ok attributes, s')) :
    ∀ key ∈ s'.registry.names, key ∈ s.registry.names ∨ ∃ a ∈ attributes, key ∈ a.keys := by
  induction names generalizing s attributes with
  | nil =>
    cases done
    exact fun key => .inl
  | cons name rest ih =>
    obtain ⟨raw, t, text, bindings, registry, later, read, valued, further, rfl⟩ := authored_cons done
    obtain ⟨node, -, rfl⟩ := onNode_eq_ok read
    obtain ⟨markers, -, here⟩ := readValue_eq_ok valued
    intro key known
    rcases ih further key known with old | ⟨a, inside, bound⟩
    · rcases Marker.names_registerAll here key old with before | new
      · exact .inl before
      · exact .inr ⟨_, List.mem_cons_self .., new⟩
    · exact .inr ⟨a, List.mem_cons_of_mem _ inside, bound⟩

theorem keys_idBindings {a : Attribute} {ids : List String} {bindings : List Binding}
    (done : idBindings a tag ids s = (.ok bindings, s')) :
    bindings.map (·.key) = ids.map (fun id => Text.trim (Text.camelCase id)) ∧
      ∀ key ∈ s'.registry.names, key ∈ s.registry.names ∨ key ∈ bindings.map (·.key) := by
  induction ids generalizing s bindings with
  | nil =>
    cases done
    exact ⟨rfl, fun key => .inl⟩
  | cons id rest ih =>
    obtain ⟨key, registry, later, called, bound, rfl⟩ := idBindings_cons done
    obtain ⟨keys, names⟩ := ih bound
    have registers := Registry.Entry.registers .share called
    have own : key = Text.trim (Text.camelCase id) := by
      by_cases blank : Text.trim (Text.camelCase id) = ""
      · have refused := Registry.Entry.call_blank .share s.registry
          { type := .string, optional := true, tag := some tag } blank
        exact absurd (called.symm.trans refused) (by simp)
      · obtain ⟨r, known, -⟩ := s.registry.share_eq_ok
          { type := .string, optional := true, tag := some tag } blank
        exact (Prod.mk.inj (Except.ok.inj (called.symm.trans known))).1
    exact ⟨by rw [List.map_cons, List.map_cons, keys, ← own], registers.names_cons names⟩

/-- An attribute in which ids are written comes to bind them instead. -/
theorem find?_bindIds_of_mem {name : String} {ids : List String} {attributes bound : List Attribute}
    {a : Attribute} (found : find? attributes name = some a) (member : name ∈ ids) (once : ids.Nodup)
    (written : a.text ≠ "") (done : bindIds tag ids attributes s = (.ok bound, s')) :
    ∃ b, find? bound name = some b ∧ b.keys = a.idKeys := by
  induction ids generalizing attributes s with
  | nil => cases member
  | cons id rest ih =>
    rw [List.nodup_cons] at once
    obtain ⟨done, empty⟩ | ⟨bearer, bindings, t, known, own, -, tied, done⟩ := bindIds_cons done
    · have other : name ≠ id := by
        rintro rfl
        exact written (empty a found)
      exact ih found ((List.mem_cons.mp member).resolve_left other) once.2 done
    · by_cases here : name = id
      · subst here
        obtain rfl : a = bearer := Option.some.inj (found.symm.trans known)
        have replaced := find?_put attributes
          { a with text := "", type := .string, bindings, omittedIfEmpty := true } name
        rw [if_pos own] at replaced
        refine ⟨_, find?_bindIds replaced (fun later => absurd later once.1) done, ?_⟩
        exact (keys_idBindings tied).1
      · refine ih ?_ ((List.mem_cons.mp member).resolve_left here) once.2 done
        rw [find?_put, if_neg fun same => here (same.symm.trans own)]
        exact found

/-- Where ids take the place of markers, the attribute is still as its author wrote it; no key is lost but
those of such attributes. -/
theorem binds_bindIds {ids : List String} {written attributes bound : List Attribute}
    {Spared : String → Prop}
    (original : ∀ name a, find? attributes name = some a → a.text ≠ "" → find? written name = some a)
    (spared : ∀ id ∈ ids, ∀ a, find? written id = some a → a.text ≠ "" → ∀ key ∈ a.keys, Spared key)
    (covered : ∀ key ∈ s.registry.names, Spared key ∨ Binds attributes key)
    (done : bindIds tag ids attributes s = (.ok bound, s')) :
    ∀ key ∈ s'.registry.names, Spared key ∨ Binds bound key := by
  induction ids generalizing attributes s with
  | nil =>
    cases done
    exact covered
  | cons id rest ih =>
    have others := fun id member => spared id (List.mem_cons_of_mem _ member)
    obtain ⟨done, -⟩ | ⟨bearer, bindings, t, known, own, filled, tied, done⟩ := bindIds_cons done
    · exact ih original others covered done
    · refine ih ?_ others ?_ done
      · intro name a found text
        rw [find?_put] at found
        split at found
        · cases found
          exact absurd rfl text
        · exact original name a found text
      · intro key registered
        rcases (keys_idBindings tied).2 key registered with old | new
        · rcases covered key old with lost | bound
          · exact .inl lost
          · rcases bound.put _ with still | ⟨a, found, held⟩
            · exact .inr still
            · have replaced : find? attributes bearer.name = some a := found
              rw [own, known] at replaced
              cases replaced
              exact .inl (spared id (List.mem_cons_self ..) _ (original id _ known filled) filled key held)
        · exact .inr (binds_put_self attributes new)

end

end Attribute

namespace Default

open Attribute (find? find?_put Binds)

variable {tag : String} {attributes full : List Attribute} {r r' : Registry}

/-- What a default registers, the attribute that it puts in place binds. An attribute that binds keys stays
as it is. -/
theorem binds_apply {d : Default} {Spared : String → Prop}
    (covered : ∀ key ∈ r.names, Spared key ∨ Binds attributes key)
    (done : d.apply tag attributes r = .ok (full, r')) : ∀ key ∈ r'.names, Spared key ∨ Binds full key := by
  rcases apply_cases done with ⟨-, rfl, rfl⟩ | ⟨free, key, called, rfl⟩
  · exact covered
  · intro name known
    rcases ((Registry.Entry.registers .register called).mem_names name).mp known with old | rfl
    · refine (covered name old).imp_right fun bound => ?_
      rcases bound.put (d.replacement tag key) with still | ⟨a, found, held⟩
      · exact still
      · have filled : a.bindings ≠ [] := fun empty => by simp [Attribute.keys, empty] at held
        have occupied : isBound attributes d.attributeName = true := by
          unfold isBound
          rw [show find? attributes d.attributeName = some a from found]
          simp [Attribute.isStatic, filled]
        exact absurd (free.symm.trans occupied) Bool.false_ne_true
    · exact .inr (Attribute.binds_put_self attributes (by simp [Attribute.keys, replacement]))

theorem binds_applyAll {defaults : List Default} {Spared : String → Prop}
    (covered : ∀ key ∈ r.names, Spared key ∨ Binds attributes key)
    (done : applyAll tag defaults attributes r = (.ok full, r')) :
    ∀ key ∈ r'.names, Spared key ∨ Binds full key := by
  induction defaults generalizing attributes r with
  | nil =>
    cases done
    exact covered
  | cons d rest ih =>
    obtain ⟨next, registry, applied, done⟩ := applyAll_cons done
    exact ih (binds_apply covered applied) done

end Default

namespace Attribute

section

variable {tag : String} {bound full : List Attribute} {s s' : Compiling Element}

/-- No tag offers an attribute that holds ids, so what these bind they keep. -/
theorem find?_withDefaults_of_ids {name : String} {a : Attribute} (ids : name ∈ idAttributes)
    (found : find? bound name = some a) (done : withDefaults tag bound s = (.ok full, s')) :
    ∃ b, find? full name = some b ∧ b.bindings = a.bindings := by
  have other : ∀ d ∈ Default.forTag tag bound, d.attributeName ≠ name := by
    rintro d member rfl
    have apart : ∀ id ∈ idAttributes, id ∉ Default.offeredNames := by decide
    exact apart _ ids (Default.offered_of_mem_forTag tag bound d member)
  exact ⟨_, find?_withDefaults found (.inr other) done, rfl⟩

theorem binds_withDefaults {Spared : String → Prop}
    (covered : ∀ key ∈ s.registry.names, Spared key ∨ Binds bound key)
    (done : withDefaults tag bound s = (.ok full, s')) :
    ∀ key ∈ s'.registry.names, Spared key ∨ Binds full key := by
  obtain ⟨offered, applied, rfl⟩ := withDefaults_eq_ok done
  intro key known
  refine (Default.binds_applyAll covered applied key known).imp_right ?_
  rintro ⟨name, a, found, member⟩
  exact ⟨name, _, find?_omitEmptyLimit found, member⟩

/-- What becomes of an attribute as its author wrote it: it binds the keys it had, or those of the ids that
are written in it. -/
theorem keys_of_passes {written : List Attribute} {a : Attribute} {t : Compiling Element}
    (found : find? written a.name = some a)
    (tied : bindIds tag idAttributes written t = (.ok bound, s))
    (completed : withDefaults tag bound s = (.ok full, s')) :
    ∃ b, find? full a.name = some b ∧
      ∀ key ∈ a.keys, (key ∈ b.keys ↔ (a.holdsIds = true → key ∈ a.idKeys)) := by
  cases ids : a.holdsIds with
  | true =>
    obtain ⟨member, nonempty⟩ : a.name ∈ idAttributes ∧ a.text ≠ "" := by
      simpa [holdsIds, List.contains_iff_mem] using ids
    obtain ⟨b, replaced, keys⟩ := find?_bindIds_of_mem found member (by decide) nonempty tied
    obtain ⟨c, kept, bindings⟩ := find?_withDefaults_of_ids member replaced completed
    refine ⟨c, kept, fun key _ => ?_⟩
    rw [Attribute.keys, bindings, ← keys]
    simp [Attribute.keys]
  | false =>
    have plain : a.name ∈ idAttributes → a.text = "" := by
      simpa [holdsIds, List.contains_iff_mem] using ids
    have same := find?_bindIds found plain tied
    by_cases empty : a.bindings = []
    · have listed : a.name ∈ full.map (·.name) := by
        rw [names_withDefaults completed]
        exact List.mem_append_left _ (name_mem_of_find? same)
      obtain ⟨b, member, named⟩ := List.mem_map.mp listed
      obtain ⟨c, kept⟩ := Option.isSome_iff_exists.mp
        (List.find?_isSome (p := fun b : Attribute => b.name == a.name) |>.mpr ⟨b, member, by simp [named]⟩)
      exact ⟨c, kept, by simp [keys, empty]⟩
    · refine ⟨_, find?_withDefaults same (.inl empty) completed, fun key held => ?_⟩
      simp only [reduceCtorEq, false_implies, iff_true]
      exact held

theorem IsAuthored.mono {e : Element} {first middle last : Registry} {a : Attribute}
    (own : a.IsAuthored e tag first middle) (grown : Later middle last) : a.IsAuthored e tag first last := by
  obtain ⟨markers, parsed, plain, r, r', before, here, later⟩ := own
  exact ⟨markers, parsed, plain, r, r', before, here, later.trans grown⟩

variable {written : List Attribute} {names : List String} {t : Compiling Element}

theorem isAuthored_of_mem {a : Attribute} (once : (written.map (·.name)).Nodup)
    (read : authored Access.ofElement tag names s = (.ok written, t)) (member : a ∈ written) :
    a.IsAuthored s.node tag s.registry t.registry := by
  have binds := authored_binds (P := fun markers bindings => ∃ plain r r', Later s.registry r ∧
      Marker.registerAll plain tag markers r = .ok (bindings, r') ∧ Later r' t.registry)
    (fun plain _ _ r r' before later here => ⟨plain, r, r', before, here, later⟩) read
  obtain ⟨b, found, markers, parsed, plain, r, r', before, here, later⟩ :=
    find?_of_forall₂ binds (names_authored read ▸ List.mem_map_of_mem member)
  obtain rfl : b = a := Option.some.inj (found.symm.trans (find?_of_mem once member))
  exact ⟨markers, parsed, plain, r, r', before, here, later⟩

theorem later_of_passes {σ : Type} {t u v : Compiling σ}
    (tied : bindIds tag idAttributes written t = (.ok bound, u))
    (completed : withDefaults tag bound u = (.ok full, v)) : Later t.registry v.registry := by
  have ids := stepwise_grows.bindIds tag idAttributes written t
  have defaults := grows_withDefaults tag bound u
  rw [tied] at ids
  rw [completed] at defaults
  exact ids.trans defaults

/-- No key is registered that no attribute binds, but for those of markers beside ids. -/
theorem binds_of_passes {u : Compiling Element} (once : (written.map (·.name)).Nodup)
    (read : authored Access.ofElement tag names s = (.ok written, t))
    (tied : bindIds tag idAttributes written t = (.ok bound, u))
    (completed : withDefaults tag bound u = (.ok full, s')) :
    ∀ key ∈ s'.registry.names,
      (key ∈ s.registry.names ∨ ∃ a ∈ written, a.holdsIds = true ∧ key ∈ a.keys) ∨ Binds full key := by
  refine binds_withDefaults (binds_bindIds (fun _ _ found _ => found) ?_ ?_ tied) completed
  · intro id listed a found text key bound
    have own : a.name = id := by simpa using List.find?_some found
    refine .inr ⟨a, List.mem_of_find?_eq_some found, ?_, bound⟩
    simpa [holdsIds, own, text] using listed
  · intro key known
    rcases names_of_authored read key known with old | ⟨a, member, bound⟩
    · exact .inl (.inl old)
    · exact .inr ⟨a.name, a, find?_of_mem once member, bound⟩

end

/-- Compiling an element registers a key for every marker that its author wrote. The attribute in which the
marker stands binds the key in the end, unless it holds ids and ids are written in it: then it binds the
keys of the ids. Every name that is new in the registry is bound by some attribute, or else it is the key
of a marker beside ids. -/
theorem markers_kept {σ : Type} {access : Access σ} {R : σ → Element → Prop}
    (matching : Access.Matches R Eq access Access.ofElement) {s after : Compiling σ} {e : Element}
    (related : R s.node e) (distinct : (e.attrs.map (·.name)).Nodup) {tag template : String}
    {full : List Attribute} (done : compile access tag template s = (.ok full, after)) :
    ∃ written : List Attribute, written.map (·.name) = sortNames (e.attrs.map (·.name)) ∧
      (∀ a ∈ written, a.IsAuthored e (Text.toLowerAscii tag) s.registry after.registry) ∧
      (∀ a ∈ written, ∃ b, find? full a.name = some b ∧
        ∀ key ∈ a.keys, (key ∈ b.keys ↔ (a.holdsIds = true → key ∈ a.idKeys))) ∧
      ∀ key ∈ after.registry.names, key ∉ s.registry.names →
        (∃ b ∈ full, key ∈ b.keys) ∨ ∃ a ∈ written, a.holdsIds = true ∧ key ∈ a.keys := by
  obtain ⟨ended, paired⟩ := alike_compile matching tag template s ⟨e, s.registry, s.notices⟩
    ⟨related, rfl, rfl⟩
  rcases near : compile Access.ofElement tag template ⟨e, s.registry, s.notices⟩ with ⟨outcome, last⟩
  rw [done, near] at ended paired
  obtain rfl := ended.eq
  have registry : after.registry = last.registry := paired.registry
  obtain ⟨names, start, written, t, bound, u, named, read, tied, completed⟩ :=
    compileAll_eq_ok (compile_eq_ok near)
  cases named
  have sorted := names_authored read
  have once : (written.map (·.name)).Nodup := by
    rw [sorted]
    exact (List.mergeSort_perm ..).nodup_iff.mpr distinct
  refine ⟨written, sorted, fun a member => ?_, fun a member => ?_, fun key known fresh => ?_⟩
  · have grown : Later t.registry after.registry := registry ▸ later_of_passes tied completed
    exact (isAuthored_of_mem once read member).mono grown
  · exact keys_of_passes (find?_of_mem once member) tied completed
  · rcases binds_of_passes once read tied completed key (registry ▸ known) with (old | lost) | bound
    · exact absurd old fresh
    · exact .inr lost
    · obtain ⟨name, b, found, held⟩ := bound
      exact .inl ⟨b, List.mem_of_find?_eq_some found, held⟩

/-- A link whose id is a marker: all that is registered is bound, also by what the tag brings. -/
theorem markers_kept_link :
    let link : Element := { tag := "a", attrs := [⟨"id", "\x7b\x7b b \x7d\x7d"⟩] }
    let s : Compiling Element := { node := link, registry := {} }
    let ended := compile Access.ofElement "a" "card" s
    ended.2.registry.names = ["b", "href", "rel", "target"] ∧
      ∃ full, ended.1 = .ok full ∧ ∀ key ∈ ended.2.registry.names, ∃ b ∈ full, key ∈ b.keys := by
  intro link s ended
  have same : Access.Matches Eq Eq Access.ofElement Access.ofElement := by
    constructor
    · rintro e _ rfl
      exact ⟨.ok rfl, rfl⟩
    · rintro name e _ rfl
      rw [read_ofElement]
      exact ⟨.ok rfl, rfl⟩
  have names : ended.2.registry.names = ["b", "href", "rel", "target"] := by decide +kernel
  have some : ended.1.toOption.isSome = true := by decide +kernel
  obtain ⟨full, found⟩ := Option.isSome_iff_exists.mp some
  have done : ended = (.ok full, ended.2) := Prod.ext (ok_of_toOption found) rfl
  obtain ⟨written, sorted, authored, -, bound⟩ :=
    markers_kept same (s := s) rfl (by decide) done
  refine ⟨names, full, ok_of_toOption found, fun key known => ?_⟩
  rcases bound key known (by simp [s, Registry.names]) with kept | ⟨a, member, ids, -⟩
  · exact kept
  · obtain ⟨markers, parsed, -⟩ := authored a member
    have named : a.name = "id" := by
      have listed : a.name ∈ written.map (·.name) := List.mem_map_of_mem member
      rw [sorted] at listed
      simpa [s, link] using List.mem_mergeSort.mp listed
    have blank : (Marker.parse (link.authored "id")).toOption.map (·.1) = Option.some "" := by decide +kernel
    rw [← named, parsed] at blank
    have text : a.text = "" := Option.some.inj blank
    simp [holdsIds, text] at ids

/-- A marker beside an id: its key is registered, but only that of the id is bound. -/
theorem markers_lost_beside_ids :
    let e : Element := { tag := "p", attrs := [⟨"id", "a \x7b\x7b b \x7d\x7d"⟩] }
    let ended := compile Access.ofElement "p" "card" { node := e, registry := {} }
    ended.1.toOption.map (·.map fun a => (a.name, a.keys)) = some [("id", ["a"])] ∧
      ended.2.registry.names = ["b", "a"] := by
  decide +kernel

end Attribute

end Stencil
