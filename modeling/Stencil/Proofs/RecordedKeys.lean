import Stencil.Proofs.BoundNames
import Stencil.Proofs.RegistryGrants

/-! What a registry has on record after any run of calls. The calls that returned a key, in their order,
say all of its definition: they agree that it is optional, the last marker after the first call gives the
type, and the first tag stands. So for a reserved name it does not matter when its marker comes. -/
namespace Stencil.Registry

def Call.grant? (r : Registry) : Call → Option Grant
  | key entry name d => (entry.call r name d).toOption.map fun answer => ⟨entry, name, d, answer.1⟩
  | reserve _ => none

def granted : Registry → List Call → List Grant
  | _, [] => []
  | r, call :: rest => (call.grant? r).toList ++ granted (call.after r) rest

theorem Call.answer?_eq (r : Registry) (call : Call) : call.answer? r = (call.grant? r).map (·.key) := by
  cases call with
  | key entry name d => simp [answer?, grant?, Function.comp_def]
  | reserve name => rfl

theorem answers_eq (r : Registry) (calls : List Call) :
    answers r calls = (granted r calls).map (·.key) := by
  induction calls generalizing r with
  | nil => rfl
  | cons call rest ih =>
    rw [answers, granted, List.map_append, ih, call.answer?_eq]
    cases call.grant? r <;> rfl

theorem get?_reserve (r : Registry) (name key : String) : (r.reserve name).get? key = r.get? key := by
  unfold reserve
  split <;> rfl

/-- One call: what it is granted is put on record, and nothing else. -/
theorem Call.get?_after (r : Registry) (call : Call) (key : String) :
    (call.after r).get? key = recorded ((call.grant? r).toList.filter (·.key == key)) (r.get? key) := by
  cases call with
  | reserve name => exact get?_reserve r name key
  | key entry name d =>
    cases called : entry.call r name d with
    | error e => simp [after, grant?, called, recorded, Except.toOption]
    | ok answer =>
      have made : Grants r [⟨entry, name, d, answer.1⟩] answer.2 := .single called
      have on := made.get?_eq key
      simpa [after, grant?, called, Except.toOption] using on

theorem recorded_append (first later : List Grant) (old : Option KeyDefinition) :
    recorded (first ++ later) old = recorded later (recorded first old) :=
  List.foldl_append

/-- A whole run: the calls that returned a key make its definition. -/
theorem get?_run (r : Registry) (calls : List Call) (key : String) :
    (run r calls).get? key = recorded ((granted r calls).filter (·.key == key)) (r.get? key) := by
  induction calls generalizing r with
  | nil => rfl
  | cons call rest ih =>
    rw [run, granted, List.filter_append, recorded_append, ih, call.get?_after]

section Reserved

def Call.isFor (name : String) : Call → Bool
  | key _ given _ => Text.trim given == name
  | reserve _ => false

/-- What a call under a name is granted if it returns the name itself. -/
def Call.own? (name : String) : Call → Option Grant
  | key entry given d => if Text.trim given = name then some ⟨entry, given, d, name⟩ else none
  | reserve _ => none

theorem filterMap_own? (name : String) (calls : List Call) :
    (calls.filter (·.isFor name)).filterMap (Call.own? name) = calls.filterMap (Call.own? name) := by
  rw [List.filterMap_filter]
  congr
  funext call
  cases call with
  | key entry given d => by_cases own : Text.trim given = name <;> simp [Call.own?, Call.isFor, own]
  | reserve given => rfl

theorem own?_uses {name given : String} {d : KeyDefinition} {shares : List (String × KeyDefinition)}
    (own : Text.trim given = name) (named : ∀ p ∈ shares, Text.trim p.1 = name) :
    (Call.key .registerMarker given d :: shares.map fun p => .key .share p.1 p.2).filterMap
        (Call.own? name) =
      ⟨.registerMarker, given, d, name⟩ :: shares.map fun p => ⟨.share, p.1, p.2, name⟩ := by
  have first : (Call.key .registerMarker given d).own? name = some ⟨.registerMarker, given, d, name⟩ := by
    simp [Call.own?, own]
  rw [List.filterMap_cons_some first, List.filterMap_map]
  congr 1
  refine List.filterMap_eq_map_iff_forall_eq_some.mpr fun p member => ?_
  simp [Call.own?, named p member]

/-- A call for a key leaves the reserved names, and only a name that is not blank is added to them. -/
theorem after_reserved (r : Registry) (call : Call) :
    (call.after r).reserved = r.reserved ∨
      ∃ given, Text.trim given ≠ "" ∧ (call.after r).reserved = Text.trim given :: r.reserved := by
  cases call with
  | key entry given d =>
    cases called : entry.call r given d with
    | error e => exact .inl (by simp [Call.after, called])
    | ok answer => exact .inl (by simpa [Call.after, called] using (Entry.later entry called).reserved)
  | reserve given =>
    rw [Call.after, reserved_reserve]
    split
    · exact .inl rfl
    · exact .inr ⟨given, ‹_›, rfl⟩

theorem reserved_after {r : Registry} {name : String} (bound : name ∈ r.reserved) (call : Call) :
    name ∈ (call.after r).reserved := by
  rcases after_reserved r call with kept | ⟨given, -, added⟩
  · exact kept ▸ bound
  · exact added ▸ List.mem_cons_of_mem _ bound

theorem reserved_run {r : Registry} (all : ∀ name ∈ r.reserved, Text.trim name = name ∧ name ≠ "")
    (calls : List Call) : ∀ name ∈ (run r calls).reserved, Text.trim name = name ∧ name ≠ "" := by
  induction calls generalizing r with
  | nil => exact all
  | cons call rest ih =>
    apply ih
    intro name member
    rcases after_reserved r call with kept | ⟨given, nonblank, added⟩
    · exact all name (kept ▸ member)
    · rcases List.mem_cons.mp (added ▸ member) with rfl | old
      · exact ⟨Text.trim_trim given, nonblank⟩
      · exact all name old

/-- Sharing a reserved name and its markers lead to the name itself. -/
theorem grant?_of_isFor {r : Registry} {name given : String} {entry : Entry} {d : KeyDefinition}
    (nonempty : name ≠ "") (bound : name ∈ r.reserved) (own : Text.trim given = name)
    (kind : entry ≠ .register) : (Call.key entry given d).grant? r = some ⟨entry, given, d, name⟩ := by
  subst own
  cases entry with
  | register => exact absurd rfl kind
  | share =>
    obtain ⟨r', called, -⟩ := r.share_eq_ok d nonempty
    simp [Call.grant?, Entry.call, called, Except.toOption]
  | registerMarker =>
    obtain ⟨key, r', called, -, -, reserved⟩ := r.registerMarker_eq_ok d nonempty
    simp [Call.grant?, Entry.call, called, reserved bound, Except.toOption]

/-- The call is not for the name, or it shares it or is for a marker of it. -/
def Call.Takes (name : String) : Call → Prop
  | key entry given _ => Text.trim given = name → entry ≠ .register
  | reserve _ => True

/-- If a reserved name is only shared and asked for by markers, and no other name leads to it, the calls
that returned it are those for it. -/
theorem granted_eq_own {r : Registry} {name : String} (nonempty : name ≠ "") (bound : name ∈ r.reserved)
    {calls : List Call} (taken : ∀ call ∈ calls, call.Takes name)
    (only : ∀ g ∈ granted r calls, g.key = name → Text.trim g.name = name) :
    (granted r calls).filter (·.key == name) = calls.filterMap (Call.own? name) := by
  induction calls generalizing r with
  | nil => rfl
  | cons call rest ih =>
    have later := ih (reserved_after bound call)
      (fun other member => taken other (List.mem_cons_of_mem call member))
      (fun g member => only g (List.mem_append_right _ member))
    rw [granted, List.filter_append, later]
    cases call with
    | reserve given => rfl
    | key entry given d =>
      by_cases own : Text.trim given = name
      · have given? := grant?_of_isFor nonempty bound own (taken _ (List.mem_cons_self ..) own) (d := d)
        simp [given?, Call.own?, own]
      · have other : ∀ g ∈ (Call.key entry given d).grant? r, g.key ≠ name := by
          intro g given' same
          have member : g ∈ granted r (.key entry given d :: rest) :=
            List.mem_append_left _ (by simpa using given')
          have named : g.name = given := by
            obtain ⟨answer, -, rfl⟩ := Option.map_eq_some_iff.mp given'
            rfl
          exact own (named ▸ only g member same)
        have none : ((Call.key entry given d).grant? r).toList.filter (·.key == name) = [] := by
          simpa [List.filter_eq_nil_iff] using other
        simp [none, Call.own?, own]

/-- One marker among shares that give no tag: the definition is the marker's, as far as all agree that the
key is optional. -/
theorem recorded_of_perm {grants shares : List Grant} {marker : Grant}
    (one : grants.Perm (marker :: shares)) (kind : marker.entry = .registerMarker)
    (shared : ∀ g ∈ shares, g.entry = .share ∧ g.definition.tag = none) :
    recorded grants none = some
      { type := marker.definition.type
        optional := marker.definition.optional && shares.all (·.definition.optional)
        tag := marker.definition.tag } := by
  have optional : grants.all (·.definition.optional) =
      (marker.definition.optional && shares.all (·.definition.optional)) := by
    rw [one.all_eq, List.all_cons]
  have silent : shares.filter (·.entry == .registerMarker) = [] := by
    refine List.filter_eq_nil_iff.mpr fun g member => ?_
    simp [(shared g member).1]
  have markers : grants.filter (·.entry == .registerMarker) = [marker] := by
    have kept := one.filter (·.entry == .registerMarker)
    rw [List.filter_cons_of_pos (by simp [kind]), silent] at kept
    exact List.perm_singleton.mp kept
  cases grants with
  | nil => exact absurd one.length_eq (by simp)
  | cons first later =>
    have step : recorded (first :: later) none = recorded later (some first.definition) := rfl
    rw [step, recorded_some]
    rw [List.all_cons] at optional
    rcases List.mem_cons.mp (one.subset (List.mem_cons_self ..)) with rfl | share
    · -- The marker comes first: nothing after it is a marker.
      rw [List.filter_cons_of_pos (by simp [kind])] at markers
      rw [List.cons.inj markers |>.2, optional]
      simp
    · -- A share comes first, so the one marker is among the later calls.
      rw [List.filter_cons_of_neg (by simp [(shared first share).1])] at markers
      rw [markers, optional, (shared first share).2]
      cases tag : marker.definition.tag <;> simp [tag]

end Reserved

/-- After any run of calls on a new registry, the definition of a registered key is that of the calls that
returned it: it is optional if they all agree, its type is that of the last marker after the first call or
else of the first call, and its tag is that of the first call or else the first that a later marker gives.
A reserved name that one marker asks for and that is otherwise only shared, without tags, has the same
definition wherever the marker stands among these calls, and whatever other calls there are. -/
theorem definitions_over_runs (calls : List Call) :
    (∀ key ∈ (run {} calls).names, ∃ first later,
      (granted {} calls).filter (·.key == key) = first :: later ∧
        (run {} calls).get? key = some
          { type := ((later.filter (·.entry == .registerMarker)).getLast?.getD first).definition.type
            optional := (first :: later).all (·.definition.optional)
            tag := first.definition.tag.or
              ((later.filter (·.entry == .registerMarker)).findSome? (·.definition.tag)) }) ∧
    ∀ key ∈ (run {} calls).reserved, key ∉ (run {} calls).names →
      ∀ (given : String) (d : KeyDefinition) (shares : List (String × KeyDefinition)),
        Text.trim given = key → (∀ p ∈ shares, Text.trim p.1 = key ∧ p.2.tag = none) →
        ∀ more : List Call,
          (more.filter (·.isFor key)).Perm
            (.key .registerMarker given d :: shares.map fun p => .key .share p.1 p.2) →
          (∀ g ∈ granted (run {} calls) more, g.key = key → Text.trim g.name = key) →
          (run {} (calls ++ more)).get? key = some
            { type := d.type
              optional := d.optional && shares.all (·.2.optional)
              tag := d.tag } := by
  refine ⟨fun key known => ?_, fun key bound fresh given d shares own named more uses only => ?_⟩
  · have answered : key ∈ answers {} calls := by
      rcases (mem_run_names {} calls key).mp known with old | new
      · simp [names] at old
      · exact new
    rw [answers_eq] at answered
    obtain ⟨g, member, rfl⟩ := List.mem_map.mp answered
    obtain ⟨first, later, returned⟩ :
        ∃ first later, (granted {} calls).filter (·.key == g.key) = first :: later :=
      List.exists_cons_of_ne_nil (List.ne_nil_of_mem (List.mem_filter.mpr ⟨member, by simp⟩))
    refine ⟨first, later, returned, ?_⟩
    have step : recorded (first :: later) none = recorded later (some first.definition) := rfl
    rw [get?_run, returned, show get? {} g.key = none from rfl, step, recorded_some]
    cases (later.filter (·.entry == .registerMarker)).getLast? <;> rfl
  · have nonempty : key ≠ "" :=
      (reserved_run (r := {}) (fun _ member => absurd member List.not_mem_nil) calls key bound).2
    have taken : ∀ call ∈ more, call.Takes key := by
      intro call member
      cases call with
      | reserve name => trivial
      | key entry name e =>
        intro same
        have listed := uses.subset (List.mem_filter.mpr ⟨member, by simpa [Call.isFor] using same⟩)
        rcases List.mem_cons.mp listed with equal | share
        · cases equal
          simp
        · obtain ⟨p, -, equal⟩ := List.mem_map.mp share
          cases equal
          simp
    have returned := uses.filterMap (Call.own? key)
    rw [filterMap_own?, own?_uses own fun p member => (named p member).1,
      ← granted_eq_own nonempty bound taken only] at returned
    have settled := recorded_of_perm returned rfl fun g member => by
      obtain ⟨p, inside, rfl⟩ := List.mem_map.mp member
      exact ⟨rfl, (named p inside).2⟩
    rw [run_append, get?_run, (get?_eq_none_iff _ key).mpr fresh, settled]
    simp [List.all_map, Function.comp_def]

/-- A condition on `isOpen` before its marker and one after it: the key is a flag of the `div`, and it is
required because one of the conditions requires it. A key of another name comes between. -/
theorem definitions_over_runs_isOpen :
    let text (optional : Bool) : KeyDefinition := { type := .string, optional, tag := none }
    let flag : KeyDefinition := { type := .boolean, optional := true, tag := some "div" }
    let shares := [("isOpen", text true), (" isOpen", text false)]
    let more := [Call.key .share "isOpen" (text true), .key .register "href" (text true),
      .key .registerMarker "isOpen " flag, .key .share " isOpen" (text false)]
    "isOpen" ∈ (run {} [.reserve "isOpen"]).reserved ∧
      (more.filter (·.isFor "isOpen")).Perm
        (.key .registerMarker "isOpen " flag :: shares.map fun p => .key .share p.1 p.2) ∧
      (run {} ([.reserve "isOpen"] ++ more)).get? "isOpen" =
        some { type := .boolean, optional := false, tag := some "div" } := by
  intro text flag shares more
  have reserved : "isOpen" ∈ (run {} [.reserve "isOpen"]).reserved := by decide
  have uses : (more.filter (·.isFor "isOpen")).Perm
      (.key .registerMarker "isOpen " flag :: shares.map fun p => .key .share p.1 p.2) := by decide
  have settled := (definitions_over_runs [.reserve "isOpen"]).2 "isOpen" reserved (by decide) "isOpen " flag
    shares (by decide) (by decide) more uses (by decide)
  exact ⟨reserved, uses, settled⟩

end Stencil.Registry
