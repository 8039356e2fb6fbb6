import Stencil.Proofs.RegistryGrowth

/-! What a run of calls leaves in a registry. A call that returns a key new to the registry defines it, and
one that returns a known key only adds to its definition: any call can make the key required, and the
marker of a reserved name gives it another type. So the calls that returned a key say all that is known
of it in the end. -/
namespace Stencil.Registry

theorem get?_eq_none_iff (r : Registry) (key : String) : r.get? key = none ↔ key ∉ r.names := by
  simp only [get?, names, Option.map_eq_none_iff, List.find?_eq_none, beq_iff_eq, List.mem_map, not_exists,
    not_and]

theorem exists_get?_of_mem {r : Registry} {key : String} (member : key ∈ r.names) :
    ∃ d, r.get? key = some d := by
  apply Option.ne_none_iff_exists'.mp
  intro none
  exact (get?_eq_none_iff r key).mp none member

theorem get?_update (r : Registry) (key : String) (f : KeyDefinition → KeyDefinition) (other : String) :
    (r.update key f).get? other = if other = key then (r.get? key).map f else r.get? other := by
  unfold get? update
  induction r.keys with
  | nil => simp
  | cons entry rest ih =>
    obtain ⟨name, d⟩ := entry
    by_cases here : name = other
    · subst here
      by_cases same : name = key <;> simp [same]
    · by_cases same : other = key
      · subst same
        simpa [here] using ih
      · simpa [here, same] using ih

theorem get?_append {r : Registry} {key : String} (free : key ∉ r.names) (d : KeyDefinition)
    (other : String) :
    ({ r with keys := r.keys ++ [(key, d)] } : Registry).get? other =
      if other = key then some d else r.get? other := by
  by_cases same : other = key
  · subst same
    have absent := (get?_eq_none_iff r other).mpr free
    simp only [get?, Option.map_eq_none_iff] at absent
    simp [get?, List.find?_append, absent]
  · have apart : ¬key = other := fun equal => same equal.symm
    simp [get?, List.find?_append, same, apart]

/-- What a call makes of the definition that a key has. -/
def Entry.define (entry : Entry) (d : KeyDefinition) : Option KeyDefinition → KeyDefinition
  | none => d
  | some old =>
    { type := if entry = .registerMarker then d.type else old.type
      optional := old.optional && d.optional
      tag := if entry = .registerMarker then old.tag.or d.tag else old.tag }

theorem register_cases {r r' : Registry} {name key : String} {d : KeyDefinition}
    (called : r.register name d = .ok (key, r')) :
    key = FreshName.pick r.names (Text.trim name) ∧ key ∉ r.names ∧
      r' = { r with keys := r.keys ++ [(key, d)] } := by
  obtain ⟨checked, trimmed, called⟩ := bind_eq_ok called
  cases called
  unfold checkedName at trimmed
  split at trimmed
  · cases trimmed
  · cases trimmed
    exact ⟨rfl, FreshName.pick_not_mem _ _, rfl⟩

/-- A call adds a new key, or it is about the key of its own name: a shared one, or the reserved one of a
marker. -/
theorem Entry.call_cases {entry : Entry} {r r' : Registry} {name key : String} {d : KeyDefinition}
    (called : entry.call r name d = .ok (key, r')) :
    (key ∉ r.names ∧ r' = { r with keys := r.keys ++ [(key, d)] } ∧
        (entry = .registerMarker → Text.trim name ∈ r.reserved → key = Text.trim name)) ∨
      (key ∈ r.names ∧ r' = r.update key (fun old => entry.define d (some old)) ∧
        (entry = .share ∨ entry = .registerMarker ∧ key ∈ r.reserved ∧ key = Text.trim name)) := by
  cases entry with
  | register =>
    obtain ⟨-, free, added⟩ := register_cases called
    exact Or.inl ⟨free, added, by simp⟩
  | share =>
    obtain ⟨checked, trimmed, called⟩ := bind_eq_ok (show r.share name d = _ from called)
    by_cases known : r.contains checked = true
    · rw [if_pos known] at called
      cases called
      exact Or.inr ⟨by simpa [contains] using known, rfl, Or.inl rfl⟩
    · rw [if_neg known] at called
      obtain ⟨-, free, added⟩ := register_cases called
      exact Or.inl ⟨free, added, by simp⟩
  | registerMarker =>
    obtain ⟨checked, trimmed, called⟩ := bind_eq_ok (show r.registerMarker name d = _ from called)
    have own : checked = Text.trim name := by
      unfold checkedName at trimmed
      split at trimmed <;> cases trimmed
      rfl
    by_cases shared : (r.reserved.contains checked && r.contains checked) = true
    · rw [if_pos shared] at called
      cases called
      simp only [contains, Bool.and_eq_true, List.contains_iff_mem] at shared
      exact Or.inr ⟨shared.2, rfl, Or.inr ⟨rfl, shared.1, own⟩⟩
    · rw [if_neg shared] at called
      obtain ⟨picked, free, added⟩ := register_cases called
      refine Or.inl ⟨free, added, fun _ reserved => ?_⟩
      simp only [contains, Bool.and_eq_true, List.contains_iff_mem, not_and] at shared
      rw [own] at shared picked
      rw [picked, Text.trim_trim]
      exact FreshName.pick_of_not_mem (shared reserved)

/-- After a call its key has the definition that the call makes of the old one; no other key changes. -/
theorem Entry.get?_call {entry : Entry} {r r' : Registry} {name key : String} {d : KeyDefinition}
    (called : entry.call r name d = .ok (key, r')) (other : String) :
    r'.get? other = if other = key then some (entry.define d (r.get? key)) else r.get? other := by
  rcases entry.call_cases called with ⟨free, rfl, -⟩ | ⟨known, rfl, -⟩
  · rw [get?_append free, (get?_eq_none_iff r key).mpr free]
    rfl
  · obtain ⟨old, found⟩ := exists_get?_of_mem known
    rw [get?_update, found]
    rfl

structure Grant where
  entry : Entry
  name : String
  definition : KeyDefinition
  key : String

/-- What calls that return one key make of its definition, one after the other. -/
def recorded (grants : List Grant) (old : Option KeyDefinition) : Option KeyDefinition :=
  grants.foldl (fun known g => some (g.entry.define g.definition known)) old

/-- Of a key that is known, every call can take away that it is optional, each marker replaces the type,
and the first marker with a tag gives it to a key that has none. -/
theorem recorded_some (grants : List Grant) (old : KeyDefinition) :
    recorded grants (some old) = some
      { type := ((grants.filter (·.entry == .registerMarker)).getLast?.map (·.definition.type)).getD old.type
        optional := old.optional && grants.all (·.definition.optional)
        tag := old.tag.or
          ((grants.filter (·.entry == .registerMarker)).findSome? (·.definition.tag)) } := by
  induction grants generalizing old with
  | nil => simp [recorded]
  | cons g rest ih =>
    have step : recorded (g :: rest) (some old) =
        recorded rest (some (g.entry.define g.definition (some old))) := rfl
    rw [step, ih]
    by_cases marker : g.entry = .registerMarker
    · obtain ⟨type, optional, tag⟩ := old
      rw [List.filter_cons_of_pos (by simp [marker]), List.getLast?_cons, List.findSome?_cons]
      cases (rest.filter (·.entry == .registerMarker)).getLast? <;> cases tag <;>
        cases given : g.definition.tag <;> simp [Entry.define, marker, given, Bool.and_assoc]
    · rw [List.filter_cons_of_neg (by simp [marker])]
      simp [Entry.define, marker, Bool.and_assoc]

/-- A run of calls that lead from one registry to another, each returning its key. -/
inductive Grants : Registry → List Grant → Registry → Prop where
  | nil {r} : Grants r [] r
  | cons {r g middle rest r'} : g.entry.call r g.name g.definition = .ok (g.key, middle) →
      Grants middle rest r' → Grants r (g :: rest) r'

variable {r r' r'' : Registry} {grants others : List Grant}

theorem Grants.single {g : Grant} (called : g.entry.call r g.name g.definition = .ok (g.key, r')) :
    Grants r [g] r' :=
  .cons called .nil

theorem Grants.append (first : Grants r grants r') (second : Grants r' others r'') :
    Grants r (grants ++ others) r'' := by
  induction first with
  | nil => exact second
  | cons called _ ih => exact .cons called (ih second)

theorem Grants.later (made : Grants r grants r') : Later r r' := by
  induction made with
  | nil => exact Later.refl _
  | cons called _ ih => exact (Entry.later _ called).trans ih

theorem Grants.sound (made : Grants r grants r') (sound : Sound r) : Sound r' := by
  induction made with
  | nil => exact sound
  | @cons r g middle _ _ called _ ih =>
    apply ih
    have after : (Call.key g.entry g.name g.definition).after r = middle := by
      simp only [Call.after, called]
    rw [← after]
    exact sound_after sound _

theorem Grants.mem_names (made : Grants r grants r') {g : Grant} (member : g ∈ grants) :
    g.key ∈ r'.names := by
  induction made with
  | nil => cases member
  | @cons r first middle rest r' called later ih =>
    rcases List.mem_cons.mp member with rfl | inside
    · have registered : g.key ∈ middle.names := by
        rcases g.entry.call_cases called with ⟨-, rfl, -⟩ | ⟨known, -, -⟩
        · simp [names]
        · exact (Entry.later _ called).names.subset known
      exact later.later.names.subset registered
    · exact ih inside

theorem Grants.get?_eq (made : Grants r grants r') (key : String) :
    r'.get? key = recorded (grants.filter (·.key == key)) (r.get? key) := by
  induction made with
  | nil => rfl
  | @cons r g middle rest _ called _ ih =>
    rw [ih, Entry.get?_call called key]
    by_cases same : key = g.key
    · subst same
      rw [if_pos rfl, List.filter_cons_of_pos (by simp)]
      rfl
    · rw [if_neg same, List.filter_cons_of_neg (by simpa using Ne.symm same)]

/-- A key is optional only if every call that returned it asked for that. -/
theorem Grants.optional_of_mem (made : Grants r grants r') {g : Grant} (member : g ∈ grants)
    {d : KeyDefinition} (found : r'.get? g.key = some d) (optional : d.optional = true) :
    g.definition.optional = true := by
  obtain ⟨first, later, calls⟩ : ∃ first later, grants.filter (·.key == g.key) = first :: later :=
    List.exists_cons_of_ne_nil (List.ne_nil_of_mem (List.mem_filter.mpr ⟨member, by simp⟩))
  have step : recorded (first :: later) (r.get? g.key) =
      recorded later (some (first.entry.define first.definition (r.get? g.key))) := rfl
  rw [made.get?_eq, calls, step, recorded_some] at found
  cases found
  obtain ⟨own, others⟩ := Bool.and_eq_true_iff.mp optional
  have held : g ∈ first :: later := calls ▸ List.mem_filter.mpr ⟨member, by simp⟩
  rcases List.mem_cons.mp held with rfl | inside
  · cases old : r.get? g.key <;> rw [old] at own
    · exact own
    · exact (Bool.and_eq_true_iff.mp own).2
  · exact List.all_eq_true.mp others g inside

def markersOf (key : String) (grants : List Grant) : List Grant :=
  grants.filter fun g => g.entry == .registerMarker && g.key == key

theorem filter_markers (key : String) (grants : List Grant) :
    (grants.filter (·.key == key)).filter (·.entry == .registerMarker) = markersOf key grants :=
  List.filter_filter ..

/-- The type that the calls of a run leave a key with: what the last marker asked for that has the key,
or else the first call that returned it. -/
def settledType (key : String) (grants : List Grant) : Option KeyType :=
  ((markersOf key grants).getLast?.or (grants.find? (·.key == key))).map (·.definition.type)

/-- A key that was known before keeps its type, unless a marker has it. -/
theorem Grants.type_of_known (made : Grants r grants r') {key : String} {old : KeyDefinition}
    (known : r.get? key = some old) :
    (r'.get? key).map (·.type) =
      some (((markersOf key grants).getLast?.map (·.definition.type)).getD old.type) := by
  rw [made.get?_eq, known, recorded_some, filter_markers]
  rfl

/-- The calls that returned a key new to the registry settle its type. -/
theorem Grants.type_of_new (made : Grants r grants r') {key : String} (fresh : r.get? key = none) :
    (r'.get? key).map (·.type) = settledType key grants := by
  rw [made.get?_eq, fresh, settledType, ← filter_markers, ← List.head?_filter]
  cases grants.filter (·.key == key) with
  | nil => rfl
  | cons first later =>
    have step : recorded (first :: later) none = recorded later (some first.definition) := rfl
    rw [step, recorded_some]
    by_cases marker : first.entry = .registerMarker
    · rw [List.filter_cons_of_pos (by simp [marker]), List.getLast?_cons]
      cases (later.filter (·.entry == .registerMarker)).getLast? <;> simp
    · rw [List.filter_cons_of_neg (by simp [marker])]
      cases (later.filter (·.entry == .registerMarker)).getLast? <;> simp

/-- A key is declared as what was asked for, if every call for it asked for the same. -/
theorem settledType_of_all {key : String} {type : KeyType}
    (all : ∀ g ∈ grants, g.key = key → g.definition.type = type) {g : Grant} (member : g ∈ grants)
    (own : g.key = key) : settledType key grants = some type := by
  unfold settledType
  cases last : (markersOf key grants).getLast? with
  | some marker =>
    obtain ⟨inside, taken⟩ := List.mem_filter.mp (List.mem_of_getLast? last)
    have same : marker.key = key := by simpa using (Bool.and_eq_true_iff.mp taken).2
    simp [all marker inside same]
  | none =>
    cases first : grants.find? (·.key == key) with
    | some other =>
      have same : other.key = key := by simpa using List.find?_some first
      simp [all other (List.mem_of_find?_eq_some first) same]
    | none =>
      have absent := List.find?_eq_none.mp first g member
      simp [own] at absent

/-- What a marker asked for: its name and its type. -/
def Grant.request? (g : Grant) : Option (String × KeyType) :=
  if g.entry = .registerMarker then some (Text.trim g.name, g.definition.type) else none

/-- The type that the last marker of a name asks for. -/
def askedType (name : String) (requests : List (String × KeyType)) : Option KeyType :=
  ((requests.filter (·.1 == name)).getLast?).map (·.2)

theorem askedType_cons (key : String) (g : Grant) (rest : List Grant) :
    askedType key ((g :: rest).filterMap Grant.request?) =
      (askedType key (rest.filterMap Grant.request?)).or
        (if g.entry = .registerMarker ∧ Text.trim g.name = key then some g.definition.type else none) := by
  by_cases marker : g.entry = .registerMarker
  · have asks : g.request? = some (Text.trim g.name, g.definition.type) := by
      simp [Grant.request?, marker]
    rw [List.filterMap_cons_some asks]
    by_cases same : Text.trim g.name = key
    · rw [askedType, List.filter_cons_of_pos (by simp [same]), List.getLast?_cons]
      cases last : ((rest.filterMap Grant.request?).filter (·.1 == key)).getLast? <;>
        simp [askedType, last, marker, same]
    · rw [askedType, List.filter_cons_of_neg (by simp [same])]
      simp [askedType, same]
  · rw [List.filterMap_cons_none (by simp [Grant.request?, marker])]
    simp [marker]

/-- A key that is known is only shared from then on, unless its name is reserved and a marker asks for
it. -/
theorem Grants.share_of_known (made : Grants r grants r') {key : String} (known : key ∈ r.names)
    (unasked : key ∉ r.reserved ∨ askedType key (grants.filterMap Grant.request?) = none) :
    ∀ g ∈ grants, g.key = key → g.entry = .share := by
  induction made with
  | nil => simp
  | @cons r first middle rest _ called _ ih =>
    have kept := Entry.later _ called
    rw [askedType_cons, Option.or_eq_none_iff] at unasked
    intro g member same
    rcases List.mem_cons.mp member with rfl | inside
    · subst same
      rcases g.entry.call_cases called with ⟨free, -⟩ | ⟨-, -, share | ⟨marker, reserved, own⟩⟩
      · exact absurd known free
      · exact share
      · rcases unasked with unreserved | ⟨-, silent⟩
        · exact absurd reserved unreserved
        · rw [if_pos ⟨marker, own.symm⟩] at silent
          cases silent
    · exact ih (kept.names.subset known) (unasked.imp (kept.reserved ▸ ·) (·.1)) g inside same

theorem markersOf_eq_nil {key : String} (shared : ∀ g ∈ grants, g.key = key → g.entry = .share) :
    markersOf key grants = [] := by
  refine List.filter_eq_nil_iff.mpr fun g member => ?_
  by_cases same : g.key = key
  · simp [shared g member same]
  · simp [same]

/-- A key that was given, not shared, has the type that was asked for with it, unless its name is reserved
and a marker asks for it. -/
theorem Grants.type_of_unasked (made : Grants r grants r') {g : Grant} (member : g ∈ grants)
    (given : g.entry ≠ .share)
    (unasked : g.key ∉ r.reserved ∨ askedType g.key (grants.filterMap Grant.request?) = none) :
    (r'.get? g.key).map (·.type) = some g.definition.type := by
  induction made with
  | nil => cases member
  | @cons r first middle rest _ called later ih =>
    have kept := Entry.later _ called
    rw [askedType_cons, Option.or_eq_none_iff] at unasked
    have afterwards := unasked.imp (kept.reserved ▸ ·) (·.1)
    rcases List.mem_cons.mp member with rfl | inside
    · rcases g.entry.call_cases called with ⟨free, rfl, -⟩ | ⟨-, -, share | ⟨marker, reserved, own⟩⟩
      · have defined := Entry.get?_call called g.key
        rw [if_pos rfl, (get?_eq_none_iff _ _).mpr free] at defined
        have known : g.key ∈ ({ r with keys := r.keys ++ [(g.key, g.definition)] } : Registry).names := by
          simp [names]
        rw [later.type_of_known defined, markersOf_eq_nil (later.share_of_known known afterwards)]
        rfl
      · exact absurd share given
      · rcases unasked with unreserved | ⟨-, silent⟩
        · exact absurd reserved unreserved
        · rw [if_pos ⟨marker, own.symm⟩] at silent
          cases silent
    · exact ih inside afterwards

theorem Grants.type_of_asked (made : Grants r grants r') {key : String} {type : KeyType}
    (reserved : key ∈ r.reserved) (asked : askedType key (grants.filterMap Grant.request?) = some type) :
    (r'.get? key).map (·.type) = some type := by
  induction made with
  | nil => simp [askedType] at asked
  | @cons r g middle rest _ called later ih =>
    have kept := Entry.later _ called
    rw [askedType_cons] at asked
    cases last : askedType key (rest.filterMap Grant.request?) with
    | some other =>
      rw [last] at asked
      exact ih (kept.reserved ▸ reserved) (last.trans asked)
    | none =>
      -- No marker after this one asks for the key, so it is only shared from now on.
      rw [last, Option.none_or] at asked
      split at asked
      · rename_i own
        obtain ⟨marker, rfl⟩ := own
        cases asked
        have same : g.key = Text.trim g.name := by
          rcases g.entry.call_cases called with ⟨-, -, named⟩ | ⟨-, -, share | ⟨-, -, named⟩⟩
          · exact named marker reserved
          · rw [marker] at share
            cases share
          · exact named
        have known : g.key ∈ middle.names := (Grants.single called).mem_names (List.mem_singleton_self g)
        have defined := Entry.get?_call called g.key
        rw [if_pos rfl] at defined
        rw [← same] at last ⊢
        rw [later.type_of_known defined, markersOf_eq_nil (later.share_of_known known (Or.inr last))]
        cases r.get? g.key <;> simp [Entry.define, marker]
      · cases asked

end Stencil.Registry
