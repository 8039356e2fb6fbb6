import Stencil.Key.Registry
import Stencil.Proofs.Words

/-! The names a registry hands out. One call looks up a name or adds one behind the names that are there;
over a run of calls the names are exactly those that were returned, each once, and a fresh one is the
first candidate that no earlier call returned. -/
namespace Stencil

namespace FreshName

theorem toString_injective {m n : Nat} (same : toString m = toString n) : m = n := by
  have digits : Nat.toDigits 10 m = Nat.toDigits 10 n := by
    rw [← Nat.toList_repr, ← Nat.toList_repr, ← Nat.toString_eq_repr, ← Nat.toString_eq_repr, same]
  rw [← Nat.ofDigitChars_ten_toDigits (n := m), digits, Nat.ofDigitChars_ten_toDigits]

theorem toString_ne_empty (n : Nat) : toString n ≠ "" := by
  rw [Nat.toString_eq_repr]
  exact Nat.repr_ne_empty

theorem candidate_injective (name : String) {i j : Nat} (same : candidate name i = candidate name j) :
    i = j := by
  cases i with
  | zero =>
    cases j with
    | zero => rfl
    | succ j => exact absurd (String.append_eq_left_iff.mp same.symm) (toString_ne_empty _)
  | succ i =>
    cases j with
    | zero => exact absurd (String.append_eq_left_iff.mp same) (toString_ne_empty _)
    | succ j =>
      have suffix := toString_injective (String.append_right_inj name |>.mp same)
      omega

/-- The search stops at the first free candidate, or behind all that it may try. -/
theorem search_spec (taken : List String) (name : String) (tries k : Nat) :
    ∃ j, search taken name tries k = candidate name j ∧ k ≤ j ∧
      (∀ i, k ≤ i → i < j → candidate name i ∈ taken) ∧
      (candidate name j ∉ taken ∨ j = k + tries) := by
  induction tries generalizing k with
  | zero => exact ⟨k, rfl, Nat.le_refl k, by omega, Or.inr rfl⟩
  | succ tries ih =>
    unfold search
    by_cases here : candidate name k ∈ taken
    · obtain ⟨j, found, bound, before, stop⟩ := ih (k + 1)
      refine ⟨j, by simpa [here] using found, by omega, ?_, ?_⟩
      · intro i low high
        rcases Nat.eq_or_lt_of_le low with rfl | later
        · exact here
        · exact before i later high
      · rcases stop with free | last
        · exact Or.inl free
        · exact Or.inr (by omega)
    · exact ⟨k, by simp [here], Nat.le_refl k, by omega, Or.inl here⟩

/-- The name picked is the first candidate that is free. With as many names taken as there are tries, the
candidates tried cannot all be taken and one more with them. -/
theorem pick_spec (taken : List String) (name : String) :
    ∃ j, pick taken name = candidate name j ∧ candidate name j ∉ taken ∧
      ∀ i, i < j → candidate name i ∈ taken := by
  obtain ⟨j, found, -, before, stop⟩ := search_spec taken name taken.length 0
  refine ⟨j, found, ?_, fun i bound => before i (Nat.zero_le i) bound⟩
  rcases stop with free | last
  · exact free
  · intro member
    have distinct : ((List.range (j + 1)).map (candidate name)).Nodup :=
      List.pairwise_map.mpr (List.nodup_range.imp fun different same =>
        different (candidate_injective name same))
    have all : (List.range (j + 1)).map (candidate name) ⊆ taken := by
      intro tried inside
      obtain ⟨i, range, rfl⟩ := List.mem_map.mp inside
      rcases Nat.eq_or_lt_of_le (Nat.lt_succ_iff.mp (List.mem_range.mp range)) with rfl | earlier
      · exact member
      · exact before i (Nat.zero_le i) earlier
    have count := distinct.length_le_of_subset all
    simp only [List.length_map, List.length_range] at count
    omega

theorem pick_not_mem (taken : List String) (name : String) : pick taken name ∉ taken := by
  obtain ⟨j, picked, free, -⟩ := pick_spec taken name
  exact picked ▸ free

theorem pick_of_not_mem {taken : List String} {name : String} (free : name ∉ taken) :
    pick taken name = name := by
  obtain ⟨j, picked, -, before⟩ := pick_spec taken name
  cases j with
  | zero => exact picked
  | succ j => exact absurd (before 0 (Nat.succ_pos j)) free

theorem isBlank_of_mem_toString {n : Nat} {c : Char} (member : c ∈ (toString n).toList) :
    Text.isBlank c = false := by
  rw [Nat.toString_eq_repr, Nat.toList_repr] at member
  have digit := Nat.isDigit_of_mem_toDigits (by decide) (by decide) member
  have range : 48 ≤ c.toNat ∧ c.toNat ≤ 57 := by
    simpa [Char.isDigit, UInt32.le_iff_toNat_le] using digit
  simp only [Text.isBlank, Bool.or_eq_false_iff, Bool.and_eq_false_iff, decide_eq_false_iff_not,
    beq_eq_false_iff_ne]
  omega

/-- A candidate for a trimmed name is trimmed. -/
theorem trim_candidate {name : String} (nonempty : name ≠ "") (trimmed : Text.trim name = name)
    (k : Nat) : Text.trim (candidate name k) = candidate name k ∧ candidate name k ≠ "" := by
  cases k with
  | zero => exact ⟨trimmed, nonempty⟩
  | succ k =>
    have some : (toString (k + 2)).toList ≠ [] := by simp
    have last := isBlank_of_mem_toString (List.getLast_mem some)
    have first : name.toList ≠ [] := by simpa using nonempty
    have whole : Text.Chars.trim name.toList = name.toList := by
      simpa [Text.trim] using congrArg String.toList trimmed
    have chars := Text.Chars.trim_append_of_trim_eq first whole (toString (k + 2)).toList.dropLast last
    rw [List.dropLast_concat_getLast some, ← String.toList_append] at chars
    refine ⟨?_, ?_⟩
    · rw [candidate, Text.trim, chars, String.ofList_toList]
    · simp [candidate, nonempty]

end FreshName

namespace Registry

/-- What a call does that returns a name: the name is there already, or it is put behind the others. -/
structure Registers (r : Registry) (key : String) (r' : Registry) : Prop where
  reserved : r'.reserved = r.reserved
  names : r'.names = if key ∈ r.names then r.names else r.names ++ [key]

theorem registers_update {r : Registry} {key : String} (known : key ∈ r.names)
    (f : KeyDefinition → KeyDefinition) : Registers r key (r.update key f) := by
  refine ⟨rfl, ?_⟩
  rw [if_pos known]
  simp [update, names, Function.comp_def]

theorem registers_append {r : Registry} {key : String} (free : key ∉ r.names) (d : KeyDefinition) :
    Registers r key { r with keys := r.keys ++ [(key, d)] } := by
  refine ⟨rfl, ?_⟩
  rw [if_neg free]
  simp [names]

theorem checkedName_eq_ok {name : String} (type : KeyType) (nonblank : Text.trim name ≠ "") :
    checkedName name type = .ok (Text.trim name) := by
  simp [checkedName, nonblank]

theorem register_eq_ok {name : String} (r : Registry) (d : KeyDefinition) (nonblank : Text.trim name ≠ "") :
    ∃ r', r.register name d = .ok (FreshName.pick r.names (Text.trim name), r') ∧
      Registers r (FreshName.pick r.names (Text.trim name)) r' := by
  have free := FreshName.pick_not_mem r.names (Text.trim name)
  refine ⟨_, ?_, registers_append free d⟩
  rw [register, checkedName_eq_ok d.type nonblank]
  rfl

/-- A shared key keeps its spelling. -/
theorem share_eq_ok {name : String} (r : Registry) (d : KeyDefinition) (nonblank : Text.trim name ≠ "") :
    ∃ r', r.share name d = .ok (Text.trim name, r') ∧ Registers r (Text.trim name) r' := by
  unfold share
  rw [checkedName_eq_ok d.type nonblank]
  by_cases known : Text.trim name ∈ r.names
  · refine ⟨_, ?_, registers_update known fun old =>
      { old with optional := old.optional && d.optional }⟩
    change (if r.contains (Text.trim name) then _ else _) = _
    rw [if_pos (by simpa [contains] using known)]
    rfl
  · have again : Text.trim (Text.trim name) ≠ "" := by rwa [Text.trim_trim]
    obtain ⟨r', registered, registers⟩ := r.register_eq_ok d again
    rw [Text.trim_trim, FreshName.pick_of_not_mem known] at registered registers
    refine ⟨r', ?_, registers⟩
    change (if r.contains (Text.trim name) then _ else _) = _
    rw [if_neg (by simpa [contains] using known), registered]

/-- So does the key of a marker whose name is reserved; any other is fresh. -/
theorem registerMarker_eq_ok {name : String} (r : Registry) (d : KeyDefinition)
    (nonblank : Text.trim name ≠ "") :
    ∃ key r', r.registerMarker name d = .ok (key, r') ∧ Registers r key r' ∧
      (key = Text.trim name ∨ key = FreshName.pick r.names (Text.trim name)) ∧
      (Text.trim name ∈ r.reserved → key = Text.trim name) := by
  unfold registerMarker
  rw [checkedName_eq_ok d.type nonblank]
  by_cases shared : Text.trim name ∈ r.reserved ∧ Text.trim name ∈ r.names
  · refine ⟨Text.trim name, _, ?_, registers_update shared.2 fun old =>
      { type := d.type, optional := old.optional && d.optional, tag := old.tag.or d.tag },
      Or.inl rfl, fun _ => rfl⟩
    change (if r.reserved.contains (Text.trim name) && r.contains (Text.trim name) then _ else _) = _
    rw [if_pos (by simpa [contains] using shared)]
    rfl
  · have again : Text.trim (Text.trim name) ≠ "" := by rwa [Text.trim_trim]
    obtain ⟨r', registered, registers⟩ := r.register_eq_ok d again
    rw [Text.trim_trim] at registered registers
    refine ⟨_, r', ?_, registers, Or.inr rfl, ?_⟩
    · change (if r.reserved.contains (Text.trim name) && r.contains (Text.trim name) then _ else _) = _
      rw [if_neg (by simpa [contains] using shared), registered]
    · intro bound
      exact FreshName.pick_of_not_mem fun known => shared ⟨bound, known⟩

/-- The ways to come to a key. -/
inductive Entry where
  | register
  | share
  | registerMarker
  deriving DecidableEq, Repr

def Entry.call (entry : Entry) (r : Registry) (name : String) (d : KeyDefinition) :
    Except RegistryError (String × Registry) :=
  match entry with
  | register => r.register name d
  | share => r.share name d
  | registerMarker => r.registerMarker name d

/-- One call on a registry. -/
inductive Call where
  | key (entry : Entry) (name : String) (d : KeyDefinition)
  | reserve (name : String)
  deriving DecidableEq, Repr

/-- The name that a call returns. -/
def Call.answer? (r : Registry) : Call → Option String
  | key entry name d => (entry.call r name d).toOption.map (·.1)
  | reserve _ => none

/-- A call that fails leaves the registry as it was. -/
def Call.after (r : Registry) : Call → Registry
  | key entry name d =>
    match entry.call r name d with
    | .ok (_, r') => r'
    | .error _ => r
  | reserve name => r.reserve name

def run : Registry → List Call → Registry
  | r, [] => r
  | r, call :: rest => run (call.after r) rest

/-- The names that the calls of a run return. -/
def answers : Registry → List Call → List String
  | _, [] => []
  | r, call :: rest => (call.answer? r).toList ++ answers (call.after r) rest

theorem run_append (r : Registry) (first second : List Call) :
    run r (first ++ second) = run (run r first) second := by
  induction first generalizing r with
  | nil => rfl
  | cons call first ih => exact ih (call.after r)

/-- Whatever the way, a name that is not blank leads to one of its candidates. -/
theorem Entry.call_eq_ok (entry : Entry) (r : Registry) {name : String} (d : KeyDefinition)
    (nonblank : Text.trim name ≠ "") :
    ∃ k r', entry.call r name d = .ok (FreshName.candidate (Text.trim name) k, r') ∧
      Registers r (FreshName.candidate (Text.trim name) k) r' := by
  obtain ⟨k, picked, -⟩ := FreshName.pick_spec r.names (Text.trim name)
  cases entry with
  | register =>
    obtain ⟨r', registered, registers⟩ := r.register_eq_ok d nonblank
    rw [picked] at registered registers
    exact ⟨k, r', registered, registers⟩
  | share =>
    obtain ⟨r', shared, registers⟩ := r.share_eq_ok d nonblank
    exact ⟨0, r', shared, registers⟩
  | registerMarker =>
    obtain ⟨key, r', registered, registers, rfl | rfl, -⟩ := r.registerMarker_eq_ok d nonblank
    · exact ⟨0, r', registered, registers⟩
    · rw [picked] at registered registers
      exact ⟨k, r', registered, registers⟩

theorem Entry.call_blank (entry : Entry) (r : Registry) {name : String} (d : KeyDefinition)
    (blank : Text.trim name = "") : entry.call r name d = .error ⟨d.type⟩ := by
  have refused : checkedName name d.type = .error ⟨d.type⟩ := by simp [checkedName, blank]
  cases entry <;>
    simp only [Entry.call, Registry.register, Registry.share, Registry.registerMarker, refused] <;> rfl

theorem reserve_names (r : Registry) (name : String) : (r.reserve name).names = r.names := by
  unfold reserve
  split <;> rfl

/-- A call that returns a name registers it; any other leaves the names as they were. -/
theorem Call.after_spec (r : Registry) (call : Call) :
    (call.answer? r = none ∧ (call.after r).names = r.names) ∨
      ∃ name k, Text.trim name ≠ "" ∧ call.answer? r = some (FreshName.candidate (Text.trim name) k) ∧
        Registers r (FreshName.candidate (Text.trim name) k) (call.after r) := by
  cases call with
  | key entry name d =>
    by_cases blank : Text.trim name = ""
    · left
      simp [Call.answer?, Call.after, entry.call_blank r d blank, Except.toOption]
    · right
      obtain ⟨k, r', called, registers⟩ := entry.call_eq_ok r d blank
      refine ⟨name, k, blank, ?_, ?_⟩
      · simp [Call.answer?, called, Except.toOption]
      · simpa [Call.after, called] using registers
  | reserve name => exact Or.inl ⟨rfl, reserve_names r name⟩

/-- A registry further on: what is reserved is the same, and no name is lost or moved. -/
structure Later (r r' : Registry) : Prop where
  reserved : r'.reserved = r.reserved
  names : r.names <+: r'.names

theorem Later.refl (r : Registry) : Later r r := ⟨rfl, List.prefix_refl _⟩

theorem Later.trans {r r' r'' : Registry} (first : Later r r') (second : Later r' r'') : Later r r'' :=
  ⟨second.reserved.trans first.reserved, first.names.trans second.names⟩

theorem Registers.later {r r' : Registry} {key : String} (registers : Registers r key r') :
    Later r r' := by
  refine ⟨registers.reserved, ?_⟩
  rw [registers.names]
  split
  · exact List.prefix_refl _
  · exact List.prefix_append ..

theorem Registers.mem_names {r r' : Registry} {key : String} (registers : Registers r key r')
    (name : String) : name ∈ r'.names ↔ name ∈ r.names ∨ name = key := by
  rw [registers.names]
  split
  · rename_i known
    exact ⟨Or.inl, fun either => either.elim id fun same => same ▸ known⟩
  · simp

/-- Names that are distinct, trimmed and not empty. -/
structure Sound (r : Registry) : Prop where
  distinct : r.names.Nodup
  trimmed : ∀ name ∈ r.names, Text.trim name = name ∧ name ≠ ""

theorem sound_empty : Sound {} := by
  refine ⟨List.nodup_nil, ?_⟩
  simp [names]

theorem sound_after {r : Registry} (sound : Sound r) (call : Call) : Sound (call.after r) := by
  rcases call.after_spec r with ⟨-, same⟩ | ⟨name, k, nonblank, -, registers⟩
  · exact ⟨same ▸ sound.distinct, same ▸ sound.trimmed⟩
  · refine ⟨?_, ?_⟩
    · rw [registers.names]
      split
      · exact sound.distinct
      · rename_i free
        exact List.nodup_append.mpr ⟨sound.distinct, by simp, by
          intro a member b last same
          exact free (List.mem_singleton.mp last ▸ same ▸ member)⟩
    · intro other member
      rcases (registers.mem_names other).mp member with old | rfl
      · exact sound.trimmed other old
      · exact FreshName.trim_candidate nonblank (Text.trim_trim name) k

theorem sound_run {r : Registry} (sound : Sound r) (calls : List Call) : Sound (run r calls) := by
  induction calls generalizing r with
  | nil => exact sound
  | cons call rest ih => exact ih (sound_after sound call)

theorem prefix_run (r : Registry) (calls : List Call) : r.names <+: (run r calls).names := by
  induction calls generalizing r with
  | nil => exact List.prefix_refl _
  | cons call rest ih =>
    refine List.IsPrefix.trans ?_ (ih (call.after r))
    rcases call.after_spec r with ⟨-, same⟩ | ⟨name, k, -, -, registers⟩
    · simp [same]
    · exact registers.later.names

/-- After a run the names are those that were there and those that its calls returned. -/
theorem mem_run_names (r : Registry) (calls : List Call) (name : String) :
    name ∈ (run r calls).names ↔ name ∈ r.names ∨ name ∈ answers r calls := by
  induction calls generalizing r with
  | nil => simp [run, answers]
  | cons call rest ih =>
    simp only [run, answers, List.mem_append, Option.mem_toList]
    rw [ih]
    rcases call.after_spec r with ⟨silent, same⟩ | ⟨given, k, -, answered, registers⟩
    · simp [silent, same]
    · rw [registers.mem_names, answered, or_assoc]
      simp [eq_comm]

/-- After any run of calls on a new registry: a call for a key fails exactly when its name is blank, and
then nothing changes; registering any other name returns one that no call has returned, the trimmed name
if that is unused and else the trimmed name with the least number from 2 on that is; and the names are
distinct, trimmed and not blank, are those that were returned, and only grow at their end. -/
theorem names_over_runs (calls : List Call) :
    (∀ entry name d,
      ((∃ e, Entry.call entry (run {} calls) name d = .error e) ↔ Text.trim name = "") ∧
        (Text.trim name = "" → (Call.key entry name d).after (run {} calls) = run {} calls)) ∧
    (∀ name d, Text.trim name ≠ "" → ∃ free r, (run {} calls).register name d = .ok (free, r) ∧
      free ∉ answers {} calls ∧
      ((Text.trim name ∉ answers {} calls ∧ free = Text.trim name) ∨
        (Text.trim name ∈ answers {} calls ∧ ∃ n, 2 ≤ n ∧ free = Text.trim name ++ toString n ∧
          ∀ m, 2 ≤ m → m < n → Text.trim name ++ toString m ∈ answers {} calls))) ∧
    (run {} calls).names.Nodup ∧
    (∀ name ∈ (run {} calls).names, Text.trim name = name ∧ name ≠ "") ∧
    (∀ name, name ∈ (run {} calls).names ↔ name ∈ answers {} calls) ∧
    ∀ more, (run {} calls).names <+: (run {} (calls ++ more)).names := by
  have known : ∀ name, name ∈ (run {} calls).names ↔ name ∈ answers {} calls := by
    intro name
    rw [mem_run_names]
    simp [names]
  have sound := sound_run sound_empty calls
  refine ⟨?_, ?_, sound.distinct, sound.trimmed, known, ?_⟩
  · intro entry name d
    by_cases blank : Text.trim name = ""
    · have refused := entry.call_blank (run {} calls) d blank
      exact ⟨⟨fun _ => blank, fun _ => ⟨_, refused⟩⟩, fun _ => by rw [Call.after, refused]⟩
    · obtain ⟨k, r, called, -⟩ := entry.call_eq_ok (run {} calls) d blank
      refine ⟨⟨?_, fun empty => absurd empty blank⟩, fun empty => absurd empty blank⟩
      rintro ⟨e, failed⟩
      rw [called] at failed
      cases failed
  · intro name d nonblank
    obtain ⟨r, registered, -⟩ := (run {} calls).register_eq_ok d nonblank
    obtain ⟨k, picked, free, before⟩ := FreshName.pick_spec (run {} calls).names (Text.trim name)
    rw [picked] at registered
    refine ⟨_, r, registered, fun answered => free ((known _).mpr answered), ?_⟩
    cases k with
    | zero => exact Or.inl ⟨fun answered => free ((known _).mpr answered), rfl⟩
    | succ k =>
      refine Or.inr ⟨(known _).mp (before 0 (Nat.succ_pos k)), k + 2, by omega, rfl, ?_⟩
      intro m low high
      obtain ⟨i, rfl⟩ := Nat.exists_eq_add_of_le' low
      exact (known _).mp (before (i + 1) (by omega))
  · intro more
    rw [run_append]
    exact prefix_run ..

/-- A name whose first suffix was taken by an author gets the next. -/
theorem names_over_runs_suffix_taken :
    let text : KeyDefinition := { type := .string, optional := true, tag := none }
    let calls := [Call.key .register "href2" text, .reserve "href", .key .register " href " text]
    Text.trim "href" ≠ "" ∧ answers {} calls = ["href2", "href"] ∧
      ∃ n r, (run {} calls).register "href" text = .ok ("href" ++ toString n, r) ∧ 2 < n := by
  intro text calls
  have nonblank : Text.trim "href" ≠ "" := by decide
  have answered : answers {} calls = ["href2", "href"] := by decide
  obtain ⟨free, r, registered, fresh, unused | ⟨-, n, low, rfl, -⟩⟩ :=
    (names_over_runs calls).2.1 "href" text nonblank
  · rw [answered] at unused
    exact absurd unused.1 (by decide)
  · refine ⟨nonblank, answered, n, r, registered, Nat.lt_of_le_of_ne low ?_⟩
    rintro rfl
    rw [answered] at fresh
    exact fresh (by decide)

end Registry

end Stencil
