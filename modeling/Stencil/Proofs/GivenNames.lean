import Stencil.Proofs.RegistryNaming

/-! Names given one after the other. A rule says which name is given for each that is asked for, whoever
gives it out: the first candidate that was not given before. It leaves no choice, and both a plain list of
names and a registry that keeps definitions under them follow it. -/
namespace Stencil

namespace FreshName

/-- What is given for the names asked for, one after the other, while those in front are taken. -/
inductive Given : (taken asked given : List String) → Prop where
  | nil (taken : List String) : Given taken [] []
  | cons {taken asked given : List String} {name : String} {k : Nat} :
    candidate name k ∉ taken → (∀ i < k, candidate name i ∈ taken) →
    Given (taken ++ [candidate name k]) asked given → Given taken (name :: asked) (candidate name k :: given)

variable {taken asked given given' : List String}

theorem Given.unique (first : Given taken asked given) (second : Given taken asked given') : given = given' := by
  induction first generalizing given' with
  | nil =>
    cases second
    rfl
  | @cons taken asked given name k free before _ ih =>
    obtain _ | @⟨_, _, given', _, j, free', before', later⟩ := second
    have same : k = j := by
      rcases Nat.lt_trichotomy k j with less | same | more
      · exact absurd (before' k less) free
      · exact same
      · exact absurd (before j more) free'
    subst same
    rw [ih later]

theorem Given.length_eq (names : Given taken asked given) : given.length = asked.length := by
  induction names with
  | nil => rfl
  | cons _ _ _ ih => simp [ih]

theorem Given.nodup (names : Given taken asked given) (distinct : taken.Nodup) : (taken ++ given).Nodup := by
  induction names with
  | nil => simpa using distinct
  | @cons taken asked given name k free _ _ ih =>
    have grown : (taken ++ [candidate name k]).Nodup := List.nodup_append.mpr
      ⟨distinct, by simp, fun a member b last same => free (List.mem_singleton.mp last ▸ same ▸ member)⟩
    simpa using ih grown

theorem given_pick {name : String} (later : Given (taken ++ [pick taken name]) asked given) :
    Given taken (name :: asked) (pick taken name :: given) := by
  obtain ⟨k, picked, free, before⟩ := pick_spec taken name
  rw [picked] at later ⊢
  exact .cons free before later

/-- A list of names follows the rule, and keeps what it gives. -/
theorem given_takeAll (taken asked : List String) :
    Given taken asked (takeAll taken asked).1 ∧ (takeAll taken asked).2 = taken ++ (takeAll taken asked).1 := by
  induction asked generalizing taken with
  | nil => exact ⟨.nil taken, by simp [takeAll]⟩
  | cons name asked ih =>
    obtain ⟨names, kept⟩ := ih (taken ++ [pick taken name])
    refine ⟨given_pick names, ?_⟩
    change (takeAll (taken ++ [pick taken name]) asked).2 = _
    rw [kept, List.append_assoc]
    rfl

end FreshName

namespace Registry

open FreshName (Given given_pick given_takeAll takeAll)

def registrations (asked : List (String × KeyDefinition)) : List Call :=
  asked.map fun (name, d) => .key .register name d

/-- A registry follows the rule as well, and keeps what it gives. -/
theorem given_answers (r : Registry) {asked : List (String × KeyDefinition)}
    (trimmed : ∀ call ∈ asked, Text.trim call.1 = call.1 ∧ call.1 ≠ "") :
    Given r.names (asked.map (·.1)) (answers r (registrations asked)) ∧
      (run r (registrations asked)).names = r.names ++ answers r (registrations asked) := by
  induction asked generalizing r with
  | nil => exact ⟨.nil _, by simp [registrations, run, answers]⟩
  | cons call asked ih =>
    obtain ⟨name, d⟩ := call
    rw [List.forall_mem_cons] at trimmed
    obtain ⟨⟨clean, nonempty⟩, others⟩ := trimmed
    obtain ⟨r', registered, registers⟩ := r.register_eq_ok d (by rwa [clean])
    rw [clean] at registered registers
    have called : Entry.register.call r name d = .ok (FreshName.pick r.names name, r') := registered
    have answered : (Call.key .register name d).answer? r = some (FreshName.pick r.names name) := by
      rw [Call.answer?, called]
      rfl
    have after : (Call.key .register name d).after r = r' := by rw [Call.after, called]
    have grown : r'.names = r.names ++ [FreshName.pick r.names name] := by
      rw [registers.names, if_neg (FreshName.pick_not_mem _ _)]
    obtain ⟨names, kept⟩ := ih r' others
    rw [grown] at names kept
    have all : answers r (registrations ((name, d) :: asked)) =
        FreshName.pick r.names name :: answers r' (registrations asked) := by
      change (Call.answer? r (.key .register name d)).toList ++ _ = _
      rw [answered, after]
      rfl
    refine ⟨?_, ?_⟩
    · rw [all]
      exact given_pick names
    · rw [all]
      change (run ((Call.key .register name d).after r) (registrations asked)).names = _
      rw [after, kept, List.append_assoc]
      rfl

/-- Names that are trimmed and not blank are given alike by a list of names that starts empty and by a new
registry, whatever is registered under them: each is the first candidate that was not given before, and
there always is one. All of them are different, and are what the list and the registry hold in the end. -/
theorem names_given_alike {asked : List (String × KeyDefinition)}
    (trimmed : ∀ call ∈ asked, Text.trim call.1 = call.1 ∧ call.1 ≠ "") :
    let given := (takeAll [] (asked.map (·.1))).1
    answers {} (registrations asked) = given ∧ given.length = asked.length ∧ given.Nodup ∧
      (takeAll [] (asked.map (·.1))).2 = given ∧ (run {} (registrations asked)).names = given ∧
      ∀ names, Given [] (asked.map (·.1)) names ↔ names = given := by
  intro given
  obtain ⟨rule, kept⟩ := given_takeAll [] (asked.map (·.1))
  obtain ⟨rule', kept'⟩ := given_answers {} trimmed
  have same : answers {} (registrations asked) = given := rule'.unique rule
  refine ⟨same, by simpa using rule.length_eq, by simpa using rule.nodup List.nodup_nil, by simpa using kept, ?_, ?_⟩
  · rw [kept', same]
    rfl
  · exact fun names => ⟨fun other => other.unique rule, fun same => same ▸ rule⟩

/-- A suffix that an author took is passed over, and a name that ends in one gets another. -/
theorem names_given_alike_links :
    let text : KeyDefinition := { type := .string, optional := true, tag := some "a" }
    let flag : KeyDefinition := { type := .boolean, optional := false, tag := none }
    let asked := [("href2", text), ("href", text), ("href", flag), ("href2", flag)]
    (∀ call ∈ asked, Text.trim call.1 = call.1 ∧ call.1 ≠ "") ∧
      answers {} (registrations asked) = ["href2", "href", "href3", "href22"] ∧
      (takeAll [] (asked.map (·.1))).2 = ["href2", "href", "href3", "href22"] := by
  intro text flag asked
  have trimmed : ∀ call ∈ asked, Text.trim call.1 = call.1 ∧ call.1 ≠ "" := by decide +kernel
  have listed : (takeAll [] (asked.map (·.1))).1 = ["href2", "href", "href3", "href22"] := by decide +kernel
  obtain ⟨registered, -, -, kept, -⟩ := names_given_alike trimmed
  exact ⟨trimmed, registered.trans listed, kept.trans listed⟩

end Registry

end Stencil
