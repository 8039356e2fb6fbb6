import Stencil.Proofs.GuardRollback
import Stencil.Remote.Session

/-! Which changes a guard tries to take back when it ends, over an access that may fail in any way. Letting it
go stops at the first change that fails. Rolling it back stops there as well, but then lets the guard go,
which goes on with what is left, up to the next failure. What comes after that is never tried. -/
namespace Stencil.Markup

namespace Access

variable {σ α : Type}

/-- Tries all changes in turn, whatever comes of each. -/
def applyAll (a : Access σ) : List Undo → σ → List (Except AccessError Unit) × σ
  | [], s => ([], s)
  | undo :: rest, s =>
    ((a.applyUndo undo s).1 :: (applyAll a rest (a.applyUndo undo s).2).1,
      (applyAll a rest (a.applyUndo undo s).2).2)

@[simp] theorem length_applyAll (a : Access σ) (undos : List Undo) (s : σ) :
    (a.applyAll undos s).1.length = undos.length := by
  induction undos generalizing s with
  | nil => rfl
  | cons undo rest ih => simp [applyAll, ih]

theorem applyAll_append (a : Access σ) (first rest : List Undo) (s : σ) :
    a.applyAll (first ++ rest) s =
      ((a.applyAll first s).1 ++ (a.applyAll rest (a.applyAll first s).2).1,
        (a.applyAll rest (a.applyAll first s).2).2) := by
  induction first generalizing s with
  | nil => rfl
  | cons undo first ih => simp [applyAll, ih]

theorem drop_applyAll (a : Access σ) (undos : List Undo) (s : σ) (n : Nat) :
    (a.applyAll undos s).1.drop n =
      (a.applyAll (undos.drop n) (a.applyAll (undos.take n) s).2).1 := by
  induction undos generalizing s n with
  | nil => simp [applyAll]
  | cons undo rest ih =>
    cases n with
    | zero => rfl
    | succ n => exact ih _ n

/-- Runs beside a record of changes, and adds to it. -/
def beside (asked : List Undo) (x : AccessM σ α) : AccessM (σ × List Undo) α := fun s =>
  ((x s.1).1, (x s.1).2, s.2 ++ asked)

/-- The same access, with a record of the changes that were asked for. -/
def recorded (a : Access σ) : Access (σ × List Undo) where
  tagName := beside [] a.tagName
  attributeNames := beside [] a.attributeNames
  attribute? name := beside [] (a.attribute? name)
  pristine? name := beside [] (a.pristine? name)
  setAttribute name value := beside [.restore name value] (a.setAttribute name value)
  removeAttribute name := beside [.remove name] (a.removeAttribute name)
  addClass name := beside [.addClass name] (a.addClass name)
  removeClass name := beside [.removeClass name] (a.removeClass name)

theorem beside_bind (asked : List Undo) (x : AccessM σ α) (s : σ) (record : List Undo) :
    (beside asked x >>= fun _ => pure () : AccessM (σ × List Undo) Unit) (s, record) =
      (((x >>= fun _ => pure ()) s).1, ((x >>= fun _ => pure ()) s).2, record ++ asked) := by
  rw [bind_apply, bind_apply, beside]
  rcases x s with ⟨_ | _, t⟩ <;> rfl

theorem applyUndo_recorded (a : Access σ) (undo : Undo) (s : σ) (record : List Undo) :
    a.recorded.applyUndo undo (s, record) =
      ((a.applyUndo undo s).1, (a.applyUndo undo s).2, record ++ [undo].filter (· != .nothing)) := by
  cases undo with
  | restore name value => exact beside_bind _ (a.setAttribute name value) s record
  | remove name => exact beside_bind _ (a.removeAttribute name) s record
  | addClass name => exact beside_bind _ (a.addClass name) s record
  | removeClass name => exact beside_bind _ (a.removeClass name) s record
  | nothing =>
    have none : [Undo.nothing].filter (· != .nothing) = [] := rfl
    rw [none, List.append_nil]
    rfl

/-- The record shows what was tried, and changes nothing. -/
theorem applyAll_recorded (a : Access σ) (undos : List Undo) (s : σ) (record : List Undo) :
    a.recorded.applyAll undos (s, record) =
      ((a.applyAll undos s).1, (a.applyAll undos s).2, record ++ undos.filter (· != .nothing)) := by
  induction undos generalizing s record with
  | nil => simp [applyAll]
  | cons undo rest ih =>
    have joined : undo :: rest = [undo] ++ rest := rfl
    rw [applyAll, applyUndo_recorded, ih, applyAll, List.append_assoc, ← List.filter_append, joined]

end Access

namespace Scoped

variable {σ : Type}

/-- How many of the changes are tried before more than `spare` of them have failed. -/
def reach : Nat → List (Except AccessError Unit) → Nat
  | _, [] => 0
  | spare, .ok _ :: rest => reach spare rest + 1
  | 0, .error _ :: _ => 1
  | spare + 1, .error _ :: rest => reach spare rest + 1

theorem reach_le (spare : Nat) (results : List (Except AccessError Unit)) :
    reach spare results ≤ results.length := by
  fun_induction reach spare results with
  | case1 => exact Nat.le_refl 0
  | case2 spare _ rest ih => simpa using ih
  | case3 _ rest => simp
  | case4 spare _ rest ih => simpa using ih

/-- A change is tried exactly if no more than `spare` fail before it. -/
theorem lt_reach_iff (spare : Nat) {i : Nat} {results : List (Except AccessError Unit)}
    (inside : i < results.length) :
    i < reach spare results ↔ (results.take i).countP (!·.isOk) ≤ spare := by
  induction results generalizing spare i with
  | nil => simp at inside
  | cons result rest ih =>
    cases i with
    | zero =>
      cases result with
      | ok _ => simp [reach]
      | error _ => cases spare <;> simp [reach]
    | succ i =>
      have later : i < rest.length := by simpa using inside
      cases result with
      | ok _ => simpa [reach, Except.isOk, Except.toBool] using ih spare later
      | error _ =>
        cases spare with
        | zero => simp [reach, Except.isOk, Except.toBool]
        | succ spare => simpa [reach, Except.isOk, Except.toBool] using ih spare later

theorem reach_eq_length_iff (spare : Nat) (results : List (Except AccessError Unit)) :
    reach spare results = results.length ↔ results.dropLast.countP (!·.isOk) ≤ spare := by
  rcases Nat.eq_zero_or_pos results.length with empty | filled
  · rw [List.length_eq_zero_iff.mp empty]
    simp [reach]
  · have last := lt_reach_iff spare (show results.length - 1 < results.length by omega)
    have bound := reach_le spare results
    rw [List.dropLast_eq_take, ← last]
    omega

theorem reach_succ (spare : Nat) (results : List (Except AccessError Unit)) :
    reach (spare + 1) results = reach 0 results + reach spare (results.drop (reach 0 results)) := by
  induction results with
  | nil => simp [reach]
  | cons result rest ih =>
    cases result with
    | ok _ =>
      simp only [reach, List.drop_succ_cons, ih]
      omega
    | error _ =>
      simp only [reach, List.drop_succ_cons, List.drop_zero]
      omega

/-- Taking back stops at the first failure. -/
theorem unwind_state (a : Access σ) (pending : List Undo) (node : σ) :
    (unwind a pending node).2 =
      { node := (a.applyAll (pending.take (reach 0 (a.applyAll pending node).1)) node).2
        pending := pending.drop (reach 0 (a.applyAll pending node).1) } := by
  induction pending generalizing node with
  | nil => rfl
  | cons undo rest ih =>
    rcases tried : a.applyUndo undo node with ⟨reason | _, after⟩
    · simp [unwind, ExceptT.run, reach, Access.applyAll, tried]
    · simp [unwind, ExceptT.run, reach, Access.applyAll, tried, ih after]

theorem node_drop (a : Access σ) (s : Scoped σ) : (s.drop a).2 = (unwind a s.pending s.node).2.node := by
  unfold drop
  rcases unwind a s.pending s.node with ⟨_ | _, t⟩ <;> rfl

inductive Ending where
  | drop
  | rollback
  deriving DecidableEq, Repr

namespace Ending

def leaves (a : Access σ) (s : Scoped σ) : Ending → σ
  | drop => (s.drop a).2
  | rollback => (s.rollback a).2.2

/-- The failures after which the guard goes on. -/
def spare : Ending → Nat
  | drop => 0
  | rollback => 1

theorem leaves_eq (ending : Ending) (a : Access σ) (s : Scoped σ) :
    ending.leaves a s =
      (a.applyAll (s.pending.take (reach ending.spare (a.applyAll s.pending s.node).1)) s.node).2 := by
  have unwound := unwind_state a s.pending s.node
  cases ending with
  | drop =>
    rw [leaves, node_drop, unwound]
    rfl
  | rollback =>
    -- The guard is let go after the first failure, so it goes on behind it.
    have ended : leaves a s rollback = ((unwind a s.pending s.node).2.drop a).2 := rfl
    rw [ended, node_drop, unwind_state, unwound, spare, reach_succ, List.take_add, Access.applyAll_append,
      Access.drop_applyAll]

end Ending

end Scoped

open Scoped (Change Ending)

/-- What the end of a guard tries, over any access: a change is tried exactly if no more of those before it
fail than the guard can spare, which is none if it is let go and one if it is rolled back. What is tried is
tried once, the latest first, and nothing else is done to the node; so all are tried exactly if no more
than that many fail before the last. -/
theorem ending_tries {σ : Type} (ending : Ending) (a : Access σ) (s : Scoped σ) :
    let results := (a.applyAll s.pending s.node).1
    ∃ n ≤ s.pending.length,
      (∀ i < s.pending.length, i < n ↔ (results.take i).countP (!·.isOk) ≤ ending.spare) ∧
      (n = s.pending.length ↔ results.dropLast.countP (!·.isOk) ≤ ending.spare) ∧
      ending.leaves a s = (a.applyAll (s.pending.take n) s.node).2 ∧
      ending.leaves a.recorded ⟨(s.node, []), s.pending⟩ =
        (ending.leaves a s, (s.pending.take n).filter (· != .nothing)) := by
  intro results
  have count : results.length = s.pending.length := a.length_applyAll s.pending s.node
  have same : (a.recorded.applyAll s.pending (s.node, [])).1 = results := by rw [a.applyAll_recorded]
  refine ⟨Scoped.reach ending.spare results, ?_, fun i inside => ?_, ?_, ending.leaves_eq a s, ?_⟩
  · exact count ▸ Scoped.reach_le ending.spare results
  · exact Scoped.lt_reach_iff ending.spare (count ▸ inside)
  · rw [← count]
    exact Scoped.reach_eq_length_iff ending.spare results
  · rw [ending.leaves_eq a.recorded, same, a.applyAll_recorded, List.nil_append, ending.leaves_eq a s]

/-- A transport with its replies given, which keeps the requests. One with no reply left fails. -/
def scripted : Remote.Transport (List (Except AccessError String) × List String) where
  roundTrip payload := fun s => (s.1.headD (.error .protocol), s.1.tail, s.2 ++ [payload])

/-- Two changes through a guard, and one failure when it is let go: the change made first is never taken
back, although its request would have been answered. -/
theorem ending_abandons_change :
    let link := scripted.access "el"
    let request (name value : String) : String := (Remote.Request.setAttribute "el" name value).encode
    let reply (undo : Undo) : Except AccessError String := .ok (Remote.Response.undo undo).encode
    let s := Change.runAll link [.set "title" "new", .set "href" "/"]
      { node := ([reply (.restore "title" "old"), reply (.restore "href" "#"), .error (.transport "timeout"),
          reply .nothing], []) }
    s.pending = [.restore "href" "#", .restore "title" "old"] ∧
      Ending.drop.leaves link s =
        ([reply .nothing], [request "title" "new", request "href" "/", request "href" "#"]) := by
  decide +kernel

end Stencil.Markup
