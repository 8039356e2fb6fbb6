import Stencil.Notice

/-! Work that can fail, done in parts: what ended well ended well in each of its parts. -/
namespace Stencil

/-- Work in two parts that ended well ended well in both. -/
theorem bind_eq_ok {ε α β : Type} {x : Except ε α} {f : α → Except ε β} {b : β}
    (done : x >>= f = .ok b) : ∃ a, x = .ok a ∧ f a = .ok b := by
  cases x with
  | error e => cases done
  | ok a => exact ⟨a, rfl, done⟩

theorem ok_of_toOption {ε α : Type} {x : Except ε α} {y : α} (ended : x.toOption = some y) :
    x = .ok y := by
  cases x with
  | error e => cases ended
  | ok z => exact congrArg Except.ok (Option.some.inj ended)

theorem mapError_eq_ok {ε ε' α : Type} {g : ε → ε'} {x : Except ε α} {a : α} (done : x.mapError g = .ok a) :
    x = .ok a := by
  cases x with
  | error e => cases done
  | ok b =>
    cases done
    rfl

theorem map_append_map {ε α : Type} (first second : List α) (x : Except ε (List α)) :
    (x.map (second ++ ·)).map (first ++ ·) = x.map (first ++ second ++ ·) := by
  cases x <;> simp [Except.map]

/-- A computation with a state goes on in the state its first part left, if that part succeeded. -/
theorem bind_apply {ε σ α β : Type} (x : ExceptT ε (StateM σ) α) (f : α → ExceptT ε (StateM σ) β) (s : σ) :
    (x >>= f) s = match x s with
      | (.ok a, t) => f a t
      | (.error e, t) => (.error e, t) := by
  simp only [bind, ExceptT.bind, ExceptT.mk, StateT.bind]
  rcases x s with ⟨_ | _, t⟩ <;> rfl

theorem Reported.bind_eq_ok {ε α β : Type} {x : Reported ε α} {f : α → Reported ε β} {b : β}
    (done : (x >>= f).outcome = .ok b) : ∃ a, x.outcome = .ok a ∧ (f a).outcome = .ok b := by
  change (Reported.bind x f).outcome = .ok b at done
  unfold Reported.bind at done
  split at done
  · cases done
  · rename_i a ended
    exact ⟨a, ended, done⟩

theorem Reported.mapError_eq_ok {ε ε' α : Type} {f : ε → ε'} {x : Reported ε α} {a : α}
    (done : (x.mapError f).outcome = .ok a) : x.outcome = .ok a := by
  unfold Reported.mapError at done
  cases ended : x.outcome with
  | error e =>
    rw [ended] at done
    cases done
  | ok b =>
    rw [ended] at done
    cases done
    rfl

end Stencil
