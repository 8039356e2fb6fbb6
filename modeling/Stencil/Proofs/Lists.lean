import Mathlib.Data.List.Infix
import Mathlib.Data.List.TakeWhile

/-! Lists that are cut where a test first fails, and lists whose members are all asked for an answer. -/
namespace Stencil

variable {α β : Type} {p : α → Bool} {f : α → Option β}

section Cut

theorem not_of_dropWhile {l r : List α} {x : α} (h : l.dropWhile p = x :: r) : p x = false := by
  have stop := List.head?_dropWhile_not p l
  rwa [h] at stop

theorem takeWhile_take (p : α → Bool) (n : Nat) (s : List α) :
    (s.take n).takeWhile p = (s.takeWhile p).take n := by
  induction s generalizing n with
  | nil => simp
  | cons c s ih =>
    cases n with
    | zero => simp
    | succ n => by_cases hc : p c = true <;> simp [hc, ih]

theorem takeWhile_append_of_head {t : List α} (stop : ∀ c ∈ t.head?, p c = false) (s : List α) :
    (s ++ t).takeWhile p = s.takeWhile p ∧ (s ++ t).dropWhile p = s.dropWhile p ++ t := by
  induction s with
  | nil =>
    cases t with
    | nil => exact ⟨rfl, rfl⟩
    | cons c t => simp [stop c rfl]
  | cons c s ih =>
    by_cases passes : p c = true
    · simp [passes, ih]
    · simp [passes]

theorem takeWhile_append_stop {s t : List α} (inside : ∀ c ∈ s, p c = true)
    (stops : ∀ c ∈ t.head?, p c = false) : (s ++ t).takeWhile p = s ∧ (s ++ t).dropWhile p = t := by
  obtain ⟨taken, left⟩ := takeWhile_append_of_head stops s
  rw [taken, left, List.takeWhile_eq_self_iff.mpr inside, List.dropWhile_eq_nil_iff.mpr inside]
  exact ⟨rfl, rfl⟩

theorem append_cons_cancel {c : α} {x y s t : List α} (left : c ∉ x) (right : c ∉ y)
    (same : x ++ c :: s = y ++ c :: t) : x = y ∧ s = t := by
  induction x generalizing y with
  | nil =>
    cases y with
    | nil => exact ⟨rfl, (List.cons.inj same).2⟩
    | cons b y => exact absurd (List.cons.inj same).1 (fun equal => right (equal ▸ List.mem_cons_self ..))
  | cons a x ih =>
    cases y with
    | nil => exact absurd (List.cons.inj same).1 (fun equal => left (equal ▸ List.mem_cons_self ..))
    | cons b y =>
      obtain ⟨head, tail⟩ := List.cons.inj same
      obtain ⟨rest, after⟩ := ih (fun m => left (List.mem_cons_of_mem _ m))
        (fun m => right (List.mem_cons_of_mem _ m)) tail
      exact ⟨by rw [head, rest], after⟩

/-- A front that starts in a list and is not part of it ends in what follows the list. -/
theorem exists_of_prefix_append {front s rest : List α} (starts : front <+: s ++ rest)
    (absent : ¬front <:+: s) : ∃ tail, front = s ++ tail ∧ tail ≠ [] ∧ tail <+: rest := by
  rcases List.prefix_or_prefix_of_prefix starts (List.prefix_append s rest) with inside | ⟨tail, whole⟩
  · exact absurd inside.isInfix absent
  · subst whole
    refine ⟨tail, rfl, ?_, (List.prefix_append_right_inj s).mp starts⟩
    rintro rfl
    exact absent (by simp)

end Cut

theorem nodup_eraseDups [BEq α] [LawfulBEq α] : (xs : List α) → xs.eraseDups.Nodup
  | [] => by simp
  | x :: rest => by
    rw [List.eraseDups_cons, List.nodup_cons]
    refine ⟨?_, nodup_eraseDups _⟩
    simp [List.mem_eraseDups]
termination_by xs => xs.length
decreasing_by exact Nat.lt_succ_of_le (List.length_filter_le ..)

/-- Nothing is lost by leaving out what gives nothing. -/
theorem filterMap_filter_of_none (none : ∀ x, p x = false → f x = none) (items : List α) :
    (items.filter p).filterMap f = items.filterMap f := by
  rw [List.filterMap_filter]
  apply List.filterMap_congr
  intro x _
  cases keep : p x with
  | true => rfl
  | false => exact (none x keep).symm

section Answers

variable {x : α} {xs : List α} {ys : List β}

theorem mapM_cons_eq_some (done : (x :: xs).mapM f = some ys) :
    ∃ first others, f x = some first ∧ xs.mapM f = some others ∧ ys = first :: others := by
  rw [List.mapM_cons] at done
  obtain ⟨first, here, done⟩ := Option.bind_eq_some_iff.mp done
  obtain ⟨others, later, done⟩ := Option.bind_eq_some_iff.mp done
  exact ⟨first, others, here, later, (Option.some.inj done).symm⟩

theorem mapM_eq_filterMap (all : ∀ x ∈ xs, ∃ y, f x = some y) : xs.mapM f = some (xs.filterMap f) := by
  induction xs with
  | nil => rfl
  | cons x rest ih =>
    obtain ⟨y, first⟩ := all x (List.mem_cons_self ..)
    rw [List.mapM_cons, first, ih fun z later => all z (List.mem_cons_of_mem x later)]
    simp [first]

theorem isSome_mapM : (xs.mapM f).isSome = true ↔ ∀ x ∈ xs, ∃ y, f x = some y := by
  constructor
  · intro some
    induction xs with
    | nil => simp
    | cons x rest ih =>
      obtain ⟨ys, done⟩ := Option.isSome_iff_exists.mp some
      obtain ⟨first, others, here, later, -⟩ := mapM_cons_eq_some done
      exact List.forall_mem_cons.mpr ⟨⟨first, here⟩, ih (Option.isSome_of_eq_some later)⟩
  · intro all
    rw [mapM_eq_filterMap all]
    rfl

theorem exists_of_mem_mapM (done : xs.mapM f = some ys) : ∀ y ∈ ys, ∃ x, f x = some y := by
  induction xs generalizing ys with
  | nil =>
    cases done
    simp
  | cons x rest ih =>
    obtain ⟨first, others, here, later, rfl⟩ := mapM_cons_eq_some done
    exact List.forall_mem_cons.mpr ⟨⟨x, here⟩, ih later⟩

end Answers

end Stencil
