import Stencil.Proofs.RegistryGrowth

/-! Two accesses that answer alike. An element may be at hand or behind a session, and it may list its
attributes in one order or another; as long as every reading gives the same value, compiling its
attributes gives the same attributes and leaves the same registry. -/
namespace Stencil

/-- Two computations end alike: both fail for one reason, or both succeed with values that belong
together. -/
inductive Ends {ε α β : Type} (Q : α → β → Prop) : Except ε α → Except ε β → Prop where
  | ok {a b} : Q a b → Ends Q (.ok a) (.ok b)
  | error (e) : Ends Q (.error e) (.error e)

theorem Ends.eq {ε α : Type} {x y : Except ε α} (ends : Ends Eq x y) : x = y := by
  rcases ends with same | e
  · rw [same]
  · rfl

/-- From states that belong together the computations end alike, in states that belong together. -/
def Alike {ε σ τ α β : Type} (R : σ → τ → Prop) (Q : α → β → Prop) (x : ExceptT ε (StateM σ) α)
    (y : ExceptT ε (StateM τ) β) : Prop :=
  ∀ s t, R s t → Ends Q (x s).1 (y t).1 ∧ R (x s).2 (y t).2

section Alike

variable {ε σ τ α α' β β' : Type} {R : σ → τ → Prop} {Q : α → β → Prop} {Q' : α' → β' → Prop}

theorem alike_pure {a : α} {b : β} (same : Q a b) :
    Alike R Q (pure a : ExceptT ε (StateM σ) α) (pure b : ExceptT ε (StateM τ) β) := by
  intro s t related
  exact ⟨.ok same, related⟩

theorem alike_throw (e : ε) :
    Alike R Q (throw e : ExceptT ε (StateM σ) α) (throw e : ExceptT ε (StateM τ) β) := by
  intro s t related
  exact ⟨.error e, related⟩

theorem alike_bind {x : ExceptT ε (StateM σ) α} {y : ExceptT ε (StateM τ) β}
    {f : α → ExceptT ε (StateM σ) α'} {g : β → ExceptT ε (StateM τ) β'} (first : Alike R Q x y)
    (rest : ∀ a b, Q a b → Alike R Q' (f a) (g b)) : Alike R Q' (x >>= f) (y >>= g) := by
  intro s t related
  obtain ⟨ended, kept⟩ := first s t related
  rw [bind_apply, bind_apply]
  rcases here : x s with ⟨left, s'⟩
  rcases there : y t with ⟨right, t'⟩
  rw [here, there] at ended kept
  dsimp only at ended kept
  rcases ended with same | e
  · exact rest _ _ same s' t' kept
  · exact ⟨.error e, kept⟩

/-- The same values go into the same continuation. -/
theorem alike_bind_eq {x : ExceptT ε (StateM σ) α} {y : ExceptT ε (StateM τ) α}
    {f : α → ExceptT ε (StateM σ) α'} {g : α → ExceptT ε (StateM τ) β'} (first : Alike R Eq x y)
    (rest : ∀ a, Alike R Q' (f a) (g a)) : Alike R Q' (x >>= f) (y >>= g) := by
  refine alike_bind first ?_
  rintro a b rfl
  exact rest a

end Alike

namespace Markup.Access

variable {σ τ : Type}

/-- Two accesses that read the same values, and list names that belong together. -/
structure Matches (R : σ → τ → Prop) (listed : List String → List String → Prop) (a : Access σ)
    (b : Access τ) : Prop where
  attributeNames : Alike R listed a.attributeNames b.attributeNames
  read : ∀ name, Alike R Eq (a.read name) (b.read name)

end Markup.Access

namespace Attribute

open Markup (Access AccessM)

variable {σ τ α β ε : Type} {R : σ → τ → Prop}

/-- Compilations of elements that belong together, with the same keys and notices so far. -/
structure Paired (R : σ → τ → Prop) (s : Compiling σ) (t : Compiling τ) : Prop where
  node : R s.node t.node
  registry : s.registry = t.registry
  notices : s.notices = t.notices

theorem alike_onNode {Q : α → β → Prop} {x : AccessM σ α} {y : AccessM τ β} (same : Alike R Q x y) :
    Alike (Paired R) Q (onNode x) (onNode y) := by
  intro s t paired
  obtain ⟨ended, kept⟩ := same s.node t.node paired.node
  unfold onNode
  rcases here : x s.node with ⟨left, node⟩
  rcases there : y t.node with ⟨right, node'⟩
  rw [here, there] at ended kept
  dsimp only at ended kept
  rcases ended with values | e
  · exact ⟨.ok values, kept, paired.registry, paired.notices⟩
  · exact ⟨.error _, kept, paired.registry, paired.notices⟩

theorem alike_onRegistry (wrap : ε → AttributeError) (f : Registry → Except ε (α × Registry)) :
    Alike (Paired R) Eq (onRegistry wrap f) (onRegistry wrap f) := by
  intro s t paired
  unfold onRegistry
  rw [paired.registry]
  rcases f t.registry with e | ⟨a, registry⟩
  · exact ⟨.error _, paired⟩
  · exact ⟨.ok rfl, paired.node, rfl, paired.notices⟩

theorem alike_authored {a : Access σ} {b : Access τ} (tag : String)
    (read : ∀ name, Alike R Eq (a.read name) (b.read name)) (names : List String) :
    Alike (Paired R) Eq (authored a tag names) (authored b tag names) := by
  induction names with
  | nil => exact alike_pure rfl
  | cons name rest ih =>
    apply alike_bind_eq (alike_onNode (read name))
    intro raw
    apply alike_bind_eq (alike_onRegistry _ _)
    intro value
    apply alike_bind_eq ih
    intro later
    exact alike_pure rfl

theorem alike_idBindings (a : Attribute) (tag : String) (ids : List String) :
    Alike (Paired R) Eq (idBindings a tag ids) (idBindings a tag ids) := by
  induction ids with
  | nil => exact alike_pure rfl
  | cons id rest ih =>
    have bound := fun binding : String → Binding =>
      alike_bind_eq (R := Paired R)
        (alike_onRegistry .registry (·.share (Text.camelCase id)
          { type := .string, optional := true, tag := some tag })) fun key =>
        alike_bind_eq ih fun later => alike_pure (congrArg (binding key :: ·) (Eq.refl later))
    unfold idBindings
    dsimp only
    split
    · exact alike_bind_eq (alike_throw _) fun _ => bound _
    · exact bound _

theorem alike_bindIds (tag : String) (names : List String) (attributes : List Attribute) :
    Alike (Paired R) Eq (bindIds tag names attributes) (bindIds tag names attributes) := by
  induction names generalizing attributes with
  | nil => exact alike_pure rfl
  | cons name rest ih =>
    unfold bindIds
    split
    · exact ih attributes
    · split
      · exact ih attributes
      · exact alike_bind_eq (alike_idBindings _ tag _) fun bindings => ih _

theorem alike_withDefaults (tag : String) (attributes : List Attribute) :
    Alike (Paired R) Eq (withDefaults tag attributes) (withDefaults tag attributes) := by
  intro s t paired
  unfold withDefaults
  rw [paired.registry, paired.notices]
  rcases Default.applyAll tag (Default.forTag tag attributes) attributes t.registry with ⟨e | full, registry⟩
  · exact ⟨.error _, paired.node, rfl, rfl⟩
  · exact ⟨.ok rfl, paired.node, rfl, rfl⟩

theorem trans_decide_le (a b c : String) (first : decide (a ≤ b) = true) (second : decide (b ≤ c) = true) :
    decide (a ≤ c) = true := by
  simp only [decide_eq_true_eq] at first second ⊢
  exact String.le_trans first second

theorem total_decide_le (a b : String) : (decide (a ≤ b) || decide (b ≤ a)) = true := by
  simp only [Bool.or_eq_true, decide_eq_true_eq]
  exact String.le_total a b

/-- Names are sorted into one order, in whatever order they come. -/
theorem sortNames_eq_of_perm {names names' : List String} (same : names.Perm names') :
    sortNames names = sortNames names' := by
  have sorted := fun list : List String =>
    List.pairwise_mergeSort trans_decide_le total_decide_le list
  refine List.Perm.eq_of_pairwise ?_ (sorted names) (sorted names') ?_
  · intro a b _ _ below above
    exact String.le_antisymm (of_decide_eq_true below) (of_decide_eq_true above)
  · exact ((List.mergeSort_perm names _).trans same).trans (List.mergeSort_perm names' _).symm

/-- Accesses that match, up to the order of the names, give the same attributes. -/
theorem alike_compileAll {listed : List String → List String → Prop} {a : Access σ} {b : Access τ}
    (tag : String) (matching : Access.Matches R listed a b)
    (permutes : ∀ names names', listed names names' → names.Perm names') :
    Alike (Paired R) Eq (compileAll a tag) (compileAll b tag) := by
  apply alike_bind (alike_onNode matching.attributeNames)
  intro names names' related
  rw [sortNames_eq_of_perm (permutes names names' related)]
  apply alike_bind_eq (alike_authored tag matching.read _)
  intro written
  apply alike_bind_eq (alike_bindIds tag idAttributes written)
  intro bound
  apply alike_bind_eq (alike_withDefaults tag bound)
  intro full
  split
  · exact alike_throw _
  · exact alike_pure rfl

/-- Computations that cannot fail give the same values, in states that belong together. -/
def InStep (R : σ → τ → Prop) (x : StateM σ α) (y : StateM τ α) : Prop :=
  ∀ s t, R s t → (x s).1 = (y t).1 ∧ R (x s).2 (y t).2

theorem inStep_pure (a : α) : InStep R (pure a : StateM σ α) (pure a : StateM τ α) :=
  fun _ _ related => ⟨rfl, related⟩

theorem inStep_bind {x : StateM σ α} {y : StateM τ α} {f : α → StateM σ β} {g : α → StateM τ β}
    (first : InStep R x y) (rest : ∀ a, InStep R (f a) (g a)) : InStep R (x >>= f) (y >>= g) := by
  intro s t related
  obtain ⟨same, kept⟩ := first s t related
  change (f (x s).1 (x s).2).1 = (g (y t).1 (y t).2).1 ∧ R (f (x s).1 (x s).2).2 (g (y t).1 (y t).2).2
  rw [same]
  exact rest _ _ _ kept

theorem inStep_mapM {f : α → StateM σ β} {g : α → StateM τ β} (each : ∀ a, InStep R (f a) (g a))
    (items : List α) : InStep R (items.mapM f) (items.mapM g) := by
  induction items with
  | nil => exact inStep_pure []
  | cons a rest ih =>
    rw [List.mapM_cons, List.mapM_cons]
    exact inStep_bind (each a) fun b => inStep_bind ih fun bs => inStep_pure _

theorem inStep_orElse {x : AccessM σ α} {y : AccessM τ α} (same : Alike R Eq x y) (fallback : α) :
    InStep R (orElse x fallback) (orElse y fallback) := by
  intro s t related
  obtain ⟨ended, kept⟩ := same s t related
  unfold orElse
  rcases here : x s with ⟨left, s'⟩
  rcases there : y t with ⟨right, t'⟩
  rw [here, there] at ended kept
  dsimp only at ended kept
  rcases ended with same | e
  · exact ⟨same, kept⟩
  · exact ⟨rfl, kept⟩

theorem inStep_describe {a : Access σ} {b : Access τ} (matching : Access.Matches R Eq a b) (tag : String) :
    InStep R (describe a tag) (describe b tag) := by
  apply inStep_bind (inStep_orElse matching.attributeNames [])
  intro names
  apply inStep_bind
  · apply inStep_mapM
    intro name
    exact inStep_bind (inStep_orElse (matching.read name) "") fun value => inStep_pure _
  · intro written
    exact inStep_pure _

/-- Accesses that match give the same attributes, or fail with the same message. -/
theorem alike_compile {a : Access σ} {b : Access τ} (matching : Access.Matches R Eq a b)
    (tag template : String) : Alike (Paired R) Eq (compile a tag template) (compile b tag template) := by
  intro s t paired
  have all := alike_compileAll (Text.toLowerAscii tag) matching fun _ _ same => same ▸ .refl _
  obtain ⟨ended, kept⟩ := all s t paired
  unfold compile
  rcases here : compileAll a (Text.toLowerAscii tag) s with ⟨left, s'⟩
  rcases there : compileAll b (Text.toLowerAscii tag) t with ⟨right, t'⟩
  rw [here, there] at ended kept
  dsimp only at ended kept
  rcases ended with same | reason
  · exact ⟨.ok same, kept⟩
  · obtain ⟨snippet, node⟩ := inStep_describe matching tag s'.node t'.node kept.node
    rcases shown : describe a tag s'.node with ⟨text, node'⟩
    rcases shown' : describe b tag t'.node with ⟨text', node''⟩
    rw [shown, shown'] at snippet node
    dsimp only at snippet node ⊢
    rw [shown, shown', snippet]
    exact ⟨.error _, node, kept.registry, kept.notices⟩

end Attribute

end Stencil
