import Stencil.Component.Draft
import Stencil.Proofs.Lists

/-! The keys that the parts of a component read: the expressions of attributes, and the rules of styled
elements. None reads a key that is not bound in the attributes it was made from. -/
namespace Stencil.Component

namespace Expr

mutual

def keys : Expr → List String
  | .key name => [name]
  | .option name => [name]
  | .literal _ => []
  | .undefined => []
  | .isDefined e => e.keys
  | .any operands => keysOf operands
  | .choose test ifTrue ifFalse => test.keys ++ ifTrue.keys ++ ifFalse.keys
  | .append a b => a.keys ++ b.keys
  | .template _ substitutions => keysOf substitutions
  | .trimStart e => e.keys

/-- The keys that expressions read. -/
def keysOf : List Expr → List String
  | [] => []
  | e :: rest => e.keys ++ keysOf rest

end

theorem keysOf_subset {keys : List String} {es : List Expr} (all : ∀ e ∈ es, e.keys ⊆ keys) :
    keysOf es ⊆ keys := by
  induction es with
  | nil => simp [keysOf]
  | cons e rest ih =>
    rw [keysOf]
    refine List.append_subset.mpr ⟨all e (List.mem_cons_self ..), ih fun other member => ?_⟩
    exact all other (List.mem_cons_of_mem e member)

end Expr

theorem keys_isSet (b : Binding) : (isSet b).keys = [b.key] := by
  unfold isSet
  split <;> simp [Expr.keys]

theorem keys_soleValue (a : Attribute) (b : Binding) : (soleValue a b).keys = [b.key] := by
  unfold soleValue
  split
  · split <;> simp [Expr.keys]
  · simp [Expr.keys]
  · simp [Expr.keys]

theorem keys_addition (a : Attribute) (lead : String) (b : Binding) :
    (addition a lead b).keys ⊆ [b.key] := by
  unfold addition
  split <;> simp [Expr.keys]

theorem keys_additions (a : Attribute) (bindings : List Binding) :
    Expr.keysOf (additions a bindings) ⊆ bindings.map (·.key) := by
  cases bindings with
  | nil => simp [additions, Expr.keysOf]
  | cons first rest =>
    apply Expr.keysOf_subset
    intro e member
    rcases List.mem_cons.mp member with rfl | later
    · exact List.Subset.trans (keys_addition a _ first) (by simp)
    · obtain ⟨b, inside, rfl⟩ := List.mem_map.mp later
      refine List.Subset.trans (keys_addition a " " b) ?_
      simpa using Or.inr ⟨b, inside, rfl⟩

theorem keys_boundText (a : Attribute) : (boundText a).keys ⊆ a.bindings.map (·.key) := by
  unfold boundText
  dsimp only
  split <;> simpa [Expr.keys] using keys_additions a a.bindings

/-- The value of an attribute reads no key but those of its bindings. -/
theorem keys_boundValue (a : Attribute) : (boundValue a).keys ⊆ a.bindings.map (·.key) := by
  have tests : Expr.keysOf (a.bindings.map isSet) ⊆ a.bindings.map (·.key) := by
    apply Expr.keysOf_subset
    intro e member
    obtain ⟨b, inside, rfl⟩ := List.mem_map.mp member
    rw [keys_isSet]
    simpa using ⟨b, inside, rfl⟩
  unfold boundValue
  split
  · rename_i b only _
    rw [keys_soleValue, only]
    exact List.Subset.refl _
  · split
    · simpa [Expr.keys, List.append_subset] using ⟨tests, keys_boundText a⟩
    · exact keys_boundText a

/-- The keys that an element of the markup reads for an attribute. What holds a key itself reads the name
that the keys of its bindings make up, which is a key if there is one binding. -/
def attributeReads (a : Attribute) : List String :=
  if isHandler a.name then
    if a.isStatic then [] else [Text.concat (a.bindings.map (·.key))]
  else if a.name == "style" || a.isStatic then []
  else (boundValue a).keys

theorem attributeReads_subset {a : Attribute} (sole : isHandler a.name = true → a.bindings.length ≤ 1) :
    attributeReads a ⊆ a.bindings.map (·.key) := by
  unfold attributeReads
  split
  · rename_i handler
    split
    · simp
    · rename_i bound
      have few := sole handler
      cases bindings : a.bindings with
      | nil => simp [Attribute.isStatic, bindings] at bound
      | cons b rest =>
        cases rest with
        | nil => simp [Text.concat]
        | cons c more =>
          rw [bindings] at few
          simp at few
  · split
    · simp
    · exact keys_boundValue a

section

variable {token : String} {classes : List String} {attr : Option Attribute} {terms : List Term}

/-- The keys that a class attribute binds. -/
def boundBy (attr : Option Attribute) : List String := (attr.elim [] (·.bindings)).map (·.key)

theorem key_of_termFor? {b : Binding} {term : Term} (found : termFor? token b = some term) :
    term.key = b.key := by
  unfold termFor? at found
  split at found
  · split at found
    · cases found
      rfl
    · cases found
  · obtain ⟨c, -, rfl⟩ := Option.map_eq_some_iff.mp found
    rfl
  · cases found

theorem key_mem_of_terms? (known : terms? classes attr = some terms) :
    ∀ t ∈ terms, t.key ∈ boundBy attr := by
  cases attr with
  | none =>
    cases known
    simp
  | some a =>
    obtain ⟨all, each, rfl⟩ := Option.map_eq_some_iff.mp known
    intro t member
    obtain ⟨token, found⟩ := exists_of_mem_mapM each t (List.mem_eraseDups.mp member)
    obtain ⟨b, inside, term⟩ := List.exists_of_findSome?_eq_some found
    rw [key_of_termFor? term]
    exact List.mem_map.mpr ⟨b, inside, rfl⟩

/-- The conditions of the group read these keys only. -/
def Group.Reads (keys : List String) (g : Group) : Prop := ∀ t ∈ g.conditions.flatten, t.key ∈ keys

/-- What holds of a new group and is kept when a selector joins it holds of every group. -/
theorem Group.forall_add {P : Group → Prop} {groups : List Group} (nest : String) (all : ∀ g ∈ groups, P g)
    (new : P ⟨nest, [terms]⟩) (joined : ∀ g, P g → P { g with conditions := g.conditions ++ [terms] }) :
    ∀ g ∈ add groups nest terms, P g := by
  induction groups with
  | nil =>
    intro g member
    rcases List.mem_singleton.mp member with rfl
    exact new
  | cons first rest ih =>
    rw [List.forall_mem_cons] at all
    unfold add
    split
    · exact List.forall_mem_cons.mpr ⟨joined first all.1, all.2⟩
    · exact List.forall_mem_cons.mpr ⟨all.1, ih all.2⟩

theorem Group.forall_ofSelectors {P : Group → Prop} (list : String) (attr : Option Attribute)
    (new : ∀ nest classes terms, terms? classes attr = some terms → P ⟨nest, [terms]⟩)
    (joined : ∀ g classes terms, terms? classes attr = some terms → P g →
      P { g with conditions := g.conditions ++ [terms] }) :
    ∀ g ∈ ofSelectors list attr, P g := by
  unfold ofSelectors
  refine List.foldlRecOn (motive := fun groups : List Group => ∀ g ∈ groups, P g) _ _ (by simp) ?_
  intro groups all text _
  dsimp only
  split
  · exact all
  · split
    · exact all
    · rename_i terms known
      exact forall_add _ all (new _ _ _ known) fun g => joined g _ _ known

theorem Group.reads_ofSelectors (list : String) (attr : Option Attribute) :
    ∀ g ∈ ofSelectors list attr, g.Reads (boundBy attr) := by
  refine forall_ofSelectors list attr ?_ ?_
  · intro nest classes terms known
    simpa [Reads] using key_mem_of_terms? known
  · intro g classes terms known reads t member
    rw [List.flatten_append, List.mem_append, List.flatten_singleton] at member
    exact member.elim (reads t) (key_mem_of_terms? known t)

theorem Group.conditions_ne_nil (list : String) (attr : Option Attribute) :
    ∀ g ∈ ofSelectors list attr, g.conditions ≠ [] := by
  refine forall_ofSelectors list attr ?_ ?_ <;> simp

end

namespace Block

theorem conditionalAll_append (first second : List Block) :
    conditionalAll (first ++ second) = conditionalAll first ++ conditionalAll second := by
  induction first with
  | nil => rfl
  | cons b rest ih => simp [conditionalAll, ih]

theorem mem_of_mem_conditionalAll {groups : List Group} {declarations : String} {g : Group}
    (member : g ∈ conditionalAll (groups.map fun g => .group g declarations)) : g ∈ groups := by
  induction groups with
  | nil => simp [conditionalAll] at member
  | cons first rest ih =>
    rw [List.map_cons, conditionalAll] at member
    rcases List.mem_append.mp member with here | later
    · unfold conditional at here
      split at here
      · cases here
      · exact List.mem_singleton.mp here ▸ List.mem_cons_self ..
    · exact List.mem_cons_of_mem first (ih later)

mutual

theorem reads_ofRule (attr : Option Attribute) : (r : Style.Rule) →
    ∀ g ∈ conditionalAll (ofRule attr r), g.Reads (boundBy attr)
  | .rule selector body => by
    intro g member
    unfold ofRule at member
    split at member
    · simp [conditionalAll] at member
    · exact Group.reads_ofSelectors selector attr g (mem_of_mem_conditionalAll member)
  | .atRule name params body => by
    intro g member
    unfold ofRule at member
    split at member
    · simp [conditionalAll] at member
    · rename_i inner _
      have inside : g ∈ conditionalAll (ofRules attr body) := by
        simpa [conditionalAll, conditional] using member
      exact reads_ofRules attr body g inside
  | .decl _ _ => by simp [ofRule, conditionalAll]

theorem reads_ofRules (attr : Option Attribute) : (rules : List Style.Rule) →
    ∀ g ∈ conditionalAll (ofRules attr rules), g.Reads (boundBy attr)
  | [] => by simp [ofRules, conditionalAll]
  | r :: rest => by
    intro g member
    rw [ofRules, conditionalAll_append] at member
    rcases List.mem_append.mp member with here | later
    · exact reads_ofRule attr r g here
    · exact reads_ofRules attr rest g later

end

end Block

/-- The properties that the rules of an element read are keys of its class attribute. -/
theorem StyledRules.props_subset (rules : List Style.Rule) (attr : Option Attribute) :
    (ofRules rules attr).props ⊆ boundBy attr := by
  intro key member
  obtain ⟨g, inside, known⟩ := List.mem_flatMap.mp (List.mem_eraseDups.mp member)
  obtain ⟨t, condition, rfl⟩ := List.mem_map.mp known
  exact Block.reads_ofRules attr rules g inside t condition

theorem StyledRules.props_nodup (rules : List Style.Rule) (attr : Option Attribute) :
    (ofRules rules attr).props.Nodup := nodup_eraseDups _

end Stencil.Component
