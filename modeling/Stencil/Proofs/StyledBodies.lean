import Stencil.Proofs.ComponentKeys
import Stencil.Proofs.NarrowedRules

/-! The body of a styled component and the properties that are listed for it. A body is a text made of the
rules of the sheet: the declarations of a rule stand in it as they are or under a condition, nested as its
selectors ask, and at-rules hold what is made of the rules inside. The properties are the keys of the
conditions that the text holds, so a rule that leaves nothing in the text adds none. -/
namespace Stencil

namespace Component

open Style (Rule)

namespace Group

/-- Declarations that apply under the conditions of the group only. -/
def guarded (g : Group) (declarations : String) : String :=
  "$\x7b(props) => (" ++ writeConditions g.conditions ++ ") && css`\n" ++ indent declarations ++ "\n`\x7d"

/-- A block under what the selectors of the group ask for besides classes. -/
def nested (g : Group) (block : String) : String :=
  if g.nest.isEmpty then block else "&" ++ g.nest ++ " \x7b\n" ++ indent block ++ "\n\x7d"

theorem isUnconditional_iff (g : Group) : g.isUnconditional = true ↔ [] ∈ g.conditions := by
  simp [isUnconditional]

end Group

variable {attr : Option Attribute} {sheet : List Rule}

/-- Texts made of the rules of a sheet, with the groups whose declarations they hold under a condition. -/
inductive Body (attr : Option Attribute) (sheet : List Rule) : String → List Group → Prop
  | empty : Body attr sheet "" []
  | plain {selector : String} {body : List Rule} {g : Group} :
      (Rule.rule selector body).StandsIn sheet → Block.declarations body ≠ "" →
      g ∈ Group.ofSelectors selector attr → [] ∈ g.conditions →
      Body attr sheet (g.nested (Block.declarations body)) []
  | conditional {selector : String} {body : List Rule} {g : Group} :
      (Rule.rule selector body).StandsIn sheet → Block.declarations body ≠ "" →
      g ∈ Group.ofSelectors selector attr → [] ∉ g.conditions →
      Body attr sheet (g.nested (g.guarded (Block.declarations body))) [g]
  | atRule {name params text : String} {body : List Rule} {groups : List Group} :
      (Rule.atRule name params body).StandsIn sheet → Body attr sheet text groups →
      Body attr sheet ("@" ++ name ++ " " ++ params ++ " \x7b\n" ++ indent text ++ "\n\x7d") groups
  | beside {s t : String} {groups others : List Group} :
      Body attr sheet s groups → Body attr sheet t others →
      Body attr sheet (s ++ "\n" ++ t) (groups ++ others)

namespace Block

theorem writeGroup_eq (g : Group) (declarations : String) :
    writeGroup g declarations =
      g.nested (if g.isUnconditional then declarations else g.guarded declarations) := rfl

/-- The block of one group, as it is written and with the condition it stands under. -/
theorem body_group {selector : String} {body : List Rule} {g : Group}
    (stands : (Rule.rule selector body).StandsIn sheet) (filled : declarations body ≠ "")
    (member : g ∈ Group.ofSelectors selector attr) :
    Body attr sheet (group g (declarations body)).write (group g (declarations body)).conditional := by
  rw [write, conditional, writeGroup_eq]
  by_cases always : g.isUnconditional = true
  · rw [if_pos always, if_pos always]
    exact .plain stands filled member (g.isUnconditional_iff.mp always)
  · rw [if_neg always, if_neg always]
    exact .conditional stands filled member (mt g.isUnconditional_iff.mpr always)

theorem body_join {blocks : List Block} (all : ∀ b ∈ blocks, Body attr sheet b.write b.conditional) :
    Body attr sheet (Text.join "\n" (writeEach blocks)) (conditionalAll blocks) := by
  induction blocks with
  | nil => exact .empty
  | cons b rest ih =>
    rw [List.forall_mem_cons] at all
    cases rest with
    | nil =>
      rw [conditionalAll, conditionalAll, List.append_nil]
      exact all.1
    | cons c rest =>
      rw [writeEach, writeEach, Text.join_cons_cons, conditionalAll]
      exact .beside all.1 (ih all.2)

mutual

theorem body_of_mem_ofRule : (r : Rule) → (∀ other : Rule, other.StandsIn [r] → other.StandsIn sheet) →
    ∀ b ∈ ofRule attr r, Body attr sheet b.write b.conditional
  | .rule selector body, within => by
    intro b member
    rw [ofRule] at member
    split at member
    · cases member
    · rename_i filled
      obtain ⟨g, known, rfl⟩ := List.mem_map.mp member
      exact body_group (within _ (.here [])) (by simpa using filled) known
  | .atRule name params body, within => by
    intro b member
    have inner := body_of_mem_ofRules body fun other deeper => within other (.inside _ _ _ deeper)
    rw [ofRule] at member
    cases made : ofRules attr body with
    | nil =>
      rw [made] at member
      cases member
    | cons first rest =>
      rw [made] at member inner
      rw [List.mem_singleton.mp member, write, conditional]
      exact .atRule (within _ (.here [])) (body_join inner)
  | .decl _ _, _ => by simp [ofRule]

theorem body_of_mem_ofRules : (rules : List Rule) →
    (∀ other : Rule, other.StandsIn rules → other.StandsIn sheet) →
    ∀ b ∈ ofRules attr rules, Body attr sheet b.write b.conditional
  | [], _ => by simp [ofRules]
  | r :: rest, within => by
    intro b member
    rw [ofRules] at member
    rcases List.mem_append.mp member with here | later
    · exact body_of_mem_ofRule r (fun other stands => within other (stands.append rest)) b here
    · exact body_of_mem_ofRules rest (fun other stands => within other (.later r stands)) b later

end

end Block

theorem StyledRules.body_ofRules (rules : List Rule) (attr : Option Attribute) :
    Body attr rules (ofRules rules attr).body (Block.conditionalAll (Block.ofRules attr rules)) :=
  Block.body_join (Block.body_of_mem_ofRules rules fun _ stands => stands)

/-- The groups of a body that stand under a condition have terms in it. -/
theorem Body.exists_term {text : String} {groups : List Group} (made : Body attr sheet text groups) :
    ∀ g ∈ groups, ∃ terms ∈ g.conditions, ∃ t, t ∈ terms := by
  induction made with
  | empty | plain => simp
  | @conditional selector body g _ _ member guarded =>
    intro g' same
    rw [List.mem_singleton.mp same]
    obtain ⟨terms, known⟩ := List.exists_mem_of_ne_nil _ (Group.conditions_ne_nil selector attr g member)
    obtain ⟨t, inside⟩ := List.exists_mem_of_ne_nil terms (ne_of_mem_of_not_mem known guarded)
    exact ⟨terms, known, t, inside⟩
  | atRule _ _ ih => exact ih
  | beside _ _ ih ih' =>
    intro g member
    exact (List.mem_append.mp member).elim (ih g) (ih' g)

theorem StyledRules.mem_props (rules : List Rule) (attr : Option Attribute) (key : String) :
    key ∈ (ofRules rules attr).props ↔ ∃ g ∈ Block.conditionalAll (Block.ofRules attr rules),
      ∃ terms ∈ g.conditions, ∃ t ∈ terms, t.key = key := by
  simp only [ofRules, List.mem_eraseDups, List.mem_flatMap, List.mem_map, List.mem_flatten]
  constructor
  · rintro ⟨g, conditional, t, ⟨terms, known, inside⟩, rfl⟩
    exact ⟨g, conditional, terms, known, t, inside, rfl⟩
  · rintro ⟨g, conditional, terms, known, t, inside, rfl⟩
    exact ⟨g, conditional, t, ⟨terms, known, inside⟩, rfl⟩

/-- The properties of styled rules are those that their body reads. The body is a text made of the sheet, and
a key is listed, once, exactly if a term of it stands in one of the conditions of that text; it is a key
that the class attribute binds. The helper is used exactly if some key is listed, which is exactly if some
declarations of the text stand under a condition. -/
theorem StyledRules.props_read_by_body (rules : List Rule) (attr : Option Attribute) :
    ∃ groups, Body attr rules (ofRules rules attr).body groups ∧
      (ofRules rules attr).props.Nodup ∧
      (∀ key ∈ (ofRules rules attr).props, ∃ a, attr = some a ∧ ∃ b ∈ a.bindings, b.key = key) ∧
      (∀ key, key ∈ (ofRules rules attr).props ↔
        ∃ g ∈ groups, ∃ terms ∈ g.conditions, ∃ t ∈ terms, t.key = key) ∧
      ((ofRules rules attr).usesHelper = true ↔ (ofRules rules attr).props ≠ []) ∧
      ((ofRules rules attr).props ≠ [] ↔ groups ≠ []) := by
  have made := body_ofRules rules attr
  have listed := mem_props rules attr
  have some_listed : (ofRules rules attr).props ≠ [] ↔
      Block.conditionalAll (Block.ofRules attr rules) ≠ [] := by
    constructor
    · intro some
      obtain ⟨key, member⟩ := List.exists_mem_of_ne_nil _ some
      obtain ⟨g, conditional, -⟩ := (listed key).mp member
      exact List.ne_nil_of_mem conditional
    · intro some
      obtain ⟨g, conditional⟩ := List.exists_mem_of_ne_nil _ some
      obtain ⟨terms, known, t, inside⟩ := made.exists_term g conditional
      exact List.ne_nil_of_mem ((listed t.key).mpr ⟨g, conditional, terms, known, t, inside, rfl⟩)
  refine ⟨_, made, props_nodup rules attr, ?_, listed, ?_, some_listed⟩
  · intro key member
    have bound := props_subset rules attr member
    cases attr with
    | none => cases bound
    | some a => exact ⟨a, rfl, List.mem_map.mp bound⟩
  · rw [some_listed]
    simp [ofRules]

end Component

end Stencil
