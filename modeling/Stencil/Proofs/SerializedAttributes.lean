import Mathlib.Data.List.Forall2
import Stencil.Attribute.Basic
import Stencil.Proofs.JsonRoundTrip
import Stencil.Proofs.Lists

/-! Compiled attributes as JSON. An attribute is read back from the value that it is written as, also when
the members of the objects in it come in another order, as in a map that sorts them; and from the text of
that value. -/
namespace Stencil

namespace Json

mutual

/-- The same value, if the order of members does not matter. -/
inductive Similar : Json → Json → Prop where
  | null : Similar .null .null
  | bool (value : Bool) : Similar (.bool value) (.bool value)
  | number (literal : String) : Similar (.number literal) (.number literal)
  | string (value : String) : Similar (.string value) (.string value)
  | array {items items' : List Json} : SimilarItems items items' → Similar (.array items) (.array items')
  | object {members members' : List (String × Json)} :
    SimilarMembers members members' → Similar (.object members) (.object members')

inductive SimilarItems : List Json → List Json → Prop where
  | nil : SimilarItems [] []
  | cons {v v' : Json} {items items' : List Json} :
    Similar v v' → SimilarItems items items' → SimilarItems (v :: items) (v' :: items')

/-- Each member stands somewhere among the others. -/
inductive SimilarMembers : List (String × Json) → List (String × Json) → Prop where
  | nil : SimilarMembers [] []
  | cons {name : String} {v v' : Json} {members before after : List (String × Json)} :
    Similar v v' → SimilarMembers members (before ++ after) →
    SimilarMembers ((name, v) :: members) (before ++ (name, v') :: after)

end

mutual

theorem similar_refl : (v : Json) → v.Similar v
  | .null => .null
  | .bool value => .bool value
  | .number literal => .number literal
  | .string value => .string value
  | .array items => .array (similarItems_refl items)
  | .object members => .object (similarMembers_refl members)

theorem similarItems_refl : (items : List Json) → SimilarItems items items
  | [] => .nil
  | v :: rest => .cons (similar_refl v) (similarItems_refl rest)

theorem similarMembers_refl : (members : List (String × Json)) → SimilarMembers members members
  | [] => .nil
  | (_, v) :: rest => @SimilarMembers.cons _ _ _ _ [] _ (similar_refl v) (similarMembers_refl rest)

end

section Members

variable {members members' : List (String × Json)}

theorem SimilarMembers.eq_nil (similar : SimilarMembers [] members') : members' = [] := by
  cases similar
  rfl

theorem SimilarMembers.eq_singleton {m : String × Json} (similar : SimilarMembers [m] members') :
    ∃ v, members' = [(m.1, v)] ∧ m.2.Similar v := by
  obtain _ | @⟨name, v, v', _, before, after, value, others⟩ := similar
  obtain ⟨rfl, rfl⟩ := List.append_eq_nil_iff.mp others.eq_nil
  exact ⟨v', rfl, value⟩

/-- The members of one name stay together, in whatever order all members come. -/
theorem SimilarMembers.filter (similar : SimilarMembers members members') (p : String → Bool) :
    SimilarMembers (members.filter fun m => p m.1) (members'.filter fun m => p m.1) := by
  induction members generalizing members' with
  | nil =>
    rw [similar.eq_nil]
    exact .nil
  | cons m members ih =>
    obtain _ | @⟨name, v, v', _, before, after, value, others⟩ := similar
    have later := ih others
    rw [List.filter_append] at later
    rw [List.filter_append, List.filter_cons, List.filter_cons]
    dsimp only
    split
    · exact .cons value later
    · exact later

/-- What a name stands for does not depend on the order of members. -/
theorem SimilarMembers.lookup? {name : String} {found : Option Json} (similar : SimilarMembers members members')
    (here : Fields.lookup? members name = some found) :
    ∃ found', Fields.lookup? members' name = some found' ∧ Option.Rel Similar found found' := by
  have kept := similar.filter (· == name)
  unfold Fields.lookup? at here ⊢
  split at here
  · rename_i empty
    cases here
    rw [empty] at kept
    rw [kept.eq_nil]
    exact ⟨none, rfl, .none⟩
  · rename_i m sole
    cases here
    rw [sole] at kept
    obtain ⟨v, sole', value⟩ := kept.eq_singleton
    rw [sole']
    exact ⟨some v, rfl, .some value⟩
  · cases here

/-- The values of fields can be taken from a similar record, and are similar. -/
theorem Similar.take? {v : Json} {values : List (Option Json)} (similar : Similar (.object members) v)
    (names : List String) (taken : (Fields.named members).take? names = some values) :
    ∃ fields values', v.fields? = some fields ∧ fields.take? names = some values' ∧
      List.Forall₂ (Option.Rel Similar) values values' := by
  obtain _ | _ | _ | _ | _ | @⟨_, members', similar⟩ := similar
  change names.mapM (Fields.lookup? members) = some values at taken
  suffices found : ∃ values', names.mapM (Fields.lookup? members') = some values' ∧
      List.Forall₂ (Option.Rel Similar) values values' by
    obtain ⟨values', found, each⟩ := found
    exact ⟨_, values', rfl, found, each⟩
  induction names generalizing values with
  | nil =>
    cases taken
    exact ⟨[], rfl, .nil⟩
  | cons name names ih =>
    obtain ⟨first, rest, here, there, rfl⟩ := mapM_cons_eq_some taken
    obtain ⟨first', here', value⟩ := similar.lookup? here
    obtain ⟨rest', there', values⟩ := ih there
    refine ⟨first' :: rest', ?_, .cons value values⟩
    rw [List.mapM_cons, here', there']
    rfl

/-- A variant with its content. -/
theorem Similar.variant {name : String} {content v : Json} (similar : Similar (.object [(name, content)]) v) :
    ∃ content', v = .object [(name, content')] ∧ content.Similar content' := by
  obtain _ | _ | _ | _ | _ | ⟨members⟩ := similar
  obtain ⟨content', rfl, value⟩ := members.eq_singleton
  exact ⟨content', rfl, value⟩

end Members

/-- Items that are each read back are read back together. -/
theorem SimilarItems.mapM {α : Type} {write : α → Json} {read? : Json → Option α} {xs : List α}
    {items : List Json} (each : ∀ x ∈ xs, ∀ v, (write x).Similar v → read? v = some x)
    (similar : SimilarItems (xs.map write) items) : items.mapM read? = some xs := by
  induction xs generalizing items with
  | nil =>
    cases similar
    rfl
  | cons x xs ih =>
    obtain _ | ⟨value, others⟩ := similar
    rw [List.forall_mem_cons] at each
    rw [List.mapM_cons, each.1 _ value, ih each.2 others]
    rfl

end Json

open Json (Similar)

theorem Choice.ofJson?_similar (c : Choice) (v : Json) (similar : c.toJson.Similar v) :
    Choice.ofJson? v = some c := by
  obtain ⟨fields, values, record, taken, each⟩ := similar.take? ["value", "name"] rfl
  obtain _ | ⟨⟨⟨⟩⟩, _ | ⟨⟨⟨⟩⟩, ⟨⟩⟩⟩ := each
  simp [ofJson?, record, taken]

theorem NamedType.ofName?_name (t : NamedType) : ofName? t.name = some t := by
  cases t <;> rfl

theorem KeyType.ofJson?_similar (t : KeyType) (v : Json) (similar : t.toJson.Similar v) :
    KeyType.ofJson? v = some t := by
  cases t with
  | named t =>
    obtain ⟨content, rfl, ⟨⟩⟩ := similar.variant
    simp [ofJson?, Json.variant?, NamedType.ofJson?, Json.isUnitContent, NamedType.ofName?_name]
  | enumeration options =>
    obtain ⟨content, rfl, value⟩ := similar.variant
    obtain _ | _ | _ | _ | ⟨items⟩ := value
    have read := items.mapM fun c _ => Choice.ofJson?_similar c
    simp [ofJson?, Json.variant?, Json.array?, read]
  | string | boolean | number | function | reference | node =>
    cases similar
    rfl

theorem Binding.ofJson?_similar (b : Binding) (v : Json) (similar : b.toJson.Similar v) :
    Binding.ofJson? v = some b := by
  obtain ⟨key, optional, type, ifTrue⟩ := b
  cases ifTrue with
  | none =>
    obtain ⟨fields, values, record, taken, each⟩ :=
      similar.take? ["key", "optional", "type", "ifTrueValue"] rfl
    obtain _ | ⟨⟨⟨⟩⟩, _ | ⟨⟨⟨⟩⟩, _ | ⟨⟨type'⟩, _ | ⟨⟨⟩, ⟨⟩⟩⟩⟩⟩ := each
    simp [ofJson?, record, taken, KeyType.ofJson?_similar _ _ type']
  | some text =>
    obtain ⟨fields, values, record, taken, each⟩ :=
      similar.take? ["key", "optional", "type", "ifTrueValue"] rfl
    obtain _ | ⟨⟨⟨⟩⟩, _ | ⟨⟨⟨⟩⟩, _ | ⟨⟨type'⟩, _ | ⟨⟨⟨⟩⟩, ⟨⟩⟩⟩⟩⟩ := each
    simp [ofJson?, record, taken, KeyType.ofJson?_similar _ _ type']

theorem Attribute.ofJson?_similar (a : Attribute) (v : Json) (similar : a.toJson.Similar v) :
    Attribute.ofJson? v = some a := by
  obtain ⟨fields, values, record, taken, each⟩ :=
    similar.take? ["key", "value", "dataType", "dynamicKeys", "isOmittedIfEmpty"] rfl
  obtain _ | ⟨⟨⟨⟩⟩, _ | ⟨⟨⟨⟩⟩, _ | ⟨⟨type⟩, _ | ⟨⟨_ | _ | _ | _ | ⟨bindings⟩⟩, _ | ⟨⟨⟨⟩⟩, ⟨⟩⟩⟩⟩⟩⟩ := each
  have read := bindings.mapM fun b _ => Binding.ofJson?_similar b
  simp [ofJson?, record, taken, KeyType.ofJson?_similar _ _ type, read]

theorem KeyType.isWordy_toJson (t : KeyType) : t.toJson.isWordy = true := by
  cases t with
  | enumeration options =>
    simp [toJson, Choice.toJson, Json.isWordy, Json.membersWordy, Json.allWordy_iff]
  | named | string | boolean | number | function | reference | node => rfl

theorem KeyType.depth_toJson_le (t : KeyType) : t.toJson.depth ≤ 3 := by
  cases t with
  | enumeration options =>
    have flat : Json.depthAll (options.map Choice.toJson) ≤ 1 :=
      Json.depthAll_le_iff.mpr (by simp [Choice.toJson, Json.depth, Json.depthMembers])
    simp only [toJson, Json.depth, Json.depthMembers]
    omega
  | named t => simp [toJson, NamedType.toJson, Json.depth, Json.depthMembers]
  | string | boolean | number | function | reference | node => exact Nat.zero_le 3

theorem Binding.isWordy_toJson (b : Binding) : b.toJson.isWordy = true := by
  obtain ⟨key, optional, type, ifTrue⟩ := b
  cases ifTrue <;> simp [toJson, Json.isWordy, Json.membersWordy, type.isWordy_toJson]

theorem Binding.depth_toJson_le (b : Binding) : b.toJson.depth ≤ 4 := by
  obtain ⟨key, optional, type, ifTrue⟩ := b
  have bound := type.depth_toJson_le
  cases ifTrue <;> simp only [toJson, Option.toList, List.map_nil, List.map_cons, List.cons_append,
    List.nil_append, Json.depth, Json.depthMembers] <;> omega

/-- The text of the value is read as the value: it has no numbers and is not nested too deep. -/
theorem Attribute.parse?_compact (a : Attribute) : Json.parse? a.toJson.compact = some a.toJson := by
  apply Json.parse?_compact
  · simp [toJson, Json.isWordy, Json.membersWordy, Json.allWordy_iff, a.type.isWordy_toJson,
      Binding.isWordy_toJson]
  · have bindings : Json.depthAll (a.bindings.map Binding.toJson) ≤ 4 :=
      Json.depthAll_le_iff.mpr (by simp [Binding.depth_toJson_le])
    have type := a.type.depth_toJson_le
    simp only [toJson, Json.depth, Json.depthMembers, Json.maxDepth]
    omega

/-- Types and attributes are read back from the values they are written as, in whatever order the members of
objects come, and attributes from the text of that value. -/
theorem attributes_read_back :
    (∀ t : KeyType, KeyType.ofJson? t.toJson = some t) ∧
      (∀ a : Attribute, Attribute.ofJson? a.toJson = some a) ∧
      (∀ (t : KeyType) (v : Json), t.toJson.Similar v → KeyType.ofJson? v = some t) ∧
      (∀ (a : Attribute) (v : Json), a.toJson.Similar v → Attribute.ofJson? v = some a) ∧
      ∀ a : Attribute, (Json.parse? a.toJson.compact).bind Attribute.ofJson? = some a := by
  refine ⟨fun t => t.ofJson?_similar _ (Json.similar_refl _), fun a => a.ofJson?_similar _ (Json.similar_refl _),
    KeyType.ofJson?_similar, Attribute.ofJson?_similar, fun a => ?_⟩
  rw [a.parse?_compact, Option.bind_some]
  exact a.ofJson?_similar _ (Json.similar_refl _)

/-- An attribute whose members a map has sorted by their names. -/
theorem attributes_read_back_sorted :
    let size : Binding :=
      { key := "size", optional := true, type := .enumeration [⟨"a \"b\"", "large"⟩, ⟨"", "large"⟩] }
    let isOpen : Binding := { key := "isOpen", optional := false, type := .boolean, ifTrue := some "open" }
    let a : Attribute :=
      { name := "class", text := "card", type := .named .ariaCurrent, bindings := [size, isOpen],
        omittedIfEmpty := true }
    let sorted : Json :=
      .object [("dataType", .object [("named", .string "ARIA_CURRENT")]),
        ("dynamicKeys", .array [size.toJson, isOpen.toJson]), ("isOmittedIfEmpty", .bool true),
        ("key", .string "class"), ("value", .string "card")]
    a.toJson.Similar sorted ∧ Attribute.ofJson? sorted = some a := by
  intro size isOpen a sorted
  have similar : a.toJson.Similar sorted :=
    .object (@Json.SimilarMembers.cons _ _ _ _ [_, _, _] [_] (.string _)
      (@Json.SimilarMembers.cons _ _ _ _ [_, _, _] [] (.string _) (Json.similarMembers_refl _)))
  exact ⟨similar, attributes_read_back.2.2.2.1 a sorted similar⟩

end Stencil
