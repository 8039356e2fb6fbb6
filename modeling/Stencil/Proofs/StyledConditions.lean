import Stencil.Component.Styled
import Stencil.Proofs.CompiledAttributes
import Stencil.Proofs.Entries
import Stencil.Proofs.Lists

/-! What the terms of a selector say about the classes of an element. Each class that is not static is
asked for through the first binding that can add it. The terms therefore never hold without the classes;
they hold whenever the element has the classes exactly if no class has a second, independent source. -/
namespace Stencil.Component

namespace Term

/-- What a term says of the values of the keys: a flag is set, or a choice has this name. -/
def holds (values : Entries String) : Term → Bool
  | truthy key => (values.get? key).isSome
  | equals key name => values.get? key == some name

def covers : Term → Term → Bool
  | truthy key, other => other.key == key
  | equals key name, other => other == equals key name

theorem holds_of_covers {first other : Term} {values : Entries String}
    (covers : first.covers other = true) (holding : other.holds values = true) :
    first.holds values = true := by
  cases first with
  | equals key name =>
    have same : other = equals key name := by simpa [Term.covers] using covers
    rwa [← same]
  | truthy key =>
    have same : other.key = key := by simpa [Term.covers] using covers
    subst same
    cases other with
    | truthy key => exact holding
    | equals key name =>
      have set : values.get? key = some name := by simpa [Term.holds] using holding
      simp [Term.holds, Term.key, set]

@[simp] theorem truthy_holds_singleton (k key value : String) :
    (truthy k).holds [(key, value)] = decide (key = k) := by
  by_cases same : key = k <;> simp [Term.holds, Entries.get?_cons, same]

@[simp] theorem equals_holds_singleton (k name key value : String) :
    (equals k name).holds [(key, value)] = decide (key = k ∧ value = name) := by
  rw [Bool.eq_iff_iff]
  by_cases same : key = k <;> simp [Term.holds, Entries.get?_cons, same]

/-- Terms of which the first does not cover the other come apart at some value of one key; a comparison
holds only at the name it asks for. -/
theorem exists_separating {first other : Term} (apart : first.covers other = false) :
    ∃ value, other.holds [(other.key, value)] = true ∧ first.holds [(other.key, value)] = false ∧
      ∀ key name, other = equals key name → value = name := by
  cases other with
  | equals key name =>
    refine ⟨name, by simp [Term.key], ?_, by simp⟩
    cases first with
    | truthy k => simpa [Term.covers, Term.key] using apart
    | equals k n => simpa [Term.covers, Term.key] using apart
  | truthy key =>
    cases first with
    | truthy k =>
      have different : key ≠ k := by simpa [Term.covers, Term.key] using apart
      exact ⟨"", by simp [Term.key], by simpa [Term.key] using different, by simp⟩
    | equals k n => exact ⟨n ++ "x", by simp [Term.key], by simp [Term.key], by simp⟩

end Term

def addedWords (values : Entries String) (b : Binding) : List String :=
  match b.type, values.get? b.key with
  | _, none => []
  | .boolean, some _ => b.ifTrue.toList.flatMap Text.words
  | .enumeration options, some name =>
    (options.find? (·.name == name)).toList.flatMap fun c => Text.words c.value
  | _, some text => Text.words text

/-- The classes of an element while its keys have these values. -/
def classList (a : Attribute) (values : Entries String) : List String :=
  Text.words a.text ++ a.bindings.flatMap (addedWords values)

/-- Whether a binding makes something of the value: a flag of any, a choice of the names of its options. -/
def takes (b : Binding) (value : String) : Bool :=
  b.isBoolean || ((b.type.options?.getD []).map (·.name)).contains value

/-- Every key that is set has a value that one of its bindings takes. -/
def Assignable (a : Attribute) (values : Entries String) : Prop :=
  ∀ b ∈ a.bindings, ∀ value ∈ values.get? b.key,
    ∃ other ∈ a.bindings, other.key = b.key ∧ takes other value = true

instance (a : Attribute) (values : Entries String) : Decidable (Assignable a values) :=
  inferInstanceAs (Decidable (∀ b ∈ a.bindings, ∀ value ∈ values.get? b.key,
    ∃ other ∈ a.bindings, other.key = b.key ∧ takes other value = true))

def suppliersOf (token : String) (b : Binding) : List Term :=
  match b.type with
  | .boolean =>
    if (b.ifTrue.map Text.words).any (·.contains token) then [.truthy b.key] else []
  | .enumeration options =>
    (options.filter fun c => (Text.words c.value).contains token).map fun c => .equals b.key c.name
  | _ => []

/-- Every term under which the attribute has the class besides its static text. -/
def suppliers (a : Attribute) (token : String) : List Term := a.bindings.flatMap (suppliersOf token)

/-- A flag, or a choice among options of distinct names. -/
def Styles (b : Binding) : Prop :=
  b.type = .boolean ∨
    ∃ options, b.type = .enumeration options ∧ b.ifTrue = none ∧ (options.map (·.name)).Nodup

/-- A compiled class without plain markers binds flags and choices. -/
theorem styles_of_typed {a : Attribute} (typed : a.Typed) (own : a.name = "class")
    (marked : ∀ b ∈ a.bindings, b.type ≠ .string)
    (distinct : ∀ b ∈ a.bindings, ((b.type.options?.getD []).map (·.name)).Nodup) :
    ∀ b ∈ a.bindings, Styles b := by
  intro b member
  rcases typed.ofClass own b member with plain | flag | choice
  · exact absurd plain (marked b member)
  · exact Or.inl flag
  · have names := distinct b member
    cases type : b.type with
    | enumeration options =>
      refine Or.inr ⟨options, type, ?_, by simpa [type, KeyType.options?] using names⟩
      cases literal : b.ifTrue with
      | none => rfl
      | some text =>
        have flag := typed.literal b member (by simp [literal])
        rw [type] at flag
        cases flag
    | _ => simp [type, KeyType.options?] at choice

variable {a : Attribute} {b : Binding} {token : String} {values : Entries String} {t : Term}

theorem mem_suppliersOf_flag (type : b.type = .boolean) :
    t ∈ suppliersOf token b ↔ t = .truthy b.key ∧ ∃ s, b.ifTrue = some s ∧ token ∈ Text.words s := by
  cases literal : b.ifTrue with
  | none => simp [suppliersOf, type, literal]
  | some s => by_cases inside : token ∈ Text.words s <;> simp [suppliersOf, type, literal, inside]

theorem mem_suppliersOf_choice {options : List Choice} (type : b.type = .enumeration options) :
    t ∈ suppliersOf token b ↔ ∃ c ∈ options, token ∈ Text.words c.value ∧ t = .equals b.key c.name := by
  simp [suppliersOf, type, eq_comm, and_assoc]

theorem termFor?_eq_head? (token : String) (b : Binding) :
    termFor? token b = (suppliersOf token b).head? := by
  unfold termFor? suppliersOf
  cases b.type with
  | boolean =>
    dsimp only
    split <;> rfl
  | enumeration options =>
    dsimp only
    rw [List.head?_map, List.head?_filter]
  | _ => rfl

theorem findSome?_termFor? (a : Attribute) (token : String) :
    a.bindings.findSome? (termFor? token) = (suppliers a token).head? := by
  rw [suppliers, List.head?_flatMap]
  congr
  funext b
  exact termFor?_eq_head? token b

theorem mem_addedWords (styles : Styles b) :
    token ∈ addedWords values b ↔ ∃ t ∈ suppliersOf token b, t.holds values = true := by
  rcases styles with type | ⟨options, type, -, distinct⟩
  · simp only [mem_suppliersOf_flag type, addedWords, type]
    constructor
    · intro added
      cases set : values.get? b.key with
      | none => simp [set] at added
      | some value =>
        refine ⟨_, ⟨rfl, by simpa [set] using added⟩, ?_⟩
        simp [Term.holds, set]
    · rintro ⟨_, ⟨rfl, literal⟩, holds⟩
      obtain ⟨value, set⟩ := Option.isSome_iff_exists.mp holds
      simpa [set] using literal
  · simp only [mem_suppliersOf_choice type, addedWords, type]
    constructor
    · intro added
      cases set : values.get? b.key with
      | none => simp [set] at added
      | some name =>
        simp only [set, List.mem_flatMap, Option.mem_toList] at added
        obtain ⟨c, found, inside⟩ := added
        have named : c.name = name := by simpa using List.find?_some found
        refine ⟨_, ⟨c, List.mem_of_find?_eq_some found, inside, rfl⟩, ?_⟩
        simp [Term.holds, set, named]
    · rintro ⟨_, ⟨c, known, inside, rfl⟩, holds⟩
      have set : values.get? b.key = some c.name := by simpa [Term.holds] using holds
      simp [set, Choice.find?_name distinct known, inside]

theorem Styles.literal (styles : Styles b) (given : b.ifTrue.isSome = true) : b.type = .boolean := by
  rcases styles with type | ⟨options, -, none, -⟩
  · exact type
  · rw [none] at given
    cases given

/-- The words a binding can ever add are those it has terms for, if it has a literal only as a flag. -/
theorem mem_tokens (literal : b.ifTrue.isSome = true → b.type = .boolean) :
    token ∈ b.tokens ↔ ∃ t, t ∈ suppliersOf token b := by
  cases type : b.type with
  | boolean => simp [mem_suppliersOf_flag type, Binding.tokens, type, KeyType.options?]
  | enumeration options =>
    have unset : b.ifTrue = none := by simpa [type] using literal
    simp only [mem_suppliersOf_choice type, Binding.tokens, type, unset, KeyType.options?]
    constructor
    · intro inside
      obtain ⟨c, known, inside⟩ : ∃ c ∈ options, token ∈ Text.words c.value := by simpa using inside
      exact ⟨_, c, known, inside, rfl⟩
    · rintro ⟨_, c, known, inside, rfl⟩
      simpa using ⟨c, known, inside⟩
  | _ =>
    have unset : b.ifTrue = none := by simpa [type] using literal
    simp [Binding.tokens, suppliersOf, type, unset, KeyType.options?]

theorem mem_classList (styles : ∀ b ∈ a.bindings, Styles b) :
    token ∈ classList a values ↔
      token ∈ Text.words a.text ∨ ∃ t ∈ suppliers a token, t.holds values = true := by
  simp only [classList, suppliers, List.mem_append, List.mem_flatMap]
  refine or_congr_right ?_
  constructor
  · rintro ⟨b, member, added⟩
    obtain ⟨t, supplies, holds⟩ := (mem_addedWords (styles b member)).mp added
    exact ⟨t, ⟨b, member, supplies⟩, holds⟩
  · rintro ⟨t, ⟨b, member, supplies⟩, holds⟩
    exact ⟨b, member, (mem_addedWords (styles b member)).mpr ⟨t, supplies, holds⟩⟩

/-- The classes that an attribute can have are static or have a first supplier. -/
theorem mem_tokens_iff (literal : ∀ b ∈ a.bindings, b.ifTrue.isSome = true → b.type = .boolean) :
    token ∈ a.tokens ↔ token ∈ Text.words a.text ∨ ∃ first, (suppliers a token).head? = some first := by
  rw [Attribute.tokens, List.mem_append]
  refine or_congr_right ?_
  constructor
  · intro inside
    obtain ⟨b, member, own⟩ := List.mem_flatMap.mp inside
    obtain ⟨t, supplies⟩ := (mem_tokens (literal b member)).mp own
    have known : t ∈ suppliers a token := List.mem_flatMap.mpr ⟨b, member, supplies⟩
    cases all : suppliers a token with
    | nil => simp [all] at known
    | cons first rest => exact ⟨first, rfl⟩
  · rintro ⟨first, head⟩
    obtain ⟨b, member, supplies⟩ := List.mem_flatMap.mp (List.mem_of_mem_head? head)
    exact List.mem_flatMap.mpr ⟨b, member, (mem_tokens (literal b member)).mpr ⟨first, supplies⟩⟩

theorem exists_head?_suppliers (styles : ∀ b ∈ a.bindings, Styles b) (possible : token ∈ a.tokens)
    (dynamic : token ∉ Text.words a.text) : ∃ first, (suppliers a token).head? = some first :=
  ((mem_tokens_iff fun b member => (styles b member).literal).mp possible).resolve_left dynamic

/-- Possible classes have terms: those of the first suppliers of the classes that are not static. -/
theorem terms?_spec (styles : ∀ b ∈ a.bindings, Styles b) {classes : List String}
    (possible : classes ⊆ a.tokens) :
    ∃ terms, terms? classes (some a) = some terms ∧
      ∀ t, t ∈ terms ↔
        ∃ c ∈ classes, c ∉ Text.words a.text ∧ (suppliers a c).head? = some t := by
  have all : ∀ c ∈ classes.filter (fun c => !(Text.words a.text).contains c),
      ∃ t, a.bindings.findSome? (termFor? c) = some t := by
    intro c member
    obtain ⟨asked, dynamic⟩ : c ∈ classes ∧ c ∉ Text.words a.text := by simpa using member
    rw [findSome?_termFor?]
    exact exists_head?_suppliers styles (possible asked) dynamic
  refine ⟨_, congrArg (Option.map List.eraseDups) (mapM_eq_filterMap all), ?_⟩
  intro t
  simp [List.mem_eraseDups, findSome?_termFor?, and_assoc]

theorem mem_terms (styles : ∀ b ∈ a.bindings, Styles b) {classes : List String} {terms : List Term}
    (possible : classes ⊆ a.tokens) (known : terms? classes (some a) = some terms) :
    t ∈ terms ↔ ∃ c ∈ classes, c ∉ Text.words a.text ∧ (suppliers a c).head? = some t := by
  obtain ⟨same, again, members⟩ := terms?_spec styles possible
  obtain rfl : same = terms := by simpa using again.symm.trans known
  exact members t

theorem assignable_singleton (styles : ∀ b ∈ a.bindings, Styles b) (supplies : t ∈ suppliers a token)
    {value : String} (asked : ∀ key name, t = .equals key name → value = name) :
    Assignable a [(t.key, value)] := by
  obtain ⟨source, member, supplies⟩ := List.mem_flatMap.mp supplies
  have taken : t.key = source.key ∧ takes source value = true := by
    rcases styles source member with type | ⟨options, type, -, -⟩
    · obtain ⟨rfl, -⟩ := (mem_suppliersOf_flag type).mp supplies
      exact ⟨rfl, by simp [takes, Binding.isBoolean, type]⟩
    · obtain ⟨c, known, -, rfl⟩ := (mem_suppliersOf_choice type).mp supplies
      obtain rfl := asked _ _ rfl
      refine ⟨rfl, ?_⟩
      simp only [takes, type, KeyType.options?, Option.getD_some, Bool.or_eq_true, List.contains_iff_mem]
      exact Or.inr (List.mem_map_of_mem known)
  intro b _ other set
  obtain ⟨same, rfl⟩ : t.key = b.key ∧ value = other := by simpa [Entries.get?_cons] using set
  exact ⟨source, member, taken.1.symm.trans same, taken.2⟩

theorem subset_classList_of_holds (styles : ∀ b ∈ a.bindings, Styles b) {classes : List String}
    {terms : List Term} (possible : classes ⊆ a.tokens) (known : terms? classes (some a) = some terms)
    (holding : ∀ t ∈ terms, t.holds values = true) : classes ⊆ classList a values := by
  intro c asked
  refine (mem_classList styles).mpr ?_
  by_cases static : c ∈ Text.words a.text
  · exact Or.inl static
  · obtain ⟨first, head⟩ := exists_head?_suppliers styles (possible asked) static
    have holds := holding first ((mem_terms styles possible known).mpr ⟨c, asked, static, head⟩)
    exact Or.inr ⟨first, List.mem_of_mem_head? head, holds⟩

/-- The first supplier of each class that is not static covers the others. -/
def Covered (a : Attribute) : Prop :=
  ∀ token ∈ a.tokens, token ∉ Text.words a.text →
    ∀ first ∈ (suppliers a token).head?, ∀ other ∈ suppliers a token, first.covers other = true

instance (a : Attribute) : Decidable (Covered a) :=
  inferInstanceAs (Decidable (∀ token ∈ a.tokens, token ∉ Text.words a.text →
    ∀ first ∈ (suppliers a token).head?, ∀ other ∈ suppliers a token, first.covers other = true))

theorem holds_of_subset_classList (styles : ∀ b ∈ a.bindings, Styles b) (covered : Covered a)
    {classes : List String} {terms : List Term} (possible : classes ⊆ a.tokens)
    (known : terms? classes (some a) = some terms) (carried : classes ⊆ classList a values) :
    ∀ t ∈ terms, t.holds values = true := by
  intro t member
  obtain ⟨c, asked, dynamic, head⟩ := (mem_terms styles possible known).mp member
  obtain ⟨other, supplies, holds⟩ := ((mem_classList styles).mp (carried asked)).resolve_left dynamic
  exact Term.holds_of_covers (covered c (possible asked) dynamic t head other supplies) holds

/-- A class with a supplier that its first one does not cover is on some element without its terms. -/
theorem exists_class_without_terms (styles : ∀ b ∈ a.bindings, Styles b) (possible : token ∈ a.tokens)
    (dynamic : token ∉ Text.words a.text) {first other : Term}
    (head : (suppliers a token).head? = some first) (supplies : other ∈ suppliers a token)
    (apart : first.covers other = false) :
    ∃ terms values, terms? [token] (some a) = some terms ∧ Assignable a values ∧
      token ∈ classList a values ∧ ∃ t ∈ terms, t.holds values = false := by
  obtain ⟨value, holds, fails, asked⟩ := Term.exists_separating apart
  have one : [token] ⊆ a.tokens := by simpa using possible
  obtain ⟨terms, known, members⟩ := terms?_spec styles one
  refine ⟨terms, [(other.key, value)], known, assignable_singleton styles supplies asked, ?_, first, ?_, fails⟩
  · exact (mem_classList styles).mpr (Or.inr ⟨other, supplies, holds⟩)
  · exact (members first).mpr ⟨token, List.mem_singleton_self token, dynamic, head⟩

/-- Possible classes of a compiled class attribute without plain markers always have terms, and where the
terms hold the element has the classes. The terms hold wherever the element has the classes exactly if the
first supplier of each class that is not static covers the others. -/
theorem terms_exact_iff_covered {σ : Type} {access : Markup.Access σ} {tag template : String}
    {s after : Attribute.Compiling σ} {full : List Attribute} {a : Attribute}
    (compiled : Attribute.compile access tag template s = (.ok full, after))
    (found : Attribute.find? full "class" = some a) (marked : ∀ b ∈ a.bindings, b.type ≠ .string)
    (distinct : ∀ b ∈ a.bindings, ((b.type.options?.getD []).map (·.name)).Nodup) :
    (∀ classes, classes ⊆ a.tokens → ∃ terms, terms? classes (some a) = some terms ∧
      ∀ values, (∀ t ∈ terms, t.holds values = true) → classes ⊆ classList a values) ∧
    ((∀ classes terms, classes ⊆ a.tokens → terms? classes (some a) = some terms →
        ∀ values, Assignable a values →
          ((∀ t ∈ terms, t.holds values = true) ↔ classes ⊆ classList a values)) ↔ Covered a) := by
  have own : a.name = "class" := by simpa using List.find?_some found
  have styles := styles_of_typed
    (Attribute.typed_compile compiled a (List.mem_of_find?_eq_some found)) own marked distinct
  refine ⟨?_, ?_, ?_⟩
  · intro classes possible
    obtain ⟨terms, known, -⟩ := terms?_spec styles possible
    exact ⟨terms, known, fun values => subset_classList_of_holds styles possible known⟩
  · intro agree token possible dynamic first head other supplies
    cases apart : first.covers other with
    | true => rfl
    | false =>
      obtain ⟨terms, values, known, assignable, carried, t, member, fails⟩ :=
        exists_class_without_terms styles possible dynamic head supplies apart
      have holding := (agree [token] terms (by simpa using possible) known values assignable).mpr
        (by simpa using carried)
      rw [holding t member] at fails
      cases fails
  · intro covered classes terms possible known values _
    exact ⟨subset_classList_of_holds styles possible known,
      holds_of_subset_classList styles covered possible known⟩

/-- A card whose classes come from its text, a choice and a flag. -/
theorem terms_exact_sizedCard :
    let e : Markup.Element := { tag := "p", attrs :=
      [⟨"class", "card {{size: big x as l | small as s}} {{on?: active}}"⟩] }
    let a : Attribute :=
      { name := "class", text := "card", type := .string, omittedIfEmpty := false
        bindings := [{ key := "size", optional := false, type := .enumeration [⟨"big x", "l"⟩, ⟨"small", "s"⟩] },
          { key := "on", optional := true, type := .boolean, ifTrue := some "active" }] }
    let done := Attribute.compile Markup.Access.ofElement "p" "t" { node := e, registry := .empty }
    done.1 = .ok [a] ∧ Covered a ∧
      terms? ["card", "x", "active"] (some a) = some [.equals "size" "l", .truthy "on"] ∧
      ∀ values, Assignable a values →
        ((∀ t ∈ [Term.equals "size" "l", .truthy "on"], t.holds values = true) ↔
          ["card", "x", "active"] ⊆ classList a values) := by
  intro e a done
  have compiled : done.1 = .ok [a] := ok_of_toOption (by decide +kernel)
  have covered : Covered a := by decide +kernel
  have known : terms? ["card", "x", "active"] (some a) = some [.equals "size" "l", .truthy "on"] := by
    decide +kernel
  have possible : ["card", "x", "active"] ⊆ a.tokens := by decide +kernel
  refine ⟨compiled, covered, known, ?_⟩
  have ended : done = (.ok [a], done.2) := Prod.ext compiled rfl
  have found : Attribute.find? [a] "class" = some a := rfl
  have general := terms_exact_iff_covered ended found (by decide) (by decide)
  exact general.2.mpr covered _ _ possible known

/-- Two options of one key with the same value: the terms ask for the first and miss the second. -/
theorem terms_miss_second_option :
    let e : Markup.Element := { tag := "p", attrs :=
      [⟨"class", "{{size?: x as s | x as l}}"⟩] }
    let a : Attribute :=
      { name := "class", text := "", type := .string, omittedIfEmpty := false
        bindings := [{ key := "size", optional := true, type := .enumeration [⟨"x", "s"⟩, ⟨"x", "l"⟩] }] }
    (Attribute.compile Markup.Access.ofElement "p" "t" { node := e, registry := .empty }).1 = .ok [a] ∧
      terms? ["x"] (some a) = some [.equals "size" "s"] ∧ Assignable a [("size", "l")] ∧
      ["x"] ⊆ classList a [("size", "l")] ∧ (Term.equals "size" "s").holds [("size", "l")] = false := by
  intro e a
  refine ⟨ok_of_toOption (by decide +kernel), ?_⟩
  decide +kernel

end Stencil.Component
