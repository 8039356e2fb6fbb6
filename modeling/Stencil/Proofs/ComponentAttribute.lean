import Stencil.Proofs.ChoiceTables
import Stencil.Proofs.ScriptReading

/-! What a bound attribute of a component comes to. An attribute writes one expression over the parameters
of its component and the tables of options; evaluated, it is left out or holds the static text and what
each key that is set adds to it. -/
namespace Stencil

namespace Script

/-- The words of a text, white space between them. -/
def words (s : String) : List String :=
  ((Text.Chars.pieces isSpace s.toList).filter (!·.isEmpty)).map String.ofList

section Words

open Text.Chars (pieces)

@[simp] theorem words_empty : words "" = [] := rfl

theorem words_append_space (s t : String) : words (s ++ " " ++ t) = words s ++ words t := by
  have cut := Text.Chars.pieces_append_cons isSpace s.toList t.toList ' ' rfl
  simp [words, cut]

theorem words_joinOnto (front : String) (parts : List String) :
    words (Text.joinOnto " " front parts) = words front ++ parts.flatMap words := by
  induction parts generalizing front with
  | nil => simp [Text.joinOnto]
  | cons s parts ih => rw [Text.joinOnto, ih, words_append_space, List.flatMap_cons, List.append_assoc]

theorem words_join (parts : List String) : words (Text.join " " parts) = parts.flatMap words := by
  cases parts with
  | nil => rfl
  | cons s parts => exact words_joinOnto s parts

theorem filter_pieces_dropWhile (s : List Char) :
    (pieces isSpace (s.dropWhile isSpace)).filter (!·.isEmpty) = (pieces isSpace s).filter (!·.isEmpty) := by
  induction s with
  | nil => rfl
  | cons c s ih =>
    by_cases space : isSpace c = true
    · have cut := Text.Chars.pieces_append_cons isSpace [] s c space
      rw [List.dropWhile_cons_of_pos space, ih]
      rw [List.nil_append] at cut
      rw [cut]
      rfl
    · rw [List.dropWhile_cons_of_neg space]

theorem words_trimStart (s : String) : words (trimStart s) = words s := by
  rw [words, trimStart, String.toList_ofList, filter_pieces_dropWhile]
  rfl

theorem trimStart_space (s : String) : trimStart (" " ++ s) = trimStart s := by
  simp [trimStart, isSpace, Text.isBlank]

end Words

/-- Whether a key with the value is unset, and an attribute with it left out. -/
def Value.isUnset : Value → Bool
  | undefined => true
  | boolean b => !b
  | _ => false

def Value.ofOption : Option String → Value
  | none => undefined
  | some s => string s

end Script

namespace Component

open Script (Value Scope evaluate? words)

/-- A value that the key can be given. -/
def Fits (b : Binding) : Value → Prop
  | .undefined => True
  | .boolean _ => b.type = .boolean
  | .string s => b.type ≠ .boolean ∧ ∀ options ∈ b.type.options?.toList, s ∈ options.map (·.name)
  | _ => False

instance (b : Binding) : (v : Value) → Decidable (Fits b v)
  | .undefined => .isTrue trivial
  | .boolean _ => inferInstanceAs (Decidable (b.type = .boolean))
  | .string s => inferInstanceAs (Decidable
      (b.type ≠ .boolean ∧ ∀ options ∈ b.type.options?.toList, s ∈ options.map (·.name)))
  | .strings _ | .objects _ | .prototype => .isFalse id

/-- What a key adds to the text of its attribute: nothing while it is unset, and else the literal of a
boolean, the value of the option named, or its own value. -/
def contribution (a : Attribute) (b : Binding) : Value → Option String
  | .boolean true => some (b.ifTrue.getD a.name)
  | .string s =>
    match b.type with
    | .enumeration options => (options.find? (·.name == s)).map (·.value)
    | _ => some s
  | _ => none

def contributions (a : Attribute) (values : String → Value) (bindings : List Binding) : List String :=
  bindings.filterMap fun b => contribution a b (values b.key)

theorem isSome_contribution {a : Attribute} {b : Binding} {v : Value} (fits : Fits b v) :
    (contribution a b v).isSome = !v.isUnset := by
  cases v with
  | undefined => rfl
  | boolean holds => cases holds <;> rfl
  | string s =>
    cases type : b.type with
    | enumeration options =>
      have member := fits.2 options (by simp [type, KeyType.options?])
      simpa [contribution, type, Value.isUnset] using member
    | _ => simp [contribution, type, Value.isUnset]
  | strings | objects | prototype => cases fits

theorem contributions_eq_nil {a : Attribute} {values : String → Value} {bindings : List Binding}
    (fits : ∀ b ∈ bindings, Fits b (values b.key)) :
    contributions a values bindings = [] ↔ ∀ b ∈ bindings, (values b.key).isUnset = true := by
  rw [contributions, List.filterMap_eq_nil_iff]
  refine forall₂_congr fun b member => ?_
  have set := isSome_contribution (a := a) (fits b member)
  cases added : contribution a b (values b.key) <;> simp_all

/-! Evaluation -/

/-- The variables of the expression of an attribute: parameters hide the tables and `undefined`. -/
def scope (parameters : List String) (values : String → Value) (constants : Entries (Entries String)) :
    Scope :=
  parameters.map (fun key => (key, values key)) ++
    [("constants", .objects constants), ("undefined", .undefined)]

/-- A variable that is read for a key has its value, and so have `undefined` and the option looked up. -/
structure Given (scope : Scope) (a : Attribute) (b : Binding) (v : Value) : Prop where
  fits : Fits b v
  key : scope.lookup b.key = some v
  undefined : scope.lookup "undefined" = some .undefined
  option : ∀ options, b.type = .enumeration options →
    (Expr.option b.key).term.eval scope = some (.ofOption (contribution a b v))

section Given

variable {scope : Scope} {a : Attribute} {b : Binding} {v : Value}

/-- A boolean is `undefined`, true or false. -/
theorem Fits.boolean (fits : Fits b v) (type : b.type = .boolean) :
    v = .undefined ∨ ∃ holds, v = .boolean holds := by
  cases v with
  | undefined => exact Or.inl rfl
  | boolean holds => exact Or.inr ⟨holds, rfl⟩
  | string s => exact absurd type fits.1
  | strings | objects | prototype => cases fits

/-- All else is `undefined` or a string. -/
theorem Fits.string (fits : Fits b v) (type : b.type ≠ .boolean) : v = .undefined ∨ ∃ s, v = .string s := by
  cases v with
  | undefined => exact Or.inl rfl
  | boolean holds => exact absurd fits type
  | string s => exact Or.inr ⟨s, rfl⟩
  | strings | objects | prototype => cases fits

/-- A key without options stands for its value. -/
theorem Fits.ofOption_contribution (fits : Fits b v) (type : b.type ≠ .boolean)
    (plain : b.type.options? = none) : Value.ofOption (contribution a b v) = v := by
  rcases fits.string type with rfl | ⟨s, rfl⟩
  · rfl
  · cases type : b.type <;> simp_all [contribution, Value.ofOption, KeyType.options?]

theorem Given.eval_isSet (given : Given scope a b v) :
    ∃ w, (isSet b).term.eval scope = some w ∧ w.isTruthy = !v.isUnset := by
  by_cases type : b.type = .boolean
  · refine ⟨v, ?_, ?_⟩
    · simp [isSet, Binding.isBoolean, type, Expr.term, Script.Term.eval, given.key]
    · rcases given.fits.boolean type with rfl | ⟨holds, rfl⟩
      · rfl
      · cases holds <;> rfl
  · refine ⟨.boolean (!v.isUnset), ?_, rfl⟩
    have set : (isSet b).term = .binary .differs (.name b.key) (.name "undefined") := by
      simp [isSet, Binding.isBoolean, type, Expr.term]
    rcases given.fits.string type with rfl | ⟨s, rfl⟩ <;>
      simp [set, Script.Term.eval, given.key, given.undefined, Value.differs?, Value.isUnset]

/-- What a binding puts behind a lead. -/
def gapped (a : Attribute) (values : String → Value) (lead : String) (b : Binding) : String :=
  ((contribution a b (values b.key)).map (lead ++ ·)).getD ""

theorem eval_choose_defined {e : Expr} {c : Option String} (value : e.term.eval scope = some (.ofOption c))
    (undefined : scope.lookup "undefined" = some .undefined) (lead : String) :
    (Expr.choose (.isDefined e) (.append (.literal lead) e) (.literal "")).term.eval scope =
      some (.string ((c.map (lead ++ ·)).getD "")) := by
  cases c with
  | none =>
    simp [Expr.term, Script.Term.eval, value, undefined, Value.ofOption, Value.differs?, Value.isTruthy]
  | some s =>
    simp [Expr.term, Script.Term.eval, value, undefined, Value.ofOption, Value.differs?, Value.isTruthy,
      Value.plus?, Value.text?]

theorem Given.eval_addition {values : String → Value} (given : Given scope a b (values b.key))
    (lead : String) : (addition a lead b).term.eval scope = some (.string (gapped a values lead b)) := by
  cases type : b.type with
  | boolean =>
    rcases given.fits.boolean type with unset | ⟨holds, value⟩
    · simp [addition, type, Expr.term, Script.Term.eval, given.key, unset, gapped, contribution,
        Value.isTruthy]
    · cases holds <;>
        simp [addition, type, Expr.term, Script.Term.eval, given.key, value, gapped, contribution,
          Value.isTruthy]
  | enumeration options =>
    simp only [addition, type]
    exact eval_choose_defined (given.option options type) given.undefined lead
  | _ =>
    have value : (Expr.key b.key).term.eval scope = some (.ofOption (contribution a b (values b.key))) := by
      rw [given.fits.ofOption_contribution (by simp [type]) (by simp [type, KeyType.options?])]
      exact given.key
    simp only [addition, type]
    exact eval_choose_defined value given.undefined lead

/-- The attribute is its one key. -/
def IsKey (a : Attribute) (b : Binding) : Prop := b.type = .boolean ∧ (a.type = .boolean ∨ b.ifTrue = none)

instance (a : Attribute) (b : Binding) : Decidable (IsKey a b) :=
  inferInstanceAs (Decidable (b.type = .boolean ∧ (a.type = .boolean ∨ b.ifTrue = none)))

theorem Given.eval_soleValue (given : Given scope a b v) :
    (soleValue a b).term.eval scope = some (if IsKey a b then v else .ofOption (contribution a b v)) := by
  cases type : b.type with
  | boolean =>
    cases literal : b.ifTrue with
    | none => simp [soleValue, type, literal, IsKey, Expr.term, Script.Term.eval, given.key]
    | some text =>
      by_cases flag : a.type = .boolean
      · simp [soleValue, type, literal, flag, IsKey, Expr.term, Script.Term.eval, given.key]
      · rcases given.fits.boolean type with rfl | ⟨holds, rfl⟩
        · simp [soleValue, type, literal, flag, IsKey, Expr.term, Script.Term.eval, given.key,
            given.undefined, contribution, Value.isTruthy, Value.ofOption]
        · cases holds <;>
            simp [soleValue, type, literal, flag, IsKey, Expr.term, Script.Term.eval, given.key,
              given.undefined, contribution, Value.isTruthy, Value.ofOption]
  | enumeration options =>
    have option := given.option options type
    simpa [soleValue, type, IsKey] using option
  | _ =>
    have same := given.fits.ofOption_contribution (a := a) (by simp [type]) (by simp [type, KeyType.options?])
    simp [soleValue, type, IsKey, Expr.term, Script.Term.eval, given.key, same]

end Given

section Text

variable {scope : Scope} {a : Attribute} {values : String → Value}

/-- Substitutions put their texts one after the other. -/
theorem eval_substituted {front : Script.Term} {inner : List Script.Term} {texts : List String} {s : String}
    (start : front.eval scope = some (.string s))
    (each : inner.map (Script.Term.eval scope) = texts.map fun t => some (.string t)) :
    (Expr.substituted front inner).eval scope = some (.string (s ++ Text.concat texts)) := by
  induction inner generalizing front s texts with
  | nil =>
    cases texts with
    | nil => simpa [Expr.substituted, Text.concat] using start
    | cons => cases each
  | cons e inner ih =>
    cases texts with
    | nil => cases each
    | cons t texts =>
      obtain ⟨here, later⟩ := List.cons.inj each
      have extended : (Script.Term.extend front e "").eval scope = some (.string (s ++ t)) := by
        simp [Script.Term.eval, start, here, Value.text?]
      have all := ih extended later
      rw [Text.concat_cons, ← String.append_assoc]
      exact all

/-- Alternatives hold if one of them does. -/
theorem eval_alternatives {front : Script.Term} {v : Value} {operands : List Script.Term} {holds : List Bool}
    (start : front.eval scope = some v)
    (each : List.Forall₂ (fun e b => ∃ w, Script.Term.eval scope e = some w ∧ w.isTruthy = b)
      operands holds) :
    ∃ w, (operands.foldl (.binary .either) front).eval scope = some w ∧
      w.isTruthy = (v.isTruthy || holds.any id) := by
  induction each generalizing front v with
  | nil => exact ⟨v, start, by simp⟩
  | @cons e b operands holds first _ ih =>
    obtain ⟨w, value, truthy⟩ := first
    by_cases certain : v.isTruthy = true
    · have both : (Script.Term.binary .either front e).eval scope = some v := by
        simp [Script.Term.eval, start, certain]
      simpa [certain] using ih both
    · have both : (Script.Term.binary .either front e).eval scope = some w := by
        simp [Script.Term.eval, start, certain, value]
      simpa [certain, truthy] using ih both

/-- The text holds the words of the static text and then those added; it starts with the static text, and
without one only white space in front is missing. -/
structure Holds (text : String) (added : List String) (s : String) : Prop where
  words : words s = words text ++ added.flatMap words
  joined : text ≠ "" → s = Text.join " " (text :: added)
  trimmed : text = "" → s.toList <:+ (Text.join " " added).toList

/-- What the bindings put behind a text is joined to it by single blanks. -/
theorem append_gapped (front : String) (bindings : List Binding) :
    front ++ Text.concat (bindings.map (gapped a values " ")) =
      Text.joinOnto " " front (contributions a values bindings) := by
  induction bindings generalizing front with
  | nil => simp [contributions, Text.joinOnto, Text.concat]
  | cons b bindings ih =>
    rw [List.map_cons, Text.concat_cons, ← String.append_assoc]
    cases added : contribution a b (values b.key) with
    | none => simp [gapped, added, contributions, ih]
    | some s =>
      rw [ih]
      simp [gapped, added, contributions, Text.joinOnto, String.append_assoc]

def additionTexts (a : Attribute) (values : String → Value) : List Binding → List String
  | [] => []
  | b :: rest => gapped a values (if a.text.isEmpty then "" else " ") b :: rest.map (gapped a values " ")

theorem eval_additions {bindings : List Binding} (given : ∀ b ∈ bindings, Given scope a b (values b.key)) :
    (Expr.terms (additions a bindings)).map (Script.Term.eval scope) =
      (additionTexts a values bindings).map fun t => some (.string t) := by
  cases bindings with
  | nil => rfl
  | cons b rest =>
    simp only [List.forall_mem_cons] at given
    have later : (rest.map (addition a " ")).map (Script.Term.eval scope ∘ Expr.term) =
        (rest.map (gapped a values " ")).map fun t => some (.string t) := by
      rw [List.map_map, List.map_map]
      exact List.map_congr_left fun c member => (given.2 c member).eval_addition " "
    rw [additions, Expr.terms, Expr.terms_eq, List.map_cons, given.1.eval_addition, List.map_map, later]
    rfl

theorem append_additionTexts (text : a.text ≠ "") :
    a.text ++ Text.concat (additionTexts a values a.bindings) =
      Text.joinOnto " " a.text (contributions a values a.bindings) := by
  rw [← append_gapped]
  cases a.bindings with
  | nil => rfl
  | cons b rest => simp [additionTexts, text]

/-- A first binding that adds nothing leaves the blank of the next one in front, and no other blank. -/
theorem trimStart_additionTexts (empty : a.text = "") (bindings : List Binding) :
    Script.trimStart (Text.concat (additionTexts a values bindings)) =
      Script.trimStart (Text.join " " (contributions a values bindings)) := by
  cases bindings with
  | nil => rfl
  | cons b rest =>
    rw [additionTexts, Text.concat_cons, empty, append_gapped]
    cases added : contribution a b (values b.key) with
    | some s => simp [gapped, added, contributions, Text.join]
    | none =>
      have skipped : contributions a values (b :: rest) = contributions a values rest := by
        simp [contributions, added]
      rw [skipped]
      cases contributions a values rest with
      | nil => simp [gapped, added, Text.joinOnto]
      | cons s later =>
        have front := Text.joinOnto_append " " " " s later
        simp [gapped, added, Text.joinOnto, Text.join, front, Script.trimStart_space]

/-- The text of an attribute that is more than one binding. -/
theorem eval_boundText (bound : a.text ≠ "" ∨ 1 < a.bindings.length)
    (given : ∀ b ∈ a.bindings, Given scope a b (values b.key)) :
    ∃ s, (boundText a).term.eval scope = some (.string s) ∧
      Holds a.text (contributions a values a.bindings) s := by
  have template : (Expr.template a.text (additions a a.bindings)).term.eval scope =
      some (.string (a.text ++ Text.concat (additionTexts a values a.bindings))) :=
    eval_substituted rfl (eval_additions given)
  by_cases empty : a.text = ""
  · have many : 1 < a.bindings.length := bound.resolve_left fun text => text empty
    have trimmed : boundText a = .trimStart (.template a.text (additions a a.bindings)) := by
      simp [boundText, empty, many]
    refine ⟨Script.trimStart (Text.join " " (contributions a values a.bindings)), ?_, ?_, ?_, ?_⟩
    · rw [trimmed, Expr.term, Script.Term.eval, template]
      simp [empty, trimStart_additionTexts empty]
    · rw [Script.words_trimStart, Script.words_join, empty, Script.words_empty, List.nil_append]
    · exact fun text => absurd empty text
    · intro _
      rw [Script.trimStart, String.toList_ofList]
      exact List.dropWhile_suffix _
  · have text : boundText a = .template a.text (additions a a.bindings) := by
      simp [boundText, empty]
    refine ⟨Text.joinOnto " " a.text (contributions a values a.bindings), ?_, ?_, fun _ => rfl, ?_⟩
    · rw [text, template, append_additionTexts empty]
    · exact Script.words_joinOnto ..
    · exact fun none => absurd none empty

theorem eval_any {bindings : List Binding} (nonempty : bindings ≠ [])
    (given : ∀ b ∈ bindings, Given scope a b (values b.key)) :
    ∃ w, (Expr.any (bindings.map isSet)).term.eval scope = some w ∧
      w.isTruthy = bindings.any fun b => !(values b.key).isUnset := by
  obtain ⟨b, rest, rfl⟩ := List.exists_cons_of_ne_nil nonempty
  simp only [List.forall_mem_cons] at given
  obtain ⟨v, value, truthy⟩ := given.1.eval_isSet
  have each : List.Forall₂ (fun e b => ∃ w, Script.Term.eval scope e = some w ∧ w.isTruthy = b)
      (rest.map fun b => (isSet b).term) (rest.map fun b => !(values b.key).isUnset) := by
    rw [List.forall₂_map_left_iff, List.forall₂_map_right_iff, List.forall₂_same]
    exact fun c member => (given.2 c member).eval_isSet
  obtain ⟨w, all, any⟩ := eval_alternatives value each
  refine ⟨w, ?_, ?_⟩
  · rw [Expr.term, Expr.terms_eq, List.map_cons, List.map_cons, List.map_map]
    exact all
  · simpa [truthy, List.any_map, Function.comp_def] using any

/-- The key that an attribute hands on as it is: a single boolean, on a boolean attribute or without a
literal. -/
def ownKey? (a : Attribute) : Option String :=
  match a.bindings with
  | [b] => if a.text = "" ∧ IsKey a b then some b.key else none
  | _ => none

/-- Whether the attribute is left out while no key is set. One that is a single key always is. -/
def vanishes (a : Attribute) : Bool := a.omittedIfEmpty || (a.text.isEmpty && a.bindings.length == 1)

/-- What the attribute comes to under values for its keys. -/
def Means (a : Attribute) (values : String → Value) (v : Value) : Prop :=
  match ownKey? a with
  | some key => v = values key
  | none =>
    if contributions a values a.bindings = [] ∧ vanishes a then v = .undefined
    else ∃ s, v = .string s ∧ Holds a.text (contributions a values a.bindings) s

theorem boundValue_of_many (bound : a.text ≠ "" ∨ 1 < a.bindings.length) :
    boundValue a = if a.omittedIfEmpty then .choose (.any (a.bindings.map isSet)) (boundText a) .undefined
      else boundText a := by
  unfold boundValue
  split
  · rename_i b bindings empty
    simp_all
  · rfl

theorem ownKey?_of_many (bound : a.text ≠ "" ∨ 1 < a.bindings.length) : ownKey? a = none := by
  unfold ownKey?
  split
  · rename_i b bindings
    simp_all
  · rfl

theorem eval_boundValue_of_many (bound : a.text ≠ "" ∨ 1 < a.bindings.length) (nonempty : a.bindings ≠ [])
    (given : ∀ b ∈ a.bindings, Given scope a b (values b.key)) :
    ∃ v, (boundValue a).term.eval scope = some v ∧ Means a values v := by
  obtain ⟨s, text, holds⟩ := eval_boundText bound given
  have none := ownKey?_of_many bound
  rw [boundValue_of_many bound]
  by_cases omitted : a.omittedIfEmpty = true
  · obtain ⟨w, test, truthy⟩ := eval_any nonempty given
    have unset := contributions_eq_nil (a := a) fun b member => (given b member).fits
    have left : vanishes a = true := by simp [vanishes, omitted]
    rw [if_pos omitted, Expr.term, Script.Term.eval, test, Option.bind_eq_bind, Option.bind_some, truthy]
    by_cases any : (a.bindings.any fun b => !(values b.key).isUnset) = true
    · have added : contributions a values a.bindings ≠ [] := by
        rw [ne_eq, unset]
        simpa using any
      exact ⟨.string s, by rw [if_pos any, text], by simpa [Means, none, added] using holds⟩
    · have nothing : contributions a values a.bindings = [] := by
        rw [unset]
        simpa using any
      refine ⟨.undefined, ?_, by simp [Means, none, nothing, left]⟩
      rw [if_neg any]
      exact (given _ (List.head_mem nonempty)).undefined
  · have stays : vanishes a = false := by
      rcases bound with text | many
      · simp [vanishes, omitted, text]
      · simp [vanishes, omitted, Nat.ne_of_gt many]
    exact ⟨.string s, by rw [if_neg omitted, text], by simpa [Means, none, stays] using holds⟩

theorem eval_boundValue_of_sole {b : Binding} (empty : a.text = "") (single : a.bindings = [b])
    (given : Given scope a b (values b.key)) :
    ∃ v, (boundValue a).term.eval scope = some v ∧ Means a values v := by
  have sole : boundValue a = soleValue a b := by
    rw [boundValue, single, empty]
    rfl
  rw [sole, given.eval_soleValue]
  refine ⟨_, rfl, ?_⟩
  by_cases own : IsKey a b
  · simp [Means, ownKey?, single, empty, own]
  · have left : vanishes a = true := by simp [vanishes, single, empty]
    cases added : contribution a b (values b.key) with
    | none => simp [Means, ownKey?, single, empty, own, contributions, added, left, Value.ofOption]
    | some s =>
      have holds : Holds "" [s] s := ⟨by simp, fun text => absurd rfl text, fun _ => by simp⟩
      simpa [Means, ownKey?, single, empty, own, contributions, added, Value.ofOption] using holds

theorem eval_boundValue (nonempty : a.bindings ≠ [])
    (given : ∀ b ∈ a.bindings, Given scope a b (values b.key)) :
    ∃ v, (boundValue a).term.eval scope = some v ∧ Means a values v := by
  by_cases bound : a.text ≠ "" ∨ 1 < a.bindings.length
  · exact eval_boundValue_of_many bound nonempty given
  · obtain ⟨empty, few⟩ : a.text = "" ∧ a.bindings.length ≤ 1 := by simpa using bound
    obtain ⟨b, single⟩ : ∃ b, a.bindings = [b] :=
      List.length_eq_one_iff.mp (Nat.le_antisymm few (List.length_pos_iff.mpr nonempty))
    exact eval_boundValue_of_sole empty single (given b (by simp [single]))

theorem bindings_of_ownKey? {key : String} (own : ownKey? a = some key) :
    ∃ b, a.bindings = [b] ∧ b.key = key := by
  unfold ownKey? at own
  split at own
  · rename_i b single
    split at own
    · exact ⟨b, single, Option.some.inj own⟩
    · cases own
  · cases own

/-- A value is unset exactly if all keys are, where the attribute is to be left out then. -/
theorem Means.isUnset_iff {v : Value} (means : Means a values v) (omitted : a.omittedIfEmpty = true)
    (fits : ∀ b ∈ a.bindings, Fits b (values b.key)) :
    v.isUnset = true ↔ ∀ b ∈ a.bindings, (values b.key).isUnset = true := by
  cases own : ownKey? a with
  | some key =>
    obtain ⟨b, single, same⟩ := bindings_of_ownKey? own
    have value : v = values key := by simpa [Means, own] using means
    simp [value, single, same]
  | none =>
    rw [← contributions_eq_nil (a := a) fits]
    by_cases nothing : contributions a values a.bindings = []
    · have left : vanishes a = true := by simp [vanishes, omitted]
      have value : v = .undefined := by simpa [Means, own, nothing, left] using means
      simp [nothing, value, Value.isUnset]
    · obtain ⟨s, rfl, -⟩ : ∃ s, v = .string s ∧ _ := by simpa [Means, own, nothing] using means
      simp [nothing, Value.isUnset]

end Text

/-! Attributes -/

/-- An attribute that is written as an expression over the parameters of its component. -/
structure Expressed (a : Attribute) (parameters : List String) : Prop where
  read : readsOptions a = true
  bound : a.bindings ≠ []
  plain : '\r' ∉ a.text.toList
  named : ∀ b ∈ a.bindings, Script.isIdentifier b.key = true
  keys : (a.bindings.map (·.key)).Nodup
  options : ∀ b ∈ a.bindings, ∀ options ∈ b.type.options?.toList, (options.map (·.name)).Nodup
  given : ∀ b ∈ a.bindings, b.key ∈ parameters

/-- The option that is looked up is the one that is meant: an unset key would read an option of the name
`undefined`, and `__proto__` names no member of a table. -/
def Distinguished (b : Binding) (v : Value) : Prop :=
  ∀ options ∈ b.type.options?.toList,
    (v = .undefined → "undefined" ∉ options.map (·.name)) ∧ v ≠ .string "__proto__"

instance (b : Binding) (v : Value) : Decidable (Distinguished b v) :=
  inferInstanceAs (Decidable (∀ options ∈ b.type.options?.toList,
    (v = .undefined → "undefined" ∉ options.map (·.name)) ∧ v ≠ .string "__proto__"))

section Scope

variable {parameters : List String} (values : String → Value) (constants : Entries (Entries String))

theorem lookup_parameter {key : String} (member : key ∈ parameters) :
    (scope parameters values constants).lookup key = some (values key) := by
  unfold scope
  induction parameters with
  | nil => cases member
  | cons first parameters ih =>
    rw [List.map_cons, List.cons_append, List.lookup_cons]
    by_cases here : key = first
    · simp [here]
    · rw [beq_false_of_ne here]
      exact ih ((List.mem_cons.mp member).resolve_left here)

theorem lookup_other {key : String} (absent : key ∉ parameters) :
    (scope parameters values constants).lookup key =
      List.lookup key [("constants", Value.objects constants), ("undefined", .undefined)] := by
  unfold scope
  induction parameters with
  | nil => rfl
  | cons first parameters ih =>
    obtain ⟨other, later⟩ := not_or.mp (mt List.mem_cons.mpr absent)
    rw [List.map_cons, List.cons_append, List.lookup_cons, beq_false_of_ne other]
    exact ih later

/-- The table that an attribute records is found under its key. -/
theorem get?_recordConstants {a : Attribute} (read : readsOptions a = true)
    (keys : (a.bindings.map (·.key)).Nodup) {b : Binding} (member : b ∈ a.bindings) {options : List Choice}
    (type : b.type = .enumeration options) :
    (Draft.recordConstants constants a).get? b.key = some (Choice.table options) := by
  have recorded : Draft.recordConstants constants a =
      a.bindings.foldl LogicLess.Lookup.recordBinding constants := by
    rw [Draft.recordConstants, if_pos read]
    rfl
  rw [recorded, LogicLess.Lookup.get?_foldl_recordBinding a.bindings constants keys member,
    LogicLess.Lookup.recordBinding, type]
  simp [Entries.get?_put]

theorem eval_option {constants : Entries (Entries String)} {scope : Scope} {a : Attribute} {b : Binding}
    {v : Value} {options : List Choice} (type : b.type = .enumeration options)
    (key : scope.lookup b.key = some v) (tables : scope.lookup "constants" = some (.objects constants))
    (table : constants.get? b.key = some (Choice.table options)) (distinct : (options.map (·.name)).Nodup)
    (fits : Fits b v) (distinguished : Distinguished b v) :
    (Expr.option b.key).term.eval scope = some (.ofOption (contribution a b v)) := by
  obtain ⟨unset, own⟩ := distinguished options (by simp [type, KeyType.options?])
  have found : (Expr.option b.key).term.eval scope =
      v.text?.bind (Value.ofStrings (Choice.table options)) := by
    simp [Expr.term, Script.Term.eval, tables, key, Value.member?, Value.ofObjects, table]
  rw [found]
  rcases fits.string (by simp [type]) with rfl | ⟨s, rfl⟩
  · have absent : (Choice.table options).get? "undefined" = none := by
      rw [Choice.get?_table distinct, Option.map_eq_none_iff, List.find?_eq_none]
      intro c member same
      exact unset rfl (List.mem_map.mpr ⟨c, member, beq_iff_eq.mp same⟩)
    have plain : "undefined" ∉ Script.inherited := by decide
    simp [Value.text?, Value.ofStrings, absent, plain, contribution, Value.ofOption]
  · have other : s ≠ "__proto__" := fun same => own (by rw [same])
    obtain ⟨c, member, rfl⟩ := List.mem_map.mp (fits.2 options (by simp [type, KeyType.options?]))
    have value := Choice.get?_table_name distinct member
    have chosen := Choice.find?_name distinct member
    simp [Value.text?, Value.ofStrings, other, value, contribution, type, chosen, Value.ofOption]

theorem Expressed.givens {values : String → Value} {a : Attribute} (expressed : Expressed a parameters)
    (tables : "constants" ∈ parameters → ∀ b ∈ a.bindings, b.type.options? = none)
    (undefined : "undefined" ∈ parameters → values "undefined" = .undefined)
    (fits : ∀ b ∈ a.bindings, Fits b (values b.key))
    (distinguished : ∀ b ∈ a.bindings, Distinguished b (values b.key)) :
    ∀ b ∈ a.bindings,
      Given (scope parameters values (Draft.recordConstants constants a)) a b (values b.key) := by
  intro b member
  have key := lookup_parameter values (Draft.recordConstants constants a) (expressed.given b member)
  refine ⟨fits b member, key, ?_, fun options type => ?_⟩
  · by_cases parameter : "undefined" ∈ parameters
    · rw [lookup_parameter values _ parameter, undefined parameter]
    · exact lookup_other values _ parameter
  · have free : "constants" ∉ parameters := fun parameter => by
      simpa [type, KeyType.options?] using tables parameter b member
    have distinct := expressed.options b member options (by simp [type, KeyType.options?])
    have table := get?_recordConstants constants expressed.read expressed.keys member type
    exact eval_option type key (lookup_other values _ free) table distinct (fits b member)
      (distinguished b member)

end Scope

section Nesting

variable {a : Attribute} {b : Binding}

theorem nested_isSet (named : Script.isIdentifier b.key = true) : 2 ≤ (isSet b).level ∧ (isSet b).Nested := by
  unfold isSet
  split <;> simp [Expr.Nested, Expr.level, named]

theorem nested_soleValue (named : Script.isIdentifier b.key = true) : (soleValue a b).Nested := by
  unfold soleValue
  split
  · split
    · exact named
    · simp [Expr.Nested, Expr.level, named]
  · exact named
  · exact named

theorem nested_addition (named : Script.isIdentifier b.key = true) (lead : String) :
    (addition a lead b).Nested := by
  unfold addition
  split <;> simp [Expr.Nested, Expr.level, named]

theorem nested_additions {bindings : List Binding}
    (named : ∀ b ∈ bindings, Script.isIdentifier b.key = true) : Expr.NestedAll (additions a bindings) := by
  cases bindings with
  | nil => trivial
  | cons b rest =>
    simp only [List.forall_mem_cons] at named
    refine ⟨nested_addition named.1 _, (Expr.nestedAll_iff _).mpr ?_⟩
    simp only [List.forall_mem_map]
    exact fun c member => nested_addition (named.2 c member) " "

theorem nested_boundText (plain : '\r' ∉ a.text.toList)
    (named : ∀ b ∈ a.bindings, Script.isIdentifier b.key = true) : (boundText a).Nested := by
  have template : (Expr.template a.text (additions a a.bindings)).Nested := ⟨plain, nested_additions named⟩
  unfold boundText
  split
  · exact ⟨by simp [Expr.level], template⟩
  · exact template

/-- No operand of an attribute's expression would need parentheses. -/
theorem nested_boundValue (nonempty : a.bindings ≠ []) (plain : '\r' ∉ a.text.toList)
    (named : ∀ b ∈ a.bindings, Script.isIdentifier b.key = true) : (boundValue a).Nested := by
  have text := nested_boundText plain named
  have any : (Expr.any (a.bindings.map isSet)).Nested := by
    refine ⟨by simpa using nonempty, ?_, (Expr.nestedAll_iff _).mpr ?_⟩
    · simp only [List.forall_mem_map]
      exact fun b member => (nested_isSet (named b member)).1
    · simp only [List.forall_mem_map]
      exact fun b member => (nested_isSet (named b member)).2
  unfold boundValue
  split
  · rename_i b single empty
    exact nested_soleValue (named b (by simp [single]))
  · split
    · exact ⟨by simp [Expr.level], any, text, trivial⟩
    · exact text

end Nesting

theorem writeAttribute_eq {a : Attribute} (read : readsOptions a = true) (bound : a.bindings ≠ []) :
    writeAttribute a = " " ++ propName a.name ++ "=" ++ braced (boundValue a).write := by
  obtain ⟨handler, style⟩ : isHandler a.name = false ∧ a.name ≠ "style" := by simpa [readsOptions] using read
  have dynamic : a.isStatic = false := by simpa [Attribute.isStatic] using bound
  simp [writeAttribute, renderAttribute, handler, style, dynamic]

/-- A written expression comes to what its term does. -/
theorem evaluate?_write {e : Expr} (nested : e.Nested) (scope : Scope) :
    evaluate? scope e.write = e.term.eval scope := by
  rw [evaluate?, Expr.read?_write nested, Option.bind_some]

/-- An attribute with bindings is written as an expression that comes to the key itself, to nothing, or to
a text: its words are those of the static text and then those of each key that is set, in order. One that
is to be left out without keys is so exactly when none of them is set. No parameter may hide the tables
that are read, or give `undefined` another value. -/
theorem attribute_evaluates (a : Attribute) (parameters : List String) (values : String → Value)
    (constants : Entries (Entries String)) (expressed : Expressed a parameters)
    (tables : "constants" ∈ parameters → ∀ b ∈ a.bindings, b.type.options? = none)
    (undefined : "undefined" ∈ parameters → values "undefined" = .undefined)
    (fits : ∀ b ∈ a.bindings, Fits b (values b.key))
    (distinguished : ∀ b ∈ a.bindings, Distinguished b (values b.key)) :
    ∃ expression v,
      writeAttribute a = " " ++ propName a.name ++ "=" ++ braced expression ∧
      evaluate? (scope parameters values (Draft.recordConstants constants a)) expression = some v ∧
      Means a values v ∧
      (a.omittedIfEmpty = true → (v.isUnset = true ↔ ∀ b ∈ a.bindings, (values b.key).isUnset = true)) := by
  have given := expressed.givens constants tables undefined fits distinguished
  obtain ⟨v, value, means⟩ := eval_boundValue expressed.bound given
  have nested := nested_boundValue expressed.bound expressed.plain expressed.named
  refine ⟨(boundValue a).write, v, writeAttribute_eq expressed.read expressed.bound, ?_, means, ?_⟩
  · rw [evaluate?_write nested, value]
  · exact fun omitted => means.isUnset_iff omitted fits

/-- A flag, a choice and a free value in an attribute without static text. -/
def sizedTab : Attribute where
  name := "class"
  text := ""
  type := .string
  bindings := [
    { key := "active", optional := true, type := .boolean, ifTrue := some "is-active" },
    { key := "size", optional := true,
      type := .enumeration [⟨"tab-small", "small"⟩, ⟨"tab-large wide", "large"⟩] },
    { key := "extra", optional := true, type := .string }]
  omittedIfEmpty := true

/-- Values for its keys, the flag unset. -/
def sizedTabValues (key : String) : Value :=
  if key = "size" then .string "large" else if key = "extra" then .string "mt-2" else .undefined

/-- The flag is unset: the words are those of the choice and of the free value. -/
theorem sizedTab_evaluates :
    Expressed sizedTab ["active", "size", "extra"] ∧
      (∀ b ∈ sizedTab.bindings, Fits b (sizedTabValues b.key) ∧ Distinguished b (sizedTabValues b.key)) ∧
      ∃ expression s, writeAttribute sizedTab = " className=" ++ braced expression ∧
        evaluate? (scope ["active", "size", "extra"] sizedTabValues (Draft.recordConstants [] sizedTab))
          expression = some (.string s) ∧
        words s = ["tab-large", "wide", "mt-2"] := by
  have expressed : Expressed sizedTab ["active", "size", "extra"] :=
    ⟨by decide, by decide, by decide, by decide, by decide, by decide, by decide⟩
  have fits : ∀ b ∈ sizedTab.bindings, Fits b (sizedTabValues b.key) := by decide
  have distinguished : ∀ b ∈ sizedTab.bindings, Distinguished b (sizedTabValues b.key) := by decide
  refine ⟨expressed, fun b member => ⟨fits b member, distinguished b member⟩, ?_⟩
  obtain ⟨expression, v, written, value, means, -⟩ := attribute_evaluates sizedTab ["active", "size", "extra"]
    sizedTabValues [] expressed (by decide) (by decide) fits distinguished
  have own : ownKey? sizedTab = none := rfl
  have added : contributions sizedTab sizedTabValues sizedTab.bindings = ["tab-large wide", "mt-2"] := by
    decide
  obtain ⟨s, rfl, holds⟩ : ∃ s, v = .string s ∧ Holds sizedTab.text ["tab-large wide", "mt-2"] s := by
    simpa [Means, own, added] using means
  exact ⟨expression, s, written, value, holds.words.trans (by decide)⟩

/-- A choice with a single option, alone in its attribute. -/
def choice (key option : String) : Attribute where
  name := "class"
  text := ""
  type := .string
  bindings := [{ key, optional := true, type := .enumeration [⟨"x", option⟩] }]
  omittedIfEmpty := true

/-- A free value behind a static text. -/
def labelled (key : String) : Attribute where
  name := "title"
  text := "a"
  type := .string
  bindings := [{ key, optional := true, type := .string }]
  omittedIfEmpty := false

theorem expressed_choice (key : String) (named : Script.isIdentifier key = true) (option : String) :
    Expressed (choice key option) [key] := by
  constructor <;> simp [choice, readsOptions, isHandler, KeyType.options?, named]

theorem expressed_labelled (key : String) (named : Script.isIdentifier key = true) :
    Expressed (labelled key) [key] := by
  constructor <;> simp [labelled, readsOptions, isHandler, KeyType.options?, named]

/-- What the expression of an attribute comes to while its one parameter has a value. -/
def valueOf? (a : Attribute) (parameter : String) (v : Value) : Option Value :=
  evaluate? (scope [parameter] (fun _ => v) (Draft.recordConstants [] a)) (boundValue a).write

theorem valueOf?_eq {a : Attribute} {parameter : String} (expressed : Expressed a [parameter]) (v : Value) :
    valueOf? a parameter v =
      (boundValue a).term.eval (scope [parameter] (fun _ => v) (Draft.recordConstants [] a)) :=
  evaluate?_write (nested_boundValue expressed.bound expressed.plain expressed.named) _

/-- Names that the expressions use themselves are mistaken. An unset key shows the option of the name
`undefined`, a chosen `__proto__` is no member of its table, a parameter `constants` hides the tables, and
one named `undefined` is never taken for set. -/
theorem names_mistaken :
    (Expressed (choice "size" "undefined") ["size"] ∧
      (∀ b ∈ (choice "size" "undefined").bindings, Fits b .undefined) ∧
      valueOf? (choice "size" "undefined") "size" .undefined = some (.string "x") ∧
      ¬ Means (choice "size" "undefined") (fun _ => .undefined) (.string "x")) ∧
    (Expressed (choice "size" "__proto__") ["size"] ∧
      (∀ b ∈ (choice "size" "__proto__").bindings, Fits b (.string "__proto__")) ∧
      valueOf? (choice "size" "__proto__") "size" (.string "__proto__") = some .prototype ∧
      ¬ Means (choice "size" "__proto__") (fun _ => .string "__proto__") .prototype) ∧
    (Expressed (choice "constants" "s") ["constants"] ∧
      (∀ b ∈ (choice "constants" "s").bindings, Fits b (.string "s")) ∧
      valueOf? (choice "constants" "s") "constants" (.string "s") = none) ∧
    Expressed (labelled "undefined") ["undefined"] ∧
      (∀ b ∈ (labelled "undefined").bindings, Fits b (.string "b")) ∧
      valueOf? (labelled "undefined") "undefined" (.string "b") = some (.string "a") ∧
      ¬ Means (labelled "undefined") (fun _ => .string "b") (.string "a") := by
  have unset := expressed_choice "size" (by decide) "undefined"
  have base := expressed_choice "size" (by decide) "__proto__"
  have hidden := expressed_choice "constants" (by decide) "s"
  have shadowed := expressed_labelled "undefined" (by decide)
  refine ⟨⟨unset, by decide, (valueOf?_eq unset _).trans (by decide), ?_⟩,
    ⟨base, by decide, (valueOf?_eq base _).trans (by decide), ?_⟩,
    ⟨hidden, by decide, (valueOf?_eq hidden _).trans (by decide)⟩,
    shadowed, by decide, (valueOf?_eq shadowed _).trans (by decide), ?_⟩
  · simp [Means, ownKey?, IsKey, choice, contributions, contribution, vanishes]
  · simp [Means, ownKey?, IsKey, choice, contributions, contribution]
  · rintro ⟨s, ⟨⟩, holds⟩
    exact absurd holds.words (by decide)

end Component

end Stencil
