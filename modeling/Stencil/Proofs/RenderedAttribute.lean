import Stencil.Proofs.Entries
import Stencil.Proofs.MustachePage
import Stencil.Proofs.ServerEmbedPage

/-! What a bound attribute shows on a page. The spelling nests the separators of the bindings into the
conditions of the keys before them; shown under values for the keys, it comes to the static text and
what each key that is set adds to it, with nothing but blanks in between. -/
namespace Stencil

namespace Dialect

open LogicLess

/-- The page that a text of the dialect stands for. -/
def read : Dialect → List Char → Option (List Page.Mark)
  | mustache => Mustache.read
  | serverEmbed => ServerEmbed.read

/-- The values a page is shown under. Mustache has its tables applied beforehand. -/
def view (d : Dialect) (lookup : Lookup) (values : Entries String) : Entries String :=
  match d with
  | mustache => lookup.apply values
  | serverEmbed => values

/-- What a text of the dialect shows, if it is a page. -/
def show? (d : Dialect) (lookup : Lookup) (values : Entries String) (text : String) : Option String :=
  (d.read text.toList).bind (Page.show? (d.view lookup values))

@[simp] theorem isSet_view (d : Dialect) (lookup : Lookup) (values : Entries String) (key : String) :
    Page.isSet (d.view lookup values) key = Page.isSet values key := by
  cases d with
  | mustache => exact Lookup.isSome_get?_apply lookup values key
  | serverEmbed => rfl

theorem spellAll_append (d : Dialect) (first second : List Piece) :
    d.spellAll (first ++ second) = d.spellAll first ++ d.spellAll second := by
  induction first with
  | nil => cases d <;> simp [spellAll, Mustache.spellAll, ServerEmbed.spellAll]
  | cons p first ih =>
    cases d <;>
      simp only [spellAll, List.cons_append, Mustache.spellAll, ServerEmbed.spellAll,
        String.append_assoc] at ih ⊢ <;> rw [ih]

end Dialect

namespace LogicLess

/-- No character of the text opens, closes or escapes anything in either dialect. -/
def isLiteral (s : String) : Bool := s.toList.all fun c => !"\x7b\x7d<>%\"\\".toList.contains c

theorem isLiteral_not_mem {s : String} {c : Char} (literal : isLiteral s = true)
    (special : "\x7b\x7d<>%\"\\".toList.contains c = true) : c ∉ s.toList := by
  intro member
  have free := List.all_eq_true.mp literal c member
  rw [special] at free
  cases free

theorem isPlain_literal {s : String} (literal : isLiteral s = true) : ServerEmbed.IsPlain s :=
  ⟨isLiteral_not_mem literal rfl, isLiteral_not_mem literal rfl⟩

theorem escapeQuote_literal {s : String} (literal : isLiteral s = true) : escapeQuote s = s := by
  have same : ∀ c ∈ s.toList, (if c = '"' then "&quot;" else c.toString).toList = [c] := by
    intro c member
    have other : c ≠ '"' := fun quote => isLiteral_not_mem literal rfl (quote ▸ member)
    simp [other]
  unfold escapeQuote Text.mapChars
  rw [List.flatMap_def, List.map_congr_left same, ← List.flatMap_def, List.flatMap_singleton',
    String.ofList_toList]

/-- The pieces, spelled in the dialect, show this text. -/
def Displays (d : Dialect) (view : Entries String) (pieces : List Piece) (out : String) : Prop :=
  Page.Shows d.read view (d.spellAll pieces).toList out.toList

section Displays

open Page

variable {d : Dialect} {view : Entries String} {first second body lead : List Piece}
  {key out more : String} {keys : List String} {options : List Choice}

theorem displays_nil : Displays d view [] "" := by
  cases d <;> exact shows_nil

theorem displays_append (left : Displays d view first out) (right : Displays d view second more) :
    Displays d view (first ++ second) (out ++ more) := by
  unfold Displays at *
  rw [Dialect.spellAll_append, String.toList_append, String.toList_append]
  exact shows_append left right

theorem displays_plain {s : String} (plain : ServerEmbed.IsPlain s) :
    Displays d view [.text s] s := by
  have chars : ∀ c ∈ s.toList, Reads d.read [c] [.char c] := by
    intro c member
    have angle : c ≠ '<' := fun same => plain.1 (same ▸ member)
    have brace : c ≠ '{' := fun same => plain.2 (same ▸ member)
    cases d with
    | mustache => exact Mustache.reads_char brace
    | serverEmbed => exact ServerEmbed.reads_char angle brace
  unfold Displays
  cases d <;> simpa [Dialect.spellAll, Mustache.spellAll, Mustache.spell, ServerEmbed.spellAll,
    ServerEmbed.spell] using shows_chars chars

theorem displays_text {s : String} (literal : isLiteral s = true) : Displays d view [.text s] s :=
  displays_plain (isPlain_literal literal)

theorem displays_value (named : Default.isIdentifier key = true) :
    Displays d view [.value key] ((view.get? key).getD "") := by
  unfold Displays
  cases d with
  | mustache =>
    simpa [Dialect.read, Dialect.spellAll, Mustache.spellAll, Mustache.spell] using Mustache.shows_value named
  | serverEmbed =>
    simpa [Dialect.read, Dialect.spellAll, ServerEmbed.spellAll, ServerEmbed.spell] using
      ServerEmbed.shows_value named

theorem displays_whenAny (named : ∀ key ∈ keys, Default.isIdentifier key = true) (nonempty : keys ≠ [])
    (inner : Displays d view body out) :
    Displays d view [.whenAny keys body] (if keys.any (isSet view) then out else "") := by
  unfold Displays at *
  rw [apply_ite String.toList]
  cases d with
  | mustache =>
    simpa [Dialect.read, Dialect.spellAll, Mustache.spellAll, Mustache.spell] using
      Mustache.shows_whenAny named nonempty inner
  | serverEmbed =>
    simpa [Dialect.read, Dialect.spellAll, ServerEmbed.spellAll, ServerEmbed.spell] using
      ServerEmbed.shows_whenAny named nonempty inner

theorem displays_leadFor (named : Default.isIdentifier key = true) (leads : Displays d view lead out) :
    Displays d view (leadFor key lead) (if isPlainLead lead || isSet view key then out else "") := by
  unfold leadFor
  by_cases plain : isPlainLead lead = true
  · simpa [plain] using leads
  · have alone : ∀ k ∈ [key], Default.isIdentifier k = true := by simpa using named
    simpa [plain] using displays_whenAny alone (by simp) leads

/-- In Mustache an enumeration is a value behind its lead. -/
theorem displays_oneOf_mustache (named : Default.isIdentifier key = true)
    (leads : Displays .mustache view lead out) :
    Displays .mustache view [.oneOf key options lead]
      ((if isPlainLead lead || isSet view key then out else "") ++ (view.get? key).getD "") := by
  have shows := displays_append (displays_leadFor named leads) (displays_value named)
  have same : Dialect.mustache.spellAll [.oneOf key options lead] =
      Dialect.mustache.spellAll (leadFor key lead ++ [.value key]) := by
    rw [Dialect.spellAll_append]
    by_cases plain : isPlainLead lead = true <;>
      simp [leadFor, plain, Dialect.spellAll, Mustache.spellAll, Mustache.spell]
  unfold Displays at *
  rw [same]
  exact shows

/-- A chain of comparisons shows the option that the key names, behind the lead. -/
theorem displays_oneOf_serverEmbed (named : Default.isIdentifier key = true) (nonempty : options ≠ [])
    (literal : ∀ c ∈ options, isLiteral c.name = true ∧ isLiteral c.value = true)
    (leads : Displays .serverEmbed view lead out) :
    Displays .serverEmbed view [.oneOf key options lead]
      (((options.find? fun c => view.get? key == some c.name).map (out ++ ·.value)).getD "") := by
  obtain ⟨c, rest, rfl⟩ := List.exists_cons_of_ne_nil nonempty
  have spellable : ∀ other ∈ c :: rest, ServerEmbed.Spellable other := by
    intro other member
    obtain ⟨name, value⟩ := literal other member
    refine ⟨isLiteral_not_mem name rfl, isLiteral_not_mem name rfl, ?_⟩
    rw [escapeQuote_literal value]
    exact isPlain_literal value
  have shows := ServerEmbed.shows_chain c rest named leads spellable
  unfold Displays
  cases found : (c :: rest).find? fun c => view.get? key == some c.name with
  | none =>
    simpa [found, Dialect.read, Dialect.spellAll, ServerEmbed.spellAll, ServerEmbed.spell] using shows
  | some chosen =>
    have value := (literal chosen (List.mem_of_find?_eq_some found)).2
    simpa [found, escapeQuote_literal value, Dialect.read, Dialect.spellAll, ServerEmbed.spellAll,
      ServerEmbed.spell] using shows

end Displays

/-- A binding whose key can be named on a page and whose texts are plain. -/
structure RenderableBinding (b : Binding) : Prop where
  named : Default.isIdentifier b.key = true
  literal : ∀ s ∈ b.ifTrue.toList, isLiteral s = true
  options : ∀ c ∈ b.type.options?.getD [], isLiteral c.name = true ∧ isLiteral c.value = true
  optionNames : ((b.type.options?.getD []).map (·.name)).Nodup

structure Renderable (a : Attribute) : Prop where
  name : isLiteral a.name = true
  text : isLiteral a.text = true
  keys : (a.bindings.map (·.key)).Nodup
  bindings : ∀ b ∈ a.bindings, RenderableBinding b

/-- Tables in which every enumeration of the attribute has its own. -/
structure Tabled (lookup : Lookup) (a : Attribute) : Prop where
  distinct : (Entries.names lookup).Nodup
  own : ∀ b ∈ a.bindings, ∀ options, b.type = .enumeration options →
    Entries.get? lookup b.key = some (Choice.table options)

theorem foldl_record_nodup {lookup : Lookup} (distinct : (Entries.names lookup).Nodup)
    (attributes : List Attribute) : (Entries.names (attributes.foldl Lookup.record lookup)).Nodup := by
  induction attributes generalizing lookup with
  | nil => exact distinct
  | cons a rest ih => exact ih (Lookup.foldl_recordBinding_nodup distinct a.bindings)

theorem foldl_record_other (attributes : List Attribute) (lookup : Lookup) {key : String}
    (plain : ∀ a ∈ attributes, ∀ b ∈ a.bindings, b.key = key → b.type.options? = none) :
    Entries.get? (attributes.foldl Lookup.record lookup) key = Entries.get? lookup key := by
  induction attributes generalizing lookup with
  | nil => rfl
  | cons a rest ih =>
    rw [List.foldl_cons, ih _ fun c member => plain c (List.mem_cons_of_mem a member)]
    exact Lookup.foldl_recordBinding_other a.bindings lookup (plain a (List.mem_cons_self ..))

/-- The tables of a page up to an attribute serve that attribute. -/
theorem tabled_record (earlier : List Attribute) {a : Attribute}
    (keys : (a.bindings.map (·.key)).Nodup) :
    Tabled ((earlier ++ [a]).foldl Lookup.record []) a := by
  rw [List.foldl_append]
  have empty : (Entries.names ([] : Lookup)).Nodup := List.nodup_nil
  have before := foldl_record_nodup empty earlier
  refine ⟨Lookup.foldl_recordBinding_nodup before a.bindings, ?_⟩
  intro b member options type
  change Entries.get? (a.bindings.foldl Lookup.recordBinding _) b.key = _
  rw [Lookup.get?_foldl_recordBinding a.bindings _ keys member, Lookup.recordBinding, type]
  simp [Entries.get?_put]

/-- What a key adds to the text of its attribute: nothing while it is unset, and else the literal of a
boolean, the value of the option named, or its value as the page has it. -/
def contribution (a : Attribute) (values view : Entries String) (b : Binding) : Option String :=
  match b.type with
  | .boolean => if Page.isSet values b.key then some (b.ifTrue.getD a.name) else none
  | .enumeration options =>
    (values.get? b.key).bind fun name => (options.find? (·.name == name)).map (·.value)
  | _ => view.get? b.key

/-- Whether the dialect writes the binding as a value, with nothing around it that asks for its key. -/
def interpolates (d : Dialect) (b : Binding) : Bool :=
  match d, b.type with
  | _, .boolean => false
  | .serverEmbed, .enumeration _ => false
  | _, _ => true

/-- Whether a blank stands in front of a binding. Behind static text an interpolated value has one in
any case. -/
def separated (d : Dialect) (a : Attribute) (values : Entries String) (earlier : List String)
    (b : Binding) : Bool :=
  if Page.isSet values b.key then !a.text.isEmpty || earlier.any (Page.isSet values)
  else !a.text.isEmpty && interpolates d b

def gap (stands : Bool) : String := if stands then " " else ""

/-- The text of the bindings behind the static text. -/
def shownBindings (d : Dialect) (a : Attribute) (values view : Entries String) (earlier : List String) :
    List Binding → String
  | [] => ""
  | b :: rest =>
    gap (separated d a values earlier b) ++ (contribution a values view b).getD "" ++
      shownBindings d a values view (earlier ++ [b.key]) rest

section Attribute

open Page

variable {d : Dialect} {lookup : Lookup} {values : Entries String} {a : Attribute} {b : Binding}
  {earlier : List String}

theorem isPlainLead_separator : isPlainLead (separator a earlier) =
    (!a.text.isEmpty || earlier.isEmpty) := by
  unfold separator
  cases a.text.isEmpty <;> cases earlier <;> rfl

theorem displays_separator (named : ∀ key ∈ earlier, Default.isIdentifier key = true) :
    Displays d (d.view lookup values) (separator a earlier)
      (gap (!a.text.isEmpty || earlier.any (isSet values))) := by
  have blank : Displays d (d.view lookup values) [.text " "] " " := displays_text rfl
  unfold separator
  cases empty : a.text.isEmpty with
  | false => simpa [gap] using blank
  | true =>
    cases earlier with
    | nil => simpa [gap] using displays_nil
    | cons key rest => simpa [gap] using displays_whenAny named (by simp) blank

theorem isSome_contribution (assigned : a.Assigned values) (member : b ∈ a.bindings) :
    (contribution a values (d.view lookup values) b).isSome = isSet values b.key := by
  unfold contribution
  split
  · cases isSet values b.key <;> rfl
  · rename_i options type
    cases value : values.get? b.key with
    | none => simp [isSet, value]
    | some name =>
      have offered := assigned b member options (by simp [type, KeyType.options?]) name (by simp [value])
      obtain ⟨c, choice, named⟩ := List.mem_map.mp offered
      simp only [isSet, value, Option.bind_some, Option.isSome_map, Option.isSome_some,
        List.find?_isSome]
      exact ⟨c, choice, by simpa using named⟩
  · exact Dialect.isSet_view d lookup values b.key

/-- In Mustache the tables turn the name of an option into its value. -/
theorem get?_view_enumeration (renderable : Renderable a) (tabled : Tabled lookup a)
    (assigned : a.Assigned values) (member : b ∈ a.bindings) {options : List Choice}
    (type : b.type = .enumeration options) :
    (Dialect.mustache.view lookup values).get? b.key =
      contribution a values (Dialect.mustache.view lookup values) b := by
  have names : (options.map (·.name)).Nodup := by
    simpa [type, KeyType.options?] using (renderable.bindings b member).optionNames
  have present : (contribution a values (Dialect.mustache.view lookup values) b).isSome =
      isSet values b.key := isSome_contribution assigned member
  unfold contribution at present ⊢
  simp only [type] at present ⊢
  change (lookup.apply values).get? b.key = _
  rw [Lookup.get?_apply tabled.distinct, tabled.own b member options type]
  cases value : values.get? b.key with
  | none => rfl
  | some name =>
    simp only [isSet, value, Option.bind_some, Option.isSome_map, Option.isSome_some] at present
    obtain ⟨c, found⟩ := Option.isSome_iff_exists.mp present
    simp [Choice.get?_table names, found]

/-- The lead of an interpolated value, which stands with the key unless it is plain. -/
theorem gap_interpolated (plain : interpolates d b = true) :
    (if isPlainLead (separator a earlier) || isSet (d.view lookup values) b.key then
        gap (!a.text.isEmpty || earlier.any (isSet values)) else "") =
      gap (separated d a values earlier b) := by
  rw [isPlainLead_separator, Dialect.isSet_view]
  unfold separated
  cases isSet values b.key <;> cases a.text.isEmpty <;> cases earlier <;> simp [gap, plain]

theorem displays_boolean (renderable : Renderable a) (member : b ∈ a.bindings)
    (leads : Displays d (d.view lookup values) (separator a earlier)
      (gap (!a.text.isEmpty || earlier.any (isSet values)))) (type : b.type = .boolean) :
    Displays d (d.view lookup values)
      [.whenAny [b.key] (separator a earlier ++ [.text (escapeQuote (b.ifTrue.getD a.name))])]
      (gap (separated d a values earlier b) ++
        (contribution a values (d.view lookup values) b).getD "") := by
  have here := renderable.bindings b member
  have literal : isLiteral (b.ifTrue.getD a.name) = true := by
    cases ifTrue : b.ifTrue with
    | none => exact renderable.name
    | some s => exact here.literal s (by simp [ifTrue])
  have alone : ∀ key ∈ [b.key], Default.isIdentifier key = true := by simpa using here.named
  have shows := displays_whenAny alone (by simp) (displays_append leads (displays_text literal))
  rw [escapeQuote_literal literal]
  cases set : isSet values b.key <;>
    simpa [set, separated, contribution, type, interpolates, gap] using shows

theorem find?_chosen (options : List Choice) (value : Option String) :
    (options.find? fun c => value == some c.name) = value.bind fun name =>
      options.find? (·.name == name) := by
  cases value with
  | none => simp
  | some name =>
    rw [Option.bind_some]
    congr
    funext c
    rw [Option.some_beq_some, Bool.beq_comm]

theorem displays_chain (renderable : Renderable a) (assigned : a.Assigned values)
    (member : b ∈ a.bindings)
    (leads : Displays .serverEmbed (Dialect.serverEmbed.view lookup values) (separator a earlier)
      (gap (!a.text.isEmpty || earlier.any (isSet values))))
    {options : List Choice} (type : b.type = .enumeration options) (nonempty : options ≠ []) :
    Displays .serverEmbed (Dialect.serverEmbed.view lookup values)
      [.oneOf b.key options (separator a earlier)]
      (gap (separated .serverEmbed a values earlier b) ++
        (contribution a values (Dialect.serverEmbed.view lookup values) b).getD "") := by
  have here := renderable.bindings b member
  have literal : ∀ c ∈ options, isLiteral c.name = true ∧ isLiteral c.value = true := by
    simpa [type, KeyType.options?] using here.options
  have present : (contribution a values (Dialect.serverEmbed.view lookup values) b).isSome =
      isSet values b.key := isSome_contribution assigned member
  have shows := displays_oneOf_serverEmbed here.named nonempty literal leads
  unfold contribution at present ⊢
  simp only [type, Dialect.view] at present shows ⊢
  rw [find?_chosen] at shows
  cases value : values.get? b.key with
  | none => simpa [value, separated, isSet, interpolates, type, gap] using shows
  | some name =>
    simp only [isSet, value, Option.bind_some, Option.isSome_map, Option.isSome_some] at present
    obtain ⟨c, found⟩ := Option.isSome_iff_exists.mp present
    simpa [value, found, separated, isSet] using shows

/-- One binding, in either dialect and of every type. -/
theorem displays_binding (renderable : Renderable a) (tabled : Tabled lookup a)
    (assigned : a.Assigned values) (inhabited : d = .serverEmbed → b.type ≠ .enumeration [])
    (member : b ∈ a.bindings) (before : ∀ key ∈ earlier, Default.isIdentifier key = true) :
    Displays d (d.view lookup values) (bindingPieces a b (separator a earlier))
      (gap (separated d a values earlier b) ++
        (contribution a values (d.view lookup values) b).getD "") := by
  have named := (renderable.bindings b member).named
  have leads : Displays d (d.view lookup values) (separator a earlier) _ := displays_separator before
  unfold bindingPieces
  split
  · rename_i type
    exact displays_boolean renderable member leads type
  · rename_i options type
    cases d with
    | mustache =>
      have shows : Displays .mustache _ [.oneOf b.key options (separator a earlier)] _ :=
        displays_oneOf_mustache named leads
      rw [gap_interpolated (by simp [interpolates, type]),
        get?_view_enumeration renderable tabled assigned member type] at shows
      exact shows
    | serverEmbed =>
      have nonempty : options ≠ [] := fun none => inhabited rfl (none ▸ type)
      exact displays_chain renderable assigned member leads type nonempty
  · rename_i boolean enumeration
    have shows := displays_append (displays_leadFor named leads) (displays_value named)
    rw [gap_interpolated (by unfold interpolates; split <;> simp_all)] at shows
    have own : contribution a values (d.view lookup values) b = (d.view lookup values).get? b.key := by
      unfold contribution
      split <;> simp_all
    rwa [own]

theorem displays_bindings (renderable : Renderable a) (tabled : Tabled lookup a)
    (assigned : a.Assigned values) (bindings : List Binding)
    (inhabited : d = .serverEmbed → ∀ b ∈ bindings, b.type ≠ .enumeration [])
    (members : ∀ b ∈ bindings, b ∈ a.bindings)
    (before : ∀ key ∈ earlier, Default.isIdentifier key = true) :
    Displays d (d.view lookup values) (bindingsPieces a earlier bindings)
      (shownBindings d a values (d.view lookup values) earlier bindings) := by
  induction bindings generalizing earlier with
  | nil => exact displays_nil
  | cons b rest ih =>
    have member := members b (List.mem_cons_self ..)
    have here := displays_binding renderable tabled assigned
      (fun dialect => inhabited dialect b (List.mem_cons_self ..)) member before
    have through : ∀ key ∈ earlier ++ [b.key], Default.isIdentifier key = true := by
      intro key known
      rcases List.mem_append.mp known with old | new
      · exact before key old
      · exact List.mem_singleton.mp new ▸ (renderable.bindings b member).named
    have later := ih (fun dialect c known => inhabited dialect c (List.mem_cons_of_mem b known))
      (fun c known => members c (List.mem_cons_of_mem b known)) through
    exact displays_append here later

def shownText (d : Dialect) (a : Attribute) (values view : Entries String) : String :=
  a.text ++ shownBindings d a values view [] a.bindings

def isOmitted (a : Attribute) (values : Entries String) : Bool :=
  a.omittedIfEmpty && !a.bindings.isEmpty && !a.bindings.any fun b => isSet values b.key

theorem displays_attribute (renderable : Renderable a) (tabled : Tabled lookup a)
    (assigned : a.Assigned values)
    (inhabited : d = .serverEmbed → ∀ b ∈ a.bindings, b.type ≠ .enumeration []) :
    Displays d (d.view lookup values) (attributePieces a)
      (if isOmitted a values then ""
        else " " ++ a.name ++ "=\"" ++ shownText d a values (d.view lookup values) ++ "\"") := by
  have opening : ServerEmbed.IsPlain (" " ++ a.name ++ "=\"" ++ a.text) := by
    have name := isPlain_literal renderable.name
    have text := isPlain_literal renderable.text
    simp [ServerEmbed.IsPlain, name.1, name.2, text.1, text.2]
  have closing : ServerEmbed.IsPlain "\"" := by simp [ServerEmbed.IsPlain]
  have none : ∀ key ∈ ([] : List String), Default.isIdentifier key = true := by simp
  have bindings := displays_bindings renderable tabled assigned a.bindings inhabited
    (fun _ member => member) none
  have shows := displays_append (displays_append (displays_plain opening) bindings)
    (displays_plain closing)
  have written : Displays d (d.view lookup values)
      (.text (" " ++ a.name ++ "=\"" ++ a.text) :: bindingsPieces a [] a.bindings ++ [.text "\""])
      (" " ++ a.name ++ "=\"" ++ shownText d a values (d.view lookup values) ++ "\"") := by
    simpa [shownText, String.append_assoc] using shows
  unfold attributePieces isOmitted
  rw [escapeQuote_literal renderable.text]
  by_cases optional : (a.omittedIfEmpty && !a.bindings.isEmpty) = true
  · have named : ∀ key ∈ a.bindings.map (·.key), Default.isIdentifier key = true := by
      intro key member
      obtain ⟨b, known, rfl⟩ := List.mem_map.mp member
      exact (renderable.bindings b known).named
    have nonempty : a.bindings.map (·.key) ≠ [] := by simp_all
    have inside := displays_whenAny named nonempty written
    simp only [List.any_map, Function.comp_def, Dialect.isSet_view] at inside
    rw [if_pos optional, optional]
    cases set : a.bindings.any fun b => isSet values b.key <;> rw [set] at inside <;> exact inside
  · simpa [optional] using written

def contributions (a : Attribute) (values view : Entries String) (bindings : List Binding) :
    List String :=
  bindings.filterMap (contribution a values view)

section Text

variable {view : Entries String} {bindings : List Binding}

theorem words_gap (front rest : String) (stands : Bool)
    (apart : front = "" ∨ rest = "" ∨ stands = true) :
    Text.words (front ++ gap stands ++ rest) = Text.words front ++ Text.words rest := by
  cases stands with
  | true => exact Text.words_append_space front rest
  | false =>
    rcases apart with rfl | rfl | stands
    · simp [gap]
    · simp [gap]
    · cases stands

/-- The words of the bindings come after those of a text in front of them. Without static text and with
every earlier key unset there is no blank before the first of them, but no text either. -/
theorem words_shownBindings (front : String)
    (set : ∀ b ∈ bindings, (contribution a values view b).isSome = isSet values b.key)
    (apart : front = "" ∨ a.text.isEmpty = false ∨ earlier.any (isSet values) = true) :
    Text.words (front ++ shownBindings d a values view earlier bindings) =
      Text.words front ++ (contributions a values view bindings).flatMap Text.words := by
  induction bindings generalizing front earlier with
  | nil => simp [shownBindings, contributions]
  | cons b rest ih =>
    have here := set b (List.mem_cons_self ..)
    have later := fun c member => set c (List.mem_cons_of_mem b member)
    simp only [shownBindings, ← String.append_assoc]
    cases added : contribution a values view b with
    | none =>
      have unset : isSet values b.key = false := by simpa [added] using here.symm
      have next : front ++ gap (separated d a values earlier b) ++ "" = "" ∨ a.text.isEmpty = false ∨
          (earlier ++ [b.key]).any (isSet values) = true := by
        rcases apart with rfl | text | any
        · cases empty : a.text.isEmpty <;> simp [separated, unset, empty, gap]
        · exact Or.inr (Or.inl text)
        · exact Or.inr (Or.inr (by simp [any]))
      rw [Option.getD_none, ih _ later next, words_gap front "" _ (Or.inr (Or.inl rfl))]
      simp [contributions, added]
    | some text =>
      have present : isSet values b.key = true := by simpa [added] using here.symm
      have blank : front = "" ∨ text = "" ∨ separated d a values earlier b = true :=
        apart.imp_right fun known => Or.inr (by simpa [separated, present] using known)
      rw [Option.getD_some, ih _ later (Or.inr (Or.inr (by simp [present]))), words_gap front text _ blank]
      simp [contributions, added]

/-- Behind a key that is set, every contribution has a blank in front. -/
theorem shownBindings_joinOnto (front : String) (empty : a.text.isEmpty = true)
    (set : ∀ b ∈ bindings, (contribution a values view b).isSome = isSet values b.key)
    (any : earlier.any (isSet values) = true) :
    front ++ shownBindings d a values view earlier bindings =
      Text.joinOnto " " front (contributions a values view bindings) := by
  induction bindings generalizing front earlier with
  | nil => simp [shownBindings, contributions, Text.joinOnto]
  | cons b rest ih =>
    have here := set b (List.mem_cons_self ..)
    have later := fun c member => set c (List.mem_cons_of_mem b member)
    have next : (earlier ++ [b.key]).any (isSet values) = true := by simp [any]
    simp only [shownBindings, ← String.append_assoc]
    rw [ih _ later next]
    cases added : contribution a values view b with
    | none =>
      have unset : isSet values b.key = false := by simpa [added] using here.symm
      simp [contributions, added, separated, unset, empty, gap]
    | some text =>
      have present : isSet values b.key = true := by simpa [added] using here.symm
      simp [contributions, added, separated, present, any, gap, Text.joinOnto]

/-- Without static text the contributions are joined by single blanks. -/
theorem shownBindings_join (empty : a.text.isEmpty = true)
    (set : ∀ b ∈ bindings, (contribution a values view b).isSome = isSet values b.key)
    (none : earlier.any (isSet values) = false) :
    shownBindings d a values view earlier bindings =
      Text.join " " (contributions a values view bindings) := by
  induction bindings generalizing earlier with
  | nil => rfl
  | cons b rest ih =>
    have here := set b (List.mem_cons_self ..)
    have later := fun c member => set c (List.mem_cons_of_mem b member)
    cases added : contribution a values view b with
    | none =>
      have unset : isSet values b.key = false := by simpa [added] using here.symm
      have next : (earlier ++ [b.key]).any (isSet values) = false := by
        rw [List.any_append, none]
        simp [unset]
      simp [shownBindings, contributions, added, separated, unset, empty, gap, ih later next]
    | some text =>
      have present : isSet values b.key = true := by simpa [added] using here.symm
      have next : (earlier ++ [b.key]).any (isSet values) = true := by simp [present]
      have joined := shownBindings_joinOnto (d := d) text empty later next
      simpa [shownBindings, contributions, added, separated, present, empty, none, gap, Text.join]
        using joined

/-- The page adds nothing but blanks to what the keys do. -/
theorem mem_shownBindings {c : Char}
    (member : c ∈ (shownBindings d a values view earlier bindings).toList) :
    c = ' ' ∨ ∃ s ∈ contributions a values view bindings, c ∈ s.toList := by
  induction bindings generalizing earlier with
  | nil => simp [shownBindings] at member
  | cons b rest ih =>
    simp only [shownBindings, String.toList_append, List.mem_append] at member
    rcases member with (blank | added) | later
    · cases stands : separated d a values earlier b <;> simp [stands, gap] at blank
      exact Or.inl blank
    · cases here : contribution a values view b with
      | none => simp [here] at added
      | some text => exact Or.inr ⟨text, by simp [contributions, here], by simpa [here] using added⟩
    · refine (ih later).imp_right ?_
      rintro ⟨s, known, inside⟩
      refine ⟨s, ?_, inside⟩
      simp only [contributions, List.mem_filterMap] at known ⊢
      obtain ⟨c, old, same⟩ := known
      exact ⟨c, List.mem_cons_of_mem b old, same⟩

end Text

end Attribute

theorem isOmitted_iff (a : Attribute) (values : Entries String) :
    isOmitted a values = true ↔ a.omittedIfEmpty = true ∧ a.bindings ≠ [] ∧
      ∀ b ∈ a.bindings, values.get? b.key = none := by
  simp [isOmitted, Page.isSet, and_assoc]

/-- A key without options anywhere on the page is shown as it is. -/
theorem get?_view_plain (d : Dialect) {attributes : List Attribute} (values : Entries String)
    {key : String} (plain : ∀ a ∈ attributes, ∀ b ∈ a.bindings, b.key = key → b.type.options? = none) :
    (d.view (attributes.foldl Lookup.record []) values).get? key = values.get? key := by
  have empty : (Entries.names ([] : Lookup)).Nodup := List.nodup_nil
  cases d with
  | mustache =>
    change (Lookup.apply _ values).get? key = _
    rw [Lookup.get?_apply (foldl_record_nodup empty attributes), foldl_record_other attributes [] plain]
    rfl
  | serverEmbed => rfl

/-- A renderable attribute shows as a whole or not at all. It is left out exactly when it may be, has
keys, and none of them is set; else its words are those of the static text and then those of each key
that is set, in order, and nothing but blanks stands between them. A server embed has no way to write a
choice between no options. -/
theorem attribute_shown (d : Dialect) (earlier : List Attribute) (a : Attribute)
    (values : Entries String) (renderable : Renderable a) (assigned : a.Assigned values)
    (inhabited : d = .serverEmbed → ∀ b ∈ a.bindings, b.type ≠ .enumeration []) :
    let lookup := (earlier ++ [a]).foldl Lookup.record []
    let added := contributions a values (d.view lookup values) a.bindings
    (∀ key, (∀ other ∈ earlier ++ [a], ∀ b ∈ other.bindings, b.key = key → b.type.options? = none) →
      (d.view lookup values).get? key = values.get? key) ∧
    ∃ shown, d.show? lookup values (d.spellAll (attributePieces a)) = some shown ∧
      (shown = "" ↔ a.omittedIfEmpty = true ∧ a.bindings ≠ [] ∧
        ∀ b ∈ a.bindings, values.get? b.key = none) ∧
      (shown ≠ "" → ∃ text, shown = " " ++ a.name ++ "=\"" ++ text ++ "\"" ∧
        Text.words text = Text.words a.text ++ added.flatMap Text.words ∧
        a.text.toList <+: text.toList ∧
        (a.text = "" → text = Text.join " " added) ∧
        ∀ c ∈ text.toList, c = ' ' ∨ c ∈ a.text.toList ∨ ∃ s ∈ added, c ∈ s.toList) := by
  intro lookup added
  have tabled : Tabled lookup a := tabled_record earlier renderable.keys
  have displays := displays_attribute renderable tabled assigned inhabited
  have ends : d.read [] = some [] := by
    cases d with
    | mustache => exact Mustache.read.eq_1
    | serverEmbed => exact ServerEmbed.read.eq_1
  have shows := Page.bind_show?_of_shows ends displays
  rw [String.ofList_toList] at shows
  have set : ∀ b ∈ a.bindings, (contribution a values (d.view lookup values) b).isSome =
      Page.isSet values b.key := fun b member => isSome_contribution assigned member
  refine ⟨fun key plain => get?_view_plain d values plain, _, shows, ?_, ?_⟩
  · rw [← isOmitted_iff]
    by_cases omitted : isOmitted a values = true <;> simp [omitted]
  · intro nonempty
    have stands : ¬isOmitted a values = true := fun omitted => nonempty (if_pos omitted)
    refine ⟨shownText d a values (d.view lookup values), if_neg stands, ?_, ?_, ?_, ?_⟩
    · have apart : a.text = "" ∨ a.text.isEmpty = false ∨ ([] : List String).any (Page.isSet values) = true := by
        cases empty : a.text.isEmpty with
        | true => exact Or.inl (String.isEmpty_iff.mp empty)
        | false => exact Or.inr (Or.inl rfl)
      exact words_shownBindings a.text set apart
    · rw [shownText, String.toList_append]
      exact List.prefix_append ..
    · intro empty
      rw [shownText, empty, String.empty_append]
      exact shownBindings_join (String.isEmpty_iff.mpr empty) set rfl
    · intro c member
      rw [shownText, String.toList_append, List.mem_append] at member
      rcases member with text | bindings
      · exact Or.inr (Or.inl text)
      · exact (mem_shownBindings bindings).imp_right Or.inr

/-- Static text, a flag, a choice and a free value in one attribute. -/
def sizedButton : Attribute where
  name := "class"
  text := "btn"
  type := .string
  bindings := [
    { key := "active", optional := true, type := .boolean, ifTrue := some "is-active" },
    { key := "size", optional := true,
      type := .enumeration [⟨"btn-small", "small"⟩, ⟨"btn-large wide", "large"⟩] },
    { key := "extra", optional := true, type := .string }]
  omittedIfEmpty := true

theorem sizedButton_renderable : Renderable sizedButton := by
  refine ⟨rfl, rfl, by decide, ?_⟩
  simp only [sizedButton, List.forall_mem_cons, List.not_mem_nil, false_imp_iff, implies_true, and_true]
  refine ⟨⟨rfl, by decide, by decide, by decide⟩, ⟨rfl, by decide, by decide, by decide⟩,
    ⟨rfl, by decide, by decide, by decide⟩⟩

/-- The flag is unset, the choice has two words, and the value comes last. -/
theorem sizedButton_shown :
    Renderable sizedButton ∧ sizedButton.Assigned [("size", "large"), ("extra", "mt-2")] ∧
      (∀ b ∈ sizedButton.bindings, b.type ≠ .enumeration []) ∧
      ∃ text, Dialect.serverEmbed.show? ([sizedButton].foldl Lookup.record [])
          [("size", "large"), ("extra", "mt-2")]
          (Dialect.serverEmbed.spellAll (attributePieces sizedButton)) =
            some (" class=\"" ++ text ++ "\"") ∧
        Text.words text = ["btn", "btn-large", "wide", "mt-2"] := by
  have assigned : sizedButton.Assigned [("size", "large"), ("extra", "mt-2")] := by decide
  have inhabited : ∀ b ∈ sizedButton.bindings, b.type ≠ .enumeration [] := by decide
  obtain ⟨-, shown, shows, omitted, stands⟩ := attribute_shown .serverEmbed [] sizedButton
    [("size", "large"), ("extra", "mt-2")] sizedButton_renderable assigned fun _ => inhabited
  have nonempty : shown ≠ "" := fun none => absurd (omitted.mp none).2.2 (by decide)
  obtain ⟨text, rfl, words, -⟩ := stands nonempty
  exact ⟨sizedButton_renderable, assigned, inhabited, text, shows, words.trans (by decide)⟩

/-- An attribute whose one key has nothing to choose from. -/
def choiceOfNone : Attribute where
  name := "class"
  text := ""
  type := .string
  bindings := [{ key := "size", optional := true, type := .enumeration [] }]
  omittedIfEmpty := true

/-- Without options a server embed closes a block that it has not opened. The key is unset and the
attribute could be left out, but there is no page. -/
theorem choiceOfNone_not_shown :
    Renderable choiceOfNone ∧ choiceOfNone.Assigned [] ∧ choiceOfNone.omittedIfEmpty = true ∧
      choiceOfNone.bindings ≠ [] ∧
      Dialect.serverEmbed.show? ([choiceOfNone].foldl Lookup.record []) []
        (Dialect.serverEmbed.spellAll (attributePieces choiceOfNone)) = none := by
  have renderable : Renderable choiceOfNone := by
    refine ⟨rfl, rfl, by decide, ?_⟩
    simp only [choiceOfNone, List.forall_mem_singleton]
    exact ⟨rfl, by decide, by decide, by decide⟩
  refine ⟨renderable, by decide, rfl, by decide, ?_⟩
  have named : ∀ k ∈ ["size"], Default.isIdentifier k = true := by decide
  have opening := ServerEmbed.reads_plain (s := " class=\"") ⟨by decide, by decide⟩
  have quote := ServerEmbed.reads_plain (s := "\"") ⟨by decide, by decide⟩
  have reads := Page.reads_append (ServerEmbed.reads_openIf named) (Page.reads_append opening
    (Page.reads_append ServerEmbed.reads_closeIf (Page.reads_append quote ServerEmbed.reads_closeIf)))
  have spelled : (Dialect.serverEmbed.spellAll (attributePieces choiceOfNone)).toList =
      (ServerEmbed.openIf (Text.join " || " (["size"].map ("$" ++ ·)))).toList ++ (" class=\"".toList ++
        (ServerEmbed.closeIf.toList ++ ("\"".toList ++ ServerEmbed.closeIf.toList))) ++ [] := by
    decide
  unfold Dialect.show?
  rw [spelled]
  change (ServerEmbed.read _).bind _ = _
  rw [reads [], ServerEmbed.read.eq_1]
  rfl

end LogicLess

end Stencil
