import Stencil.LogicLess.Draft
import Stencil.Proofs.ServerEmbedPage

/-! Literals in server-embed statements. A statement compares a key with a literal between quotes, where the
character behind a backslash stands for itself. The value of a condition is written with backslashes, so
it is read back whatever it holds; the names of options are written as they are, so they are read back
exactly as long as there is no quote and no backslash in them. -/
namespace Stencil.LogicLess.ServerEmbed

/-- A piece of written text. Of a literal it is known what was put between its quotes, and for which value. -/
inductive Segment where
  | text (content : String)
  | literal (written value : String)
  deriving DecidableEq, Repr

namespace Segment

def write : Segment → String
  | text content => content
  | literal written _ => "\"" ++ written ++ "\""

def writeAll (segments : List Segment) : String := Text.concat (segments.map write)

def value? : Segment → Option String
  | text _ => none
  | literal _ value => some value

/-- The values of the literals, in the order in which they are written. -/
def values (segments : List Segment) : List String := segments.filterMap value?

/-- Each literal, read from behind its opening quote, ends at the closing quote that was written for it
and comes to its value. -/
def ReadBack (segments : List Segment) : Prop :=
  ∀ before written value after, segments = before ++ literal written value :: after →
    quoted? (written.toList ++ '"' :: (writeAll after).toList) =
      some (value.toList, (writeAll after).toList)

@[simp] theorem writeAll_nil : writeAll [] = "" := rfl

@[simp] theorem writeAll_cons (s : Segment) (rest : List Segment) :
    writeAll (s :: rest) = s.write ++ writeAll rest := Text.concat_cons _ _

@[simp] theorem writeAll_append (first second : List Segment) :
    writeAll (first ++ second) = writeAll first ++ writeAll second := by
  induction first with
  | nil => simp
  | cons s first ih => simp [ih, String.append_assoc]

@[simp] theorem values_nil : values [] = [] := rfl

@[simp] theorem values_text (content : String) (rest : List Segment) :
    values (text content :: rest) = values rest := rfl

@[simp] theorem values_literal (written value : String) (rest : List Segment) :
    values (literal written value :: rest) = value :: values rest := rfl

@[simp] theorem values_append (first second : List Segment) :
    values (first ++ second) = values first ++ values second := List.filterMap_append

end Segment

open Segment

/-- The statement that opens a condition. -/
def conditionSegments (c : Condition) : List Segment :=
  match c.comparison with
  | none => [.text (openIf ("$" ++ c.key))]
  | some (comparison, value) =>
    let operator := match comparison with
      | .equals => "=="
      | .notEquals => "!="
    [.text ("<% if $" ++ c.key ++ " " ++ operator ++ " "), .literal (escapeQuoted value) value, .text " %>"]

/-- A chain of options: one statement for each, with the option's name as its literal. -/
def chainSegments (key : String) (lead : List Segment) (keyword : String) : List Choice → List Segment
  | [] => [.text closeIf]
  | c :: rest =>
    [.text ("<% " ++ keyword ++ " $" ++ key ++ " == "), .literal c.name c.name, .text " %>"] ++ lead ++
      .text (escapeQuote c.value) :: chainSegments key lead "else_if" rest

mutual

def pieceSegments : Piece → List Segment
  | .text s => [.text s]
  | .value key => [.text (value key)]
  | .oneOf key options lead => chainSegments key (piecesSegments lead) "if" options
  | .whenAny keys body =>
    .text (openIf (Text.join " || " (keys.map ("$" ++ ·)))) :: (piecesSegments body ++ [.text closeIf])

def piecesSegments : List Piece → List Segment
  | [] => []
  | p :: rest => pieceSegments p ++ piecesSegments rest

end

/-! The segments are what is written. -/

theorem opening_eq_segments (d : Draft) (c : Condition) (dialect : d.dialect = .serverEmbed) :
    d.opening c = .ok (writeAll (conditionSegments c)) := by
  unfold Draft.opening conditionSegments
  rw [dialect]
  cases c.comparison with
  | none => simp [Segment.write]
  | some comparison =>
    obtain ⟨comparison, value⟩ := comparison
    apply congrArg Except.ok
    apply String.toList_injective
    cases comparison <;> simp [Segment.write, openIf]

theorem chain_eq_segments (key : String) (lead : List Segment) (keyword : String) (options : List Choice) :
    chain key (writeAll lead) keyword options = writeAll (chainSegments key lead keyword options) := by
  induction options generalizing keyword with
  | nil => exact String.append_empty.symm
  | cons c rest ih =>
    apply String.toList_injective
    rw [chain_cons, ih]
    simp [chainSegments, Segment.write]

mutual

theorem spell_eq_segments : (p : Piece) → spell p = writeAll (pieceSegments p)
  | .text s => by simp [spell, pieceSegments, Segment.write]
  | .value key => by simp [spell, pieceSegments, Segment.write]
  | .oneOf key options lead => by
    rw [spell, pieceSegments, spellAll_eq_segments lead, chain_eq_segments]
  | .whenAny keys body => by
    rw [spell, pieceSegments, spellAll_eq_segments body]
    simp [Segment.write, String.append_assoc]

theorem spellAll_eq_segments : (ps : List Piece) → spellAll ps = writeAll (piecesSegments ps)
  | [] => rfl
  | p :: rest => by
    rw [spellAll, piecesSegments, spell_eq_segments p, spellAll_eq_segments rest, writeAll_append]

end

theorem piecesSegments_append (first second : List Piece) :
    piecesSegments (first ++ second) = piecesSegments first ++ piecesSegments second := by
  induction first with
  | nil => rfl
  | cons p first ih => simp [piecesSegments, ih]

/-! The literals of an attribute are the names of its options. -/

/-- The names of the options of an attribute, key by key. -/
def optionNames (a : Attribute) : List String :=
  a.bindings.flatMap fun b => (b.type.options?.getD []).map (·.name)

theorem values_chainSegments {lead : List Segment} (plain : values lead = []) (key keyword : String)
    (options : List Choice) : values (chainSegments key lead keyword options) = options.map (·.name) := by
  induction options generalizing keyword with
  | nil => rfl
  | cons c rest ih =>
    simp [chainSegments, plain, ih]

theorem values_separator (a : Attribute) (earlier : List String) :
    values (piecesSegments (separator a earlier)) = [] := by
  unfold separator
  split
  · rfl
  · split <;> rfl

theorem values_leadFor {lead : List Piece} (plain : values (piecesSegments lead) = []) (key : String) :
    values (piecesSegments (leadFor key lead)) = [] := by
  unfold leadFor
  split
  · exact plain
  · simp [piecesSegments, pieceSegments, plain]

theorem values_bindingPieces (a : Attribute) (b : Binding) {lead : List Piece}
    (plain : values (piecesSegments lead) = []) :
    values (piecesSegments (bindingPieces a b lead)) = (b.type.options?.getD []).map (·.name) := by
  unfold bindingPieces
  split
  · rename_i kind
    simp [kind, KeyType.options?, piecesSegments, pieceSegments, piecesSegments_append, plain]
  · rename_i options kind
    simp [kind, KeyType.options?, piecesSegments, pieceSegments, values_chainSegments plain]
  · rename_i other
    have none : b.type.options? = none := by
      cases kind : b.type with
      | enumeration options => exact absurd kind (other options)
      | _ => rfl
    simp [none, piecesSegments, pieceSegments, piecesSegments_append, values_leadFor plain]

theorem values_bindingsPieces (a : Attribute) (earlier : List String) (bindings : List Binding) :
    values (piecesSegments (bindingsPieces a earlier bindings)) =
      bindings.flatMap fun b => (b.type.options?.getD []).map (·.name) := by
  induction bindings generalizing earlier with
  | nil => rfl
  | cons b rest ih =>
    rw [bindingsPieces, piecesSegments_append, values_append, ih,
      values_bindingPieces a b (values_separator a earlier), List.flatMap_cons]

theorem values_attributePieces (a : Attribute) :
    values (piecesSegments (attributePieces a)) = optionNames a := by
  have bound := values_bindingsPieces a [] a.bindings
  unfold attributePieces optionNames
  dsimp only
  split <;> simp [piecesSegments, pieceSegments, piecesSegments_append, bound]

/-- Literals that are written as they are. -/
def Verbatim (segments : List Segment) : Prop :=
  ∀ written value, .literal written value ∈ segments → written = value

theorem Verbatim.append {first second : List Segment} (one : Verbatim first) (two : Verbatim second) :
    Verbatim (first ++ second) := by
  intro written value member
  rcases List.mem_append.mp member with here | later
  · exact one written value here
  · exact two written value later

theorem Verbatim.text {segments : List Segment} (verbatim : Verbatim segments) (content : String) :
    Verbatim (.text content :: segments) := by
  intro written value member
  exact verbatim written value (by simpa using member)

theorem verbatim_nil : Verbatim [] := by simp [Verbatim]

theorem verbatim_chainSegments {lead : List Segment} (verbatim : Verbatim lead) (key keyword : String)
    (options : List Choice) : Verbatim (chainSegments key lead keyword options) := by
  induction options generalizing keyword with
  | nil => exact verbatim_nil.text _
  | cons c rest ih =>
    have name : Verbatim [.literal c.name c.name, .text " %>"] := by
      intro written value member
      have same : written = c.name ∧ value = c.name := by simpa using member
      rw [same.1, same.2]
    exact ((name.text _).append verbatim).append ((ih "else_if").text _)

mutual

theorem verbatim_piece : (p : Piece) → Verbatim (pieceSegments p)
  | .text s => verbatim_nil.text s
  | .value key => verbatim_nil.text (value key)
  | .oneOf key options lead => verbatim_chainSegments (verbatim_pieces lead) key "if" options
  | .whenAny _ body => ((verbatim_pieces body).append (verbatim_nil.text closeIf)).text _

theorem verbatim_pieces : (ps : List Piece) → Verbatim (piecesSegments ps)
  | [] => verbatim_nil
  | p :: rest => (verbatim_piece p).append (verbatim_pieces rest)

end

/-! Reading literals -/

theorem quoted?_escape (c : Char) (rest : List Char) :
    quoted? ((if c = '\\' then "\\\\" else if c = '"' then "\\\"" else c.toString).toList ++ rest) =
      (quoted? rest).map fun p => (c :: p.1, p.2) := by
  split
  · rename_i slash
    rw [slash]
    rfl
  · rename_i slash
    split
    · rename_i quote
      rw [quote]
      rfl
    · rename_i quote
      rw [Char.toString, String.toList_singleton, List.singleton_append, quoted?.eq_def]
      simp [slash]

theorem quoted?_escapeQuoted (value : String) (rest : List Char) :
    quoted? ((escapeQuoted value).toList ++ '"' :: rest) = some (value.toList, rest) := by
  rw [escapeQuoted, Text.mapChars, String.toList_ofList]
  induction value.toList with
  | nil => rfl
  | cons c cs ih =>
    rw [List.flatMap_cons, List.append_assoc, quoted?_escape, ih]
    rfl

/-- Escapes only make a literal longer: one that is as short as its value has none. -/
theorem unescaped_of_quoted? {s text rest : List Char} (read : quoted? s = some (text, rest)) :
    text.length + rest.length + 1 ≤ s.length ∧
      (text.length + rest.length + 1 = s.length → '"' ∉ text ∧ '\\' ∉ text) := by
  fun_induction quoted? s generalizing text with
  | case1 => cases read
  | case2 rest' =>
    cases read
    simp
  | case3 c s ih =>
    obtain ⟨⟨inner, after⟩, found, same⟩ := Option.map_eq_some_iff.mp read
    cases same
    have shorter := (ih found).1
    simp only [List.length_cons]
    omega
  | case4 c s quote slash ih =>
    obtain ⟨⟨inner, after⟩, found, same⟩ := Option.map_eq_some_iff.mp read
    cases same
    obtain ⟨shorter, plain⟩ := ih found
    simp only [List.length_cons]
    refine ⟨by omega, fun exact => ?_⟩
    obtain ⟨unquoted, unescaped⟩ := plain (by omega)
    have here : c ≠ '\\' := by
      rintro rfl
      cases s with
      | nil => cases found
      | cons d s => exact slash d s rfl rfl
    exact ⟨by simp [unquoted, Ne.symm quote], by simp [unescaped, Ne.symm here]⟩

theorem quoted?_verbatim_iff (value : String) (rest : List Char) :
    quoted? (value.toList ++ '"' :: rest) = some (value.toList, rest) ↔
      '"' ∉ value.toList ∧ '\\' ∉ value.toList := by
  refine ⟨fun read => (unescaped_of_quoted? read).2 (by simp; omega), fun plain => ?_⟩
  exact quoted?_append rest plain.1 plain.2

/-- Segments that are written as they are are read back exactly if no value has a quote or a backslash. -/
theorem readBack_iff_of_verbatim {segments : List Segment} (verbatim : Verbatim segments) :
    ReadBack segments ↔ ∀ value ∈ values segments, '"' ∉ value.toList ∧ '\\' ∉ value.toList := by
  constructor
  · intro readBack value member
    obtain ⟨segment, inside, found⟩ := List.mem_filterMap.mp member
    cases segment with
    | text content => cases found
    | literal written value' =>
      cases found
      obtain rfl := verbatim written value inside
      obtain ⟨before, after, split⟩ := List.append_of_mem inside
      exact (quoted?_verbatim_iff _ _).mp (readBack before _ _ after split)
  · intro plain before written value after split
    have inside : .literal written value ∈ segments := by simp [split]
    obtain rfl := verbatim written value inside
    have member : written ∈ values segments := List.mem_filterMap.mpr ⟨_, inside, rfl⟩
    exact (quoted?_verbatim_iff _ _).mpr (plain written member)

theorem readBack_conditionSegments (c : Condition) : ReadBack (conditionSegments c) := by
  intro before written value after split
  have inside : .literal written value ∈ conditionSegments c := by simp [split]
  have escaped : written = escapeQuoted value := by
    unfold conditionSegments at inside
    split at inside
    · simp at inside
    · obtain ⟨rfl, rfl⟩ : written = _ ∧ value = _ := by simpa using inside
      rfl
  rw [escaped]
  exact quoted?_escapeQuoted value _

/-- What a condition compares with is read back from the statement that opens it. The names of the options
of an attribute are read back from its text exactly if none of them has a quote or a backslash. -/
theorem literals_read_back (d : Draft) (c : Condition) (a : Attribute) (dialect : d.dialect = .serverEmbed) :
    (d.opening c = .ok (writeAll (conditionSegments c)) ∧
      values (conditionSegments c) = c.comparison.toList.map (·.2) ∧
      ReadBack (conditionSegments c)) ∧
    d.dialect.spellAll (attributePieces a) = writeAll (piecesSegments (attributePieces a)) ∧
      values (piecesSegments (attributePieces a)) = optionNames a ∧
      (ReadBack (piecesSegments (attributePieces a)) ↔
        ∀ name ∈ optionNames a, '"' ∉ name.toList ∧ '\\' ∉ name.toList) := by
  refine ⟨⟨opening_eq_segments d c dialect, ?_, readBack_conditionSegments c⟩, ?_, values_attributePieces a, ?_⟩
  · unfold conditionSegments
    split <;> rename_i comparison <;> simp [comparison]
  · rw [dialect]
    exact spellAll_eq_segments _
  · rw [readBack_iff_of_verbatim (verbatim_pieces _), values_attributePieces]

/-- A class that is one of two options, under these names. -/
def twoSizes (first second : String) : Attribute where
  name := "class"
  text := ""
  type := .string
  bindings := [{ key := "size", optional := false, type := .enumeration [⟨"x", first⟩, ⟨"y", second⟩] }]
  omittedIfEmpty := false

/-- Quotes, backslashes and percent signs in the value of a condition, and plain names of options. -/
theorem literals_read_back_label :
    let d : Draft := { format := .twigEmbed, dialect := .serverEmbed, template := "alert" }
    let c : Condition := { key := "label", comparison := some (.equals, "say \"hi\" %> \\o/") }
    d.opening c = .ok "<% if $label == \"say \\\"hi\\\" %> \\\\o/\" %>" ∧ ReadBack (conditionSegments c) ∧
      ReadBack (piecesSegments (attributePieces (twoSizes "small" "large"))) := by
  intro d c
  obtain ⟨⟨opened, -, readBack⟩, -, -, iff⟩ := literals_read_back d c (twoSizes "small" "large") rfl
  have names : optionNames (twoSizes "small" "large") = ["small", "large"] := rfl
  refine ⟨opened.trans (congrArg Except.ok (by decide)), readBack, iff.mpr ?_⟩
  rw [names]
  decide

/-- The name of an option with a quote in it ends early. -/
theorem option_name_cut :
    Dialect.serverEmbed.spellAll (attributePieces (twoSizes "a\"b" "c")) =
        " class=\"<% if $size == \"a\"b\" %>x<% else_if $size == \"c\" %>y<% end_if %>\"" ∧
      quoted? "a\"b\" %>x".toList = some (['a'], "b\" %>x".toList) ∧
      ¬ ReadBack (piecesSegments (attributePieces (twoSizes "a\"b" "c"))) := by
  have member : "a\"b" ∈ optionNames (twoSizes "a\"b" "c") := by decide
  refine ⟨by decide, rfl, fun readBack => ?_⟩
  rw [readBack_iff_of_verbatim (verbatim_pieces _), values_attributePieces] at readBack
  exact (readBack _ member).1 (by decide)

end Stencil.LogicLess.ServerEmbed
