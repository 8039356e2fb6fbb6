import Stencil.Proofs.MarkerScan
import Stencil.Proofs.ParsingExpressions

/-! The grammar of attribute values. It takes every text, since an opening that is not closed is text as
well, and what is read off its tree is what the scan finds: the marker rule succeeds at an opening exactly
if there is a closing behind it, and then it ends with the first one. -/
namespace Stencil.Marker

open Peg (Derives Expr Outcome ParseTree)
open Text.Chars (Clear after? splitOnce? pieces)

inductive Rule where
  | value
  | text
  | marker
  | key
  | options
  | option
  | endOfInput
  deriving DecidableEq, Repr

/-- All before the next `c` or closing. -/
def partBefore (c : Char) : Expr Rule := .upTo (.choice (.literal [c]) (.literal closing))

def grammar : Peg.Grammar Rule where
  body
    | .value => .seq (.seq .start (.star (.choice (.rule .marker) (.rule .text)))) (.rule .endOfInput)
    | .text => .choice (.plus (.seq (.absent (.literal opening)) .any)) (.literal opening)
    | .marker => .seq (.seq (.seq (.literal opening) (.rule .key))
        (.optional (.seq (.literal [':']) (.rule .options)))) (.literal closing)
    | .key => partBefore ':'
    | .options => .seq (.rule .option) (.star (.seq (.literal ['|']) (.rule .option)))
    | .option => partBefore '|'
    | .endOfInput => .absent .any
  isAtomic
    | .text | .key | .option => true
    | _ => false

section Reading

def textIn : ParseTree Rule → List Char
  | .node .text taken _ => taken
  | _ => []

/-- The source of a marker and its parts. -/
def markerIn? : ParseTree Rule → Option (List Char × List (ParseTree Rule))
  | .node .marker taken parts => some (taken, parts)
  | _ => none

/-- One part of a marker: the key segment, or the options. -/
def addField (fields : List Char × Option (List (List Char))) :
    ParseTree Rule → List Char × Option (List (List Char))
  | .node .key taken _ => (taken, fields.2)
  | .node .options _ parts => (fields.1, some (parts.map ParseTree.text))
  | _ => fields

def readMarker (source : List Char) (parts : List (ParseTree Rule)) : Except MarkerError Marker :=
  let fields := parts.foldl addField ([], none)
  (draft source fields.1 fields.2).judged

/-- The value of a tree: the text of its parts, trimmed, and its markers. -/
def readTree : ParseTree Rule → Except MarkerError (String × List Marker)
  | .node _ _ parts =>
    ((parts.filterMap markerIn?).mapM fun p => readMarker p.1 p.2).map fun markers =>
      (String.ofList (Text.Chars.trim (parts.flatMap textIn)), markers)

end Reading

section Derivations

-- The text as a whole, of which the grammar reads what is left.
variable {w : List Char}

/-- A part ends at its delimiter, at a closing or at the end of the text. -/
def Stops (c : Char) (rest : List Char) : Prop :=
  (∃ more, rest = c :: more) ∨ (∃ more, rest = closing ++ more) ∨ rest = []

theorem derives_literal (text rest : List Char) :
    Derives grammar w (.literal text) (text ++ rest) (some ([], rest)) :=
  .literal (Text.Chars.after?_append ..)

theorem derives_partBefore {c : Char} {passed rest : List Char} (free : c ∉ passed)
    (clear : Clear closing passed rest) (stops : Stops c rest) :
    Derives grammar w (partBefore c) (passed ++ rest) (some ([], rest)) := by
  refine Peg.derives_upTo ?_ ?_
  · intro part nonempty inside
    obtain ⟨d, part, rfl⟩ := List.exists_cons_of_ne_nil nonempty
    have other : ¬c = d := fun same => free (same ▸ inside.subset (List.mem_cons_self ..))
    refine .choice_second (.literal_fails ?_) (.literal_fails ?_)
    · simp [after?, other]
    · exact Text.Chars.clear_iff.mp clear _ nonempty inside
  · rcases stops with ⟨more, rfl⟩ | ⟨more, rfl⟩ | rfl
    · exact .inl ⟨_, .choice_first (derives_literal [c] more)⟩
    · cases here : after? [c] (closing ++ more) with
      | some after => exact .inl ⟨_, .choice_first (.literal here)⟩
      | none => exact .inl ⟨_, .choice_second (.literal_fails here) (derives_literal closing more)⟩
    · exact .inr ⟨rfl, .choice_second (.literal_fails rfl) (.literal_fails rfl)⟩

theorem derives_key {passed rest : List Char} (free : ':' ∉ passed) (clear : Clear closing passed rest)
    (stops : Stops ':' rest) :
    Derives grammar w (.rule .key) (passed ++ rest) (some ([.node .key passed []], rest)) :=
  .rule (r := Rule.key) (derives_partBefore free clear stops) rfl

theorem derives_option {passed rest : List Char} (free : '|' ∉ passed) (clear : Clear closing passed rest)
    (stops : Stops '|' rest) :
    Derives grammar w (.rule .option) (passed ++ rest) (some ([.node .option passed []], rest)) :=
  .rule (r := Rule.option) (derives_partBefore free clear stops) rfl

/-- What is left where the options of a marker end. -/
def AtEnd (rest : List Char) : Prop := (∃ more, rest = closing ++ more) ∨ rest = []

theorem AtEnd.stops {rest : List Char} (ends : AtEnd rest) (c : Char) : Stops c rest := .inr ends

/-- A piece ends where the next bar or the end of the options is. -/
theorem stops_pieces {rest : List Char} (ends : AtEnd rest) (more : List (List Char)) :
    Stops '|' (more.flatMap ('|' :: ·) ++ rest) := by
  cases more with
  | nil => exact ends.stops '|'
  | cons piece more => exact .inl ⟨_, rfl⟩

theorem derives_pieces {more : List (List Char)} {rest : List Char} (free : ∀ piece ∈ more, '|' ∉ piece)
    (clear : Clear closing (more.flatMap ('|' :: ·)) rest) (ends : AtEnd rest) :
    Derives grammar w (.star (.seq (.literal ['|']) (.rule .option)))
      (more.flatMap ('|' :: ·) ++ rest) (some (more.map (.node .option · []), rest)) := by
  induction more with
  | nil =>
    refine .star_stops (.seq_fails_first (.literal_fails ?_))
    rcases ends with ⟨more, rfl⟩ | rfl <;> rfl
  | cons piece more ih =>
    obtain ⟨own, others⟩ := List.forall_mem_cons.mp free
    have apart : Clear closing ('|' :: piece ++ more.flatMap ('|' :: ·)) rest := clear
    obtain ⟨first, later⟩ := apart.append
    have here : Clear closing piece (more.flatMap ('|' :: ·) ++ rest) :=
      (show Clear closing (['|'] ++ piece) _ from first).append.2
    have taken := derives_option (w := w) own here (stops_pieces ends more)
    have split : (piece :: more).flatMap ('|' :: ·) ++ rest =
        ['|'] ++ (piece ++ (more.flatMap ('|' :: ·) ++ rest)) := by
      simp
    rw [split]
    exact .star_goes (.seq (derives_literal ['|'] _) taken) (ih others later)

theorem derives_options {tail rest : List Char} (clear : Clear closing tail rest) (ends : AtEnd rest) :
    Derives grammar w (.rule .options) (tail ++ rest)
      (some ([.node .options tail ((pieces (· == '|') tail).map (.node .option · []))], rest)) := by
  obtain ⟨first, more, parts, joined, free⟩ := Text.Chars.pieces_eq '|' tail
  obtain ⟨own, others⟩ := List.forall_mem_cons.mp free
  rw [joined] at clear
  obtain ⟨here, later⟩ := clear.append
  have taken := derives_option (w := w) own here (stops_pieces ends more)
  have all := Derives.seq taken (derives_pieces others later ends)
  rw [← List.append_assoc, ← joined] at all
  rw [parts]
  exact .rule (r := Rule.options) all rfl

def partsOf (inside : List Char) : List (ParseTree Rule) :=
  (splitOnce? [':'] inside).elim [.node .key inside []] fun fields =>
    [.node .key fields.1 [], .node .options fields.2 ((pieces (· == '|') fields.2).map (.node .option · []))]

/-- A marker up to its closing, or up to the end of the text if it has none. -/
theorem derives_content {inside rest : List Char} (clear : Clear closing inside rest) (ends : AtEnd rest) :
    Derives grammar w (.seq (.seq (.literal opening) (.rule .key))
        (.optional (.seq (.literal [':']) (.rule .options))))
      (opening ++ (inside ++ rest)) (some (partsOf inside, rest)) := by
  unfold partsOf
  cases found : splitOnce? [':'] inside with
  | none =>
    have free := Text.Chars.splitOnce?_none found
    rw [List.singleton_infix_iff] at free
    have taken := derives_key (w := w) free clear (ends.stops ':')
    refine .seq (.seq (derives_literal opening _) taken) (Peg.derives_optional_of_fails ?_)
    refine .seq_fails_first (.literal_fails ?_)
    rcases ends with ⟨more, rfl⟩ | rfl <;> rfl
  | some fields =>
    obtain ⟨front, tail⟩ := fields
    obtain ⟨rfl, first⟩ := Text.Chars.splitOnce?_some found
    have apart : Clear closing (front ++ ([':'] ++ tail)) rest := by simpa using clear
    obtain ⟨here, later⟩ := apart.append
    have behind := later.append.2
    have taken := derives_key (w := w) first.not_mem here (.inl ⟨tail ++ rest, rfl⟩)
    have options := derives_options (w := w) behind ends
    have split : opening ++ (front ++ [':'] ++ tail ++ rest) =
        opening ++ (front ++ ([':'] ++ tail ++ rest)) := by
      simp
    rw [split]
    exact .seq (.seq (derives_literal opening _) taken)
      (Peg.derives_optional (.seq (derives_literal [':'] _) options))

/-- A marker that is closed is taken up to its first closing. -/
theorem derives_marker {inside rest : List Char} (clear : Clear closing inside (closing ++ rest)) :
    Derives grammar w (.rule .marker) (opening ++ inside ++ closing ++ rest)
      (some ([.node .marker (opening ++ inside ++ closing) (partsOf inside)], rest)) := by
  have content := derives_content (w := w) clear (.inl ⟨rest, rfl⟩)
  have all := Derives.seq content (derives_literal closing rest)
  have split : opening ++ inside ++ closing ++ rest = opening ++ (inside ++ (closing ++ rest)) := by simp
  rw [List.append_nil, ← split] at all
  exact .rule (r := Rule.marker) all rfl

theorem marker_fails {s : List Char} (elsewhere : after? opening s = none) :
    Derives grammar w (.rule .marker) s none :=
  .rule_fails (r := Rule.marker)
    (.seq_fails_first (.seq_fails_first (.seq_fails_first (.literal_fails elsewhere))))

/-- A marker without a closing is none, wherever its key and options end. -/
theorem marker_fails_unclosed {rest : List Char} (unclosed : ¬closing <:+: rest) :
    Derives grammar w (.rule .marker) (opening ++ rest) none := by
  have clear : Clear closing rest [] := (Text.Chars.clear_nil_iff (by simp [closing])).mpr unclosed
  have content := derives_content (w := w) clear (.inr rfl)
  rw [List.append_nil] at content
  exact .rule_fails (r := Rule.marker) (.seq_fails_second content (.literal_fails rfl))

/-- What is left where a run of text ends. -/
def AtOpening (rest : List Char) : Prop := (∃ more, rest = opening ++ more) ∨ rest = []

theorem derives_text {c : Char} {passed rest : List Char} (clear : Clear opening (c :: passed) rest)
    (ends : AtOpening rest) :
    Derives grammar w (.rule .text) (c :: passed ++ rest) (some ([.node .text (c :: passed) []], rest)) := by
  have fails : ∀ part, part ≠ [] → part <:+ c :: passed →
      Derives grammar w (.literal opening) (part ++ rest) none := fun part nonempty inside =>
    .literal_fails (Text.Chars.clear_iff.mp clear part nonempty inside)
  have later : Derives grammar w (Expr.literal opening).upTo (passed ++ rest) (some ([], rest)) := by
    refine Peg.derives_upTo ?_ ?_
    · intro part nonempty inside
      exact fails part nonempty (inside.trans (List.suffix_cons ..))
    · rcases ends with ⟨more, rfl⟩ | rfl
      · exact .inl ⟨_, derives_literal opening more⟩
      · exact .inr ⟨rfl, .literal_fails rfl⟩
  have first := fails (c :: passed) (by simp) List.suffix_rfl
  exact .rule (r := Rule.text) (.choice_first (.seq (.seq (.absent first) .any) later)) rfl

theorem derives_text_opening (rest : List Char) :
    Derives grammar w (.rule .text) (opening ++ rest) (some ([.node .text opening []], rest)) := by
  have found := derives_literal (w := w) opening rest
  refine .rule (r := Rule.text) (.choice_second ?_ found) rfl
  exact .seq_fails_first (.seq_fails_first (.absent_fails found))

theorem text_fails : Derives grammar w (.rule .text) [] none :=
  .rule_fails (r := Rule.text) (.choice_second
    (.seq_fails_first (.seq_fails_second (.absent (.literal_fails rfl)) .any_fails)) (.literal_fails rfl))

def items : Expr Rule := .star (.choice (.rule .marker) (.rule .text))

theorem items_nil : Derives grammar w items [] (some ([], [])) :=
  .star_stops (.choice_second (marker_fails rfl) text_fails)

/-- A run of text is one part, or none if it is empty. -/
def runOf (passed : List Char) : List (ParseTree Rule) := if passed = [] then [] else [.node .text passed []]

theorem items_run {passed rest : List Char} {trees : List (ParseTree Rule)} (clear : Clear opening passed rest)
    (ends : AtOpening rest) (later : Derives grammar w items rest (some (trees, []))) :
    Derives grammar w items (passed ++ rest) (some (runOf passed ++ trees, [])) := by
  cases passed with
  | nil => exact later
  | cons c passed =>
    have elsewhere := Text.Chars.clear_iff.mp clear (c :: passed) (by simp) List.suffix_rfl
    exact .star_goes (.choice_second (marker_fails elsewhere) (derives_text clear ends)) later

theorem textIn_runOf (passed : List Char) : (runOf passed).flatMap textIn = passed := by
  unfold runOf
  split
  · rename_i empty
    rw [empty]
    rfl
  · exact List.append_nil passed

theorem markerIn?_runOf (passed : List Char) : (runOf passed).filterMap markerIn? = [] := by
  unfold runOf
  split <;> rfl

theorem items_of_no_opening {s : List Char} (missing : ¬opening <:+: s) :
    Derives grammar w items s (some (runOf s, [])) := by
  have clear := (Text.Chars.clear_nil_iff (by simp [opening])).mpr missing
  have all := items_run clear (.inr rfl) (items_nil (w := w))
  rwa [List.append_nil, List.append_nil] at all

/-- An opening that is not closed is text, and the rest goes on behind it. -/
theorem items_opening {before rest : List Char} {trees : List (ParseTree Rule)}
    (clear : Clear opening before (opening ++ rest)) (unclosed : ¬closing <:+: rest)
    (later : Derives grammar w items rest (some (trees, []))) :
    Derives grammar w items (before ++ opening ++ rest)
      (some (runOf before ++ .node .text opening [] :: trees, [])) := by
  rw [List.append_assoc]
  refine items_run clear (.inl ⟨rest, rfl⟩) ?_
  exact .star_goes (.choice_second (marker_fails_unclosed unclosed) (derives_text_opening rest)) later

/-- A text without a closing is taken as text, at most an opening at a time. -/
theorem items_unclosed {s : List Char} (unclosed : ¬closing <:+: s) :
    ∃ trees, Derives grammar w items s (some (trees, [])) ∧ trees.flatMap textIn = s ∧
      trees.filterMap markerIn? = [] := by
  induction length : s.length using Nat.strong_induction_on generalizing s with
  | h n ih =>
    cases found : splitOnce? opening s with
    | none =>
      exact ⟨_, items_of_no_opening (Text.Chars.splitOnce?_none found), textIn_runOf s, markerIn?_runOf s⟩
    | some parts =>
      obtain ⟨before, rest⟩ := parts
      obtain ⟨rfl, clear⟩ := Text.Chars.splitOnce?_some found
      have shorter : rest.length < n := by
        have two : opening.length = 2 := rfl
        simp only [List.length_append] at length
        omega
      have still : ¬closing <:+: rest := fun closed =>
        unclosed (closed.trans (List.suffix_append ..).isInfix)
      obtain ⟨trees, derived, texts, markers⟩ := ih rest.length shorter still rfl
      refine ⟨_, items_opening clear still derived, ?_, ?_⟩
      · rw [List.flatMap_append, textIn_runOf, List.flatMap_cons, texts, List.append_assoc]
        rfl
      · rw [List.filterMap_append, markerIn?_runOf, List.filterMap_cons_none rfl, markers]
        rfl

/-- The parts of a value are those of its segments. -/
theorem items_segments (s : List Char) :
    ∃ trees, Derives grammar w items s (some (trees, [])) ∧
      trees.flatMap textIn = (segments s).flatMap Segment.content ∧
      trees.filterMap markerIn? =
        ((segments s).filterMap Segment.inside?).map fun inside =>
          (opening ++ inside ++ closing, partsOf inside) := by
  fun_induction segments s with
  | case1 s missing =>
    refine ⟨_, items_of_no_opening (Text.Chars.splitOnce?_none missing), ?_, markerIn?_runOf s⟩
    exact (textIn_runOf s).trans (List.append_nil s).symm
  | case2 s before rest found missing =>
    obtain ⟨rfl, clear⟩ := Text.Chars.splitOnce?_some found
    have unclosed := Text.Chars.splitOnce?_none missing
    obtain ⟨trees, derived, texts, markers⟩ := items_unclosed (w := w) unclosed
    refine ⟨_, items_opening clear unclosed derived, ?_, ?_⟩
    · rw [List.flatMap_append, textIn_runOf, List.flatMap_cons, texts]
      simp [textIn, Segment.content]
    · rw [List.filterMap_append, markerIn?_runOf, List.filterMap_cons_none rfl, markers]
      rfl
  | case3 s before rest found inside rest' closed ih =>
    obtain ⟨rfl, clear⟩ := Text.Chars.splitOnce?_some found
    obtain ⟨rfl, first⟩ := Text.Chars.splitOnce?_some closed
    obtain ⟨trees, derived, texts, markers⟩ := ih
    have here := Derives.star_goes (.choice_first (derives_marker (w := w) first)) derived
    have split : before ++ opening ++ (inside ++ closing ++ rest') =
        before ++ (opening ++ inside ++ closing ++ rest') := by
      simp
    have opened : Clear opening before (opening ++ inside ++ closing ++ rest') := by
      simpa using clear
    rw [split]
    refine ⟨_, items_run opened (.inl ⟨inside ++ closing ++ rest', by simp⟩) here, ?_, ?_⟩
    · rw [List.flatMap_append, textIn_runOf, List.flatMap_append, texts]
      simp [textIn, Segment.content]
    · rw [List.filterMap_append, markerIn?_runOf, List.filterMap_append, markers]
      rfl

/-- The grammar takes every text. -/
theorem derives_value (s : List Char) :
    ∃ parts, Derives grammar s (.rule .value) s (some ([.node .value s parts], [])) ∧
      parts.flatMap textIn = (segments s).flatMap Segment.content ∧
      parts.filterMap markerIn? =
        ((segments s).filterMap Segment.inside?).map fun inside =>
          (opening ++ inside ++ closing, partsOf inside) := by
  obtain ⟨trees, derived, texts, markers⟩ := items_segments (w := s) s
  have ended : Derives grammar s (.rule .endOfInput) [] (some ([.node .endOfInput [] []], [])) :=
    .rule (r := Rule.endOfInput) (.absent .any_fails) rfl
  have all := Derives.seq (.seq .start derived) ended
  have taken : Derives grammar s (.rule .value) s
      (some ([.node .value s (trees ++ [.node .endOfInput [] []])], [])) :=
    .rule (r := Rule.value) all (List.append_nil s).symm
  refine ⟨_, taken, ?_, ?_⟩
  · simpa [textIn] using texts
  · rw [List.filterMap_append, markers]
    exact List.append_nil _

end Derivations

theorem readMarker_partsOf (inside : List Char) :
    readMarker (opening ++ inside ++ closing) (partsOf inside) = ofInside inside := by
  rw [ofInside_eq]
  unfold readMarker partsOf said fieldsOf
  cases splitOnce? [':'] inside with
  | none => rfl
  | some fields =>
    have texts : ((pieces (· == '|') fields.2).map (ParseTree.node Rule.option · [])).map ParseTree.text =
        pieces (· == '|') fields.2 := by
      rw [List.map_map]
      exact List.map_id _
    have added : [ParseTree.node Rule.key fields.1 [], .node .options fields.2
          ((pieces (· == '|') fields.2).map (.node .option · []))].foldl addField ([], none) =
        (fields.1, some (pieces (· == '|') fields.2)) := by
      simp only [List.foldl_cons, List.foldl_nil, addField, texts]
    simp only [Option.elim, added]

theorem mapM_readMarker (insides : List (List Char)) :
    ((insides.map fun inside => (opening ++ inside ++ closing, partsOf inside)).mapM fun p =>
      readMarker p.1 p.2) = insides.mapM ofInside := by
  induction insides with
  | nil => rfl
  | cons inside rest ih => rw [List.map_cons, List.mapM_cons, List.mapM_cons, ih, readMarker_partsOf]

/-- The grammar takes every value whole, in one way only. What is read off its tree is what the scan says:
the first opening that is closed, and its first closing, are the braces of the next marker, and the text is
what stands outside of markers, trimmed. Between the braces stand the key, up to the first colon and
optional with a question mark, and the options, each a value and a name. A value is refused exactly if some
marker has no key or an empty option, for the first such marker, and for its key before its options. -/
theorem values_scanned (raw : String) : ∃ tree start parts markers,
    (∀ outcome, Derives grammar raw.toList (.rule .value) raw.toList outcome ↔
      outcome = some ([tree], [])) ∧
    parse raw = readTree tree ∧
    (∀ start' parts', Scan raw.toList start' parts' ↔ start' = start ∧ parts' = parts) ∧
    raw.toList = start ++ parts.flatMap (fun p => opening ++ p.1 ++ closing ++ p.2) ∧
    List.Forall₂ (fun p m => ∃ front, Describes p.1 front m) parts markers ∧
    (∀ text read, parse raw = .ok (text, read) ↔ markers.findSome? fault? = none ∧ read = markers ∧
      text = String.ofList (Text.Chars.trim (start ++ parts.flatMap (·.2)))) ∧
    ∀ e, parse raw = .error e ↔ markers.findSome? fault? = some e := by
  obtain ⟨trees, derived, texts, marked⟩ := derives_value raw.toList
  obtain ⟨start, parts, split, scanned⟩ := scan_segments raw.toList
  have read : parse raw = readTree (.node .value raw.toList trees) := by
    rw [parse_of_segments, readTree, texts, marked, mapM_readMarker]
  refine ⟨.node .value raw.toList trees, start, parts, (parts.map (·.1)).map said, ?_, read, ?_,
    scanned.whole, ?_, ?_⟩
  · intro outcome
    exact ⟨fun other => other.unique derived, fun same => same ▸ derived⟩
  · intro start' parts'
    refine ⟨fun other => other.unique scanned, ?_⟩
    rintro ⟨rfl, rfl⟩
    exact scanned
  · rw [List.map_map, List.forall₂_map_right_iff]
    exact List.forall₂_same.mpr fun p _ => ⟨_, describes_said p.1⟩
  · rw [parse_eq split]
    cases ((parts.map (·.1)).map said).findSome? fault? with
    | none => simp [and_comm, eq_comm]
    | some e => simp [eq_comm]

end Stencil.Marker
