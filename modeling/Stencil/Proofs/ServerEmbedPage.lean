import Stencil.LogicLess.Spelling
import Stencil.Proofs.Page
import Stencil.Proofs.Words

/-! Server-embed pages, read back. A statement stands between percent signs: it opens a block, goes on to
another branch of it, or closes it. Its words are keys behind a dollar sign, quoted texts with
backslash escapes, and everything else between blanks; a percent sign inside quotes ends nothing. -/
namespace Stencil.LogicLess.ServerEmbed

open Page

inductive Word where
  | key (name : String)
  | literal (text : String)
  | plain (text : String)
  deriving DecidableEq, Repr

def isNameChar (c : Char) : Bool := c.isAlphanum || c == '_'

def isPlainChar (c : Char) : Bool := !Text.isBlank c && c != '$' && c != '"' && c != '%'

/-- A quoted text up to its closing quote; the character behind a backslash stands for itself. -/
def quoted? : List Char → Option (List Char × List Char)
  | [] => none
  | '"' :: rest => some ([], rest)
  | '\\' :: c :: rest => (quoted? rest).map fun (text, rest) => (c :: text, rest)
  | c :: rest => (quoted? rest).map fun (text, rest) => (c :: text, rest)

theorem quoted?_length {s text rest : List Char} (h : quoted? s = some (text, rest)) :
    rest.length < s.length := by
  fun_induction quoted? s generalizing text with
  | case1 => simp at h
  | case2 rest' => simp at h; simp [h.2]
  | case3 c s ih =>
    obtain ⟨⟨inner, after⟩, found, same⟩ := Option.map_eq_some_iff.mp h
    cases same
    have shorter := ih found
    simp only [List.length_cons]
    omega
  | case4 c s _ _ ih =>
    obtain ⟨⟨inner, after⟩, found, same⟩ := Option.map_eq_some_iff.mp h
    cases same
    have shorter := ih found
    simp only [List.length_cons]
    omega

def prepend (word : Word) (p : List Word × List Char) : List Word × List Char := (word :: p.1, p.2)

/-- The words up to the end of the statement, and what follows it. -/
def words? : List Char → Option (List Word × List Char)
  | [] => none
  | '%' :: '>' :: rest => some ([], rest)
  | '$' :: rest =>
    (words? (rest.dropWhile isNameChar)).map
      (prepend (.key (String.ofList (rest.takeWhile isNameChar))))
  | '"' :: rest =>
    match _h : quoted? rest with
    | none => none
    | some (text, rest) => (words? rest).map (prepend (.literal (String.ofList text)))
  | c :: rest =>
    if Text.isBlank c then words? rest
    else (words? (rest.dropWhile isPlainChar)).map
      (prepend (.plain (String.ofList (c :: rest.takeWhile isPlainChar))))
termination_by s => s.length
decreasing_by
  · have shorter := (List.dropWhile_suffix isNameChar (l := rest)).length_le
    simp only [List.length_cons]
    omega
  · have shorter := quoted?_length _h
    simp only [List.length_cons]
    omega
  · simp
  · have shorter := (List.dropWhile_suffix isPlainChar (l := rest)).length_le
    simp only [List.length_cons]
    omega

theorem words?_end (rest : List Char) : words? ('%' :: '>' :: rest) = some ([], rest) := by
  rw [words?.eq_def]
  rfl

theorem words?_dollar (rest : List Char) :
    words? ('$' :: rest) = (words? (rest.dropWhile isNameChar)).map
      (prepend (.key (String.ofList (rest.takeWhile isNameChar)))) := by
  rw [words?.eq_def]
  rfl

theorem words?_quote {s text rest : List Char} (found : quoted? s = some (text, rest)) :
    words? ('"' :: s) = (words? rest).map (prepend (.literal (String.ofList text))) := by
  rw [words?.eq_def]
  change (match _h : quoted? s with | none => none | some (text, rest) => _) = _
  split
  · rename_i missing
    rw [found] at missing
    cases missing
  · rename_i split
    rw [found] at split
    cases split
    rfl

theorem words?_plain {c : Char} (plain : isPlainChar c = true) (rest : List Char) :
    words? (c :: rest) = (words? (rest.dropWhile isPlainChar)).map
      (prepend (.plain (String.ofList (c :: rest.takeWhile isPlainChar)))) := by
  simp only [isPlainChar, Bool.and_eq_true, Bool.not_eq_true', bne_iff_ne] at plain
  obtain ⟨⟨⟨notBlank, _⟩, _⟩, notEnd⟩ := plain
  rw [words?.eq_def]
  simp [notBlank, notEnd]

theorem words?_space (rest : List Char) : words? (' ' :: rest) = words? rest := by
  rw [words?.eq_def]
  rfl

theorem of_map_prepend {word : Word} {words : List Word} {rest : List Char}
    {later : Option (List Word × List Char)} (h : later.map (prepend word) = some (words, rest)) :
    ∃ inner, later = some (inner, rest) := by
  obtain ⟨⟨inner, after⟩, found, same⟩ := Option.map_eq_some_iff.mp h
  cases same
  exact ⟨inner, found⟩

theorem words?_length {s rest : List Char} {words : List Word} (h : words? s = some (words, rest)) :
    rest.length < s.length := by
  fun_induction words? s generalizing words with
  | case1 => simp at h
  | case2 => cases h; simp only [List.length_cons]; omega
  | case3 s ih =>
    obtain ⟨inner, found⟩ := of_map_prepend h
    have shorter := ih found
    have dropped := (List.dropWhile_suffix isNameChar (l := s)).length_le
    simp only [List.length_cons]
    omega
  | case4 => simp at h
  | case5 s text s' quoted ih =>
    obtain ⟨inner, found⟩ := of_map_prepend h
    have shorter := ih found
    have taken := quoted?_length quoted
    simp only [List.length_cons]
    omega
  | case6 c s _ _ _ _ ih =>
    have shorter := ih h
    simp only [List.length_cons]
    omega
  | case7 c s _ _ _ _ ih =>
    obtain ⟨inner, found⟩ := of_map_prepend h
    have shorter := ih found
    have dropped := (List.dropWhile_suffix isPlainChar (l := s)).length_le
    simp only [List.length_cons]
    omega

/-- Keys of which one must be set. -/
def keys? : List Word → Option (List String)
  | [.key key] => some [key]
  | .key key :: .plain "||" :: rest => (keys? rest).map (key :: ·)
  | _ => none

def test? : List Word → Option Test
  | [.key key, .plain "==", .literal name] => some (.equals key name)
  | words => (keys? words).map .anySet

def statement? : List Word → Option Mark
  | [.plain "end_if"] => some (.leave "")
  | .plain "if" :: words => (test? words).map (.enter "")
  | .plain "else_if" :: words => (test? words).map .otherwise
  | _ => none

def value? (name : List Char) : Option Mark :=
  if Default.isIdentifier (String.ofList name) then some (.value (String.ofList name)) else none

def read : List Char → Option (List Mark)
  | [] => some []
  | '<' :: '%' :: rest =>
    match _h : words? rest with
    | none => none
    | some (words, rest) => (statement? words).bind fun mark => (read rest).map (mark :: ·)
  | '{' :: '$' :: rest =>
    match _h : Text.Chars.splitOnce? ['}'] rest with
    | none => none
    | some (name, rest) => (value? name).bind fun mark => (read rest).map (mark :: ·)
  | c :: rest => (read rest).map (.char c :: ·)
termination_by s => s.length
decreasing_by
  · have shorter := words?_length _h
    simp only [List.length_cons]
    omega
  · have shorter := Text.Chars.splitOnce?_length_le _h
    simp only [List.length_cons]
    omega
  · simp

theorem reads_char {c : Char} (notOpening : c ≠ '<') (notBrace : c ≠ '{') :
    Reads read [c] [.char c] := by
  intro rest
  rw [List.singleton_append, read.eq_def]
  simp [notOpening, notBrace]

/-- A text that is read as these words, whatever follows it. -/
def ReadsWords (text : List Char) (words : List Word) : Prop :=
  ∀ rest, words? (text ++ rest) = (words? rest).map fun p => (words ++ p.1, p.2)

theorem readsWords_append {left right : List Char} {first second : List Word}
    (one : ReadsWords left first) (two : ReadsWords right second) :
    ReadsWords (left ++ right) (first ++ second) := by
  intro rest
  rw [List.append_assoc, one, two, Option.map_map]
  simp [Function.comp_def]

theorem readsWords_space : ReadsWords [' '] [] := by
  intro rest
  rw [List.singleton_append, words?_space]
  simp

theorem readsWords_key {key : String} (named : Default.isIdentifier key = true) :
    ReadsWords ('$' :: key.toList ++ [' ']) [.key key] := by
  intro rest
  have chars : ∀ c ∈ key.toList, isNameChar c = true := fun c member => identifier_char named member
  have stop : isNameChar ' ' = false := by decide
  simp only [List.cons_append, List.append_assoc, List.nil_append]
  rw [words?_dollar, List.dropWhile_append_of_pos chars, List.takeWhile_append_of_pos chars]
  simp [stop, words?_space]
  rfl

theorem readsWords_plain (first : Char) (more : List Char)
    (starts : isPlainChar first = true) (plain : more.all isPlainChar = true) :
    ReadsWords (first :: more ++ [' ']) [.plain (String.ofList (first :: more))] := by
  intro rest
  have chars := List.all_eq_true.mp plain
  have stop : isPlainChar ' ' = false := by decide
  simp only [List.cons_append, List.append_assoc, List.nil_append]
  rw [words?_plain starts, List.dropWhile_append_of_pos chars, List.takeWhile_append_of_pos chars]
  simp [stop, words?_space]
  rfl

/-- Without quotes and backslashes a quoted text is what it says. -/
theorem quoted?_append {text : List Char} (rest : List Char) (unquoted : '"' ∉ text)
    (unescaped : '\\' ∉ text) : quoted? (text ++ '"' :: rest) = some (text, rest) := by
  induction text with
  | nil => simp [quoted?]
  | cons c text ih =>
    simp only [List.mem_cons, not_or] at unquoted unescaped
    have later := ih unquoted.2 unescaped.2
    rw [List.cons_append, quoted?.eq_def]
    simp [Ne.symm unquoted.1, Ne.symm unescaped.1, later]

theorem readsWords_literal {name : String} (unquoted : '"' ∉ name.toList)
    (unescaped : '\\' ∉ name.toList) :
    ReadsWords ('"' :: name.toList ++ ['"']) [.literal name] := by
  intro rest
  simp only [List.cons_append, List.append_assoc, List.nil_append]
  rw [words?_quote (quoted?_append rest unquoted unescaped), String.ofList_toList]
  rfl

/-- A statement of known words, between its percent signs. -/
theorem reads_statement {text : List Char} {words : List Word} {mark : Mark}
    (spelled : ReadsWords text words) (known : statement? words = some mark) :
    Reads read (['<', '%'] ++ text ++ ['%', '>']) [mark] := by
  intro rest
  have found : words? (text ++ '%' :: '>' :: rest) = some (words, rest) := by
    rw [spelled, words?_end]
    simp
  simp only [List.cons_append, List.nil_append, List.append_assoc]
  rw [read]
  split
  · rename_i missing
    rw [found] at missing
    cases missing
  · rename_i split
    rw [found] at split
    cases split
    simp [known]

variable {key name test body : String} {keys : List String} {values : Entries String}
  {out : List Char}

theorem readsWords_keyword {keyword : String} (known : keyword = "if" ∨ keyword = "else_if") :
    ReadsWords (' ' :: keyword.toList ++ [' ']) [.plain keyword] := by
  rcases known with rfl | rfl
  · exact readsWords_append readsWords_space (readsWords_plain 'i' ['f'] rfl rfl)
  · exact readsWords_append readsWords_space (readsWords_plain 'e' "lse_if".toList rfl rfl)

theorem keys?_key (key : String) (keys : List String) :
    keys? ((key :: keys).flatMap fun k => [.plain "||", .key k]).tail = some (key :: keys) := by
  induction keys generalizing key with
  | nil => rfl
  | cons second rest ih => simpa [keys?] using ih second

theorem readsWords_keys (named : ∀ k ∈ key :: keys, Default.isIdentifier k = true) :
    ReadsWords ((Text.join " || " ((key :: keys).map ("$" ++ ·))).toList ++ [' '])
      ((key :: keys).flatMap fun k => [.plain "||", .key k]).tail := by
  induction keys generalizing key with
  | nil => simpa using readsWords_key (named key (List.mem_cons_self ..))
  | cons second rest ih =>
    have here := readsWords_key (named key (List.mem_cons_self ..))
    have later := ih fun other member => named other (List.mem_cons_of_mem key member)
    have or := readsWords_plain '|' ['|'] rfl rfl
    have reads := readsWords_append here (readsWords_append or later)
    simpa using reads

theorem reads_openIf (named : ∀ k ∈ key :: keys, Default.isIdentifier k = true) :
    Reads read (openIf (Text.join " || " ((key :: keys).map ("$" ++ ·)))).toList
      [.enter "" (.anySet (key :: keys))] := by
  have spelled := readsWords_append (readsWords_keyword (Or.inl rfl)) (readsWords_keys named)
  have known : statement? ([.plain "if"] ++ ((key :: keys).flatMap fun k => [.plain "||", .key k]).tail) =
      some (.enter "" (.anySet (key :: keys))) := by
    have read := keys?_key key keys
    cases keys with
    | nil => rfl
    | cons second rest => simp_all [statement?, test?]
  have reads := reads_statement spelled known
  simpa [openIf] using reads

theorem reads_closeIf : Reads read closeIf.toList [.leave ""] := by
  have spelled := readsWords_append readsWords_space
    (readsWords_plain 'e' "nd_if".toList rfl rfl)
  exact reads_statement spelled rfl

/-- Once is enough: the body is shown when any of the keys is set. -/
theorem shows_whenAny (named : ∀ k ∈ keys, Default.isIdentifier k = true) (nonempty : keys ≠ [])
    (inner : Shows read values body.toList out) :
    Shows read values (openIf (Text.join " || " (keys.map ("$" ++ ·))) ++ body ++ closeIf).toList
      (if keys.any (isSet values) then out else []) := by
  obtain ⟨key, rest, rfl⟩ := List.exists_cons_of_ne_nil nonempty
  have shows := shows_block (reads_openIf named) inner reads_closeIf
  simpa [Test.holds] using shows

theorem shows_value (named : Default.isIdentifier key = true) :
    Shows read values (value key).toList ((values.get? key).getD "").toList := by
  refine ⟨[.value key], ?_, yields_value key⟩
  intro rest
  have closed : '}' ∉ key.toList := fun member =>
    absurd (identifier_char named member) (by decide)
  have found := Text.Chars.splitOnce?_append '}' [] key.toList rest closed
  simp only [List.nil_append] at found
  simp only [value, String.toList_append, List.append_assoc]
  change read ('{' :: '$' :: (key.toList ++ '}' :: rest)) = _
  rw [read]
  split
  · rename_i missing
    rw [found] at missing
    cases missing
  · rename_i split
    rw [found] at split
    cases split
    simp [value?, named]

/-- The characters that no mark of a page starts with. -/
def IsPlain (s : String) : Prop := '<' ∉ s.toList ∧ '{' ∉ s.toList

theorem reads_plain {s : String} (plain : IsPlain s) : Reads read s.toList (s.toList.map .char) :=
  reads_chars fun _ member => reads_char (fun same => plain.1 (same ▸ member))
    fun same => plain.2 (same ▸ member)

theorem reads_comparison {keyword : String} {mark : Mark} (first : keyword = "if" ∨ keyword = "else_if")
    (named : Default.isIdentifier key = true) (unquoted : '"' ∉ name.toList)
    (unescaped : '\\' ∉ name.toList)
    (known : statement? [.plain keyword, .key key, .plain "==", .literal name] = some mark) :
    Reads read ("<% " ++ keyword ++ " $" ++ key ++ " == \"" ++ name ++ "\" %>").toList [mark] := by
  have equals := readsWords_plain '=' ['='] rfl rfl
  have literal := readsWords_append (readsWords_literal unquoted unescaped) readsWords_space
  have spelled := readsWords_append (readsWords_keyword first)
    (readsWords_append (readsWords_key named) (readsWords_append equals literal))
  have reads := reads_statement spelled known
  simpa using reads

/-- An option that a chain can spell: its name ends at the closing quote, and its value is text. -/
structure Spellable (c : Choice) : Prop where
  unquoted : '"' ∉ c.name.toList
  unescaped : '\\' ∉ c.name.toList
  plain : IsPlain (escapeQuote c.value)

/-- The branch of an option: its test, its marks and what these show, given those of the lead. -/
def branchOf (key : String) (lead : List Mark) (shown : List Char) (c : Choice) :
    Test × List Mark × List Char :=
  (.equals key c.name, lead ++ (escapeQuote c.value).toList.map .char,
    shown ++ (escapeQuote c.value).toList)

theorem chain_cons (lead keyword : String) (c : Choice) (rest : List Choice) :
    chain key lead keyword (c :: rest) =
      "<% " ++ keyword ++ " $" ++ key ++ " == \"" ++ c.name ++ "\" %>" ++ lead ++ escapeQuote c.value ++
        chain key lead "else_if" rest := rfl

theorem reads_chain {lead : String} {marks : List Mark} (out : List Char) (options : List Choice)
    (named : Default.isIdentifier key = true) (leads : Reads read lead.toList marks)
    (spellable : ∀ c ∈ options, Spellable c) :
    Reads read (chain key lead "else_if" options).toList
      (((options.map (branchOf key marks out)).flatMap fun b => .otherwise b.1 :: b.2.1) ++
        [.leave ""]) := by
  induction options with
  | nil => exact reads_closeIf
  | cons c rest ih =>
    have here := spellable c (List.mem_cons_self ..)
    have later := ih fun other member => spellable other (List.mem_cons_of_mem c member)
    have opens := reads_comparison (Or.inr rfl) named here.unquoted here.unescaped rfl
    have branch := reads_append opens (reads_append leads (reads_plain here.plain))
    have reads := reads_append branch later
    rw [chain_cons]
    simpa only [branchOf, String.toList_append, List.append_assoc, List.map_cons, List.flatMap_cons,
      List.cons_append, List.nil_append] using reads

/-- A chain shows the lead and the value of the option that the key names, if there is one. -/
theorem shows_chain {lead : String} (c : Choice) (rest : List Choice)
    (named : Default.isIdentifier key = true) (leads : Shows read values lead.toList out)
    (spellable : ∀ other ∈ c :: rest, Spellable other) :
    Shows read values (chain key lead "if" (c :: rest)).toList
      ((((c :: rest).find? fun c => values.get? key == some c.name).map fun c =>
        out ++ (escapeQuote c.value).toList).getD []) := by
  obtain ⟨marks, readsLead, yieldsLead⟩ := leads
  have here := spellable c (List.mem_cons_self ..)
  have later := reads_chain out rest named readsLead
    fun other member => spellable other (List.mem_cons_of_mem c member)
  have opens := reads_comparison (Or.inl rfl) named here.unquoted here.unescaped rfl
  have reads := reads_append (reads_append opens (reads_append readsLead (reads_plain here.plain))) later
  have inner : ∀ b ∈ (c :: rest).map (branchOf key marks out), Yields values b.2.1 b.2.2 := by
    intro b member
    obtain ⟨choice, _, rfl⟩ := List.mem_map.mp member
    exact yields_append yieldsLead (yields_chars _)
  have yields := yields_branches "" (branchOf key marks out c) (rest.map (branchOf key marks out)) inner
  rw [← List.map_cons, List.find?_map, Option.map_map] at yields
  refine ⟨_, ?_, yields⟩
  rw [chain_cons]
  simpa only [branchOf, String.toList_append, List.append_assoc, List.cons_append,
    List.nil_append] using reads

end Stencil.LogicLess.ServerEmbed
