import Stencil.Proofs.CleanReading

/-! Plain sheets are read back from their printed form. Reading is followed along the text, from its end to
its start: a text put in front of one that is gathered and read adds its own rules. -/
namespace Stencil.Style

open Text ComponentValue
open Token hiding scan

/-- Put in front of any text that is gathered and read, this text adds these rules. -/
def Shows (b : Option Bracket) (R : List ComponentValue → List Rule → Prop) (text : List Char)
    (rules : List Rule) : Prop :=
  ∀ ⦃tail : List Char⦄ ⦃cs : List ComponentValue⦄ ⦃c : Option Token⦄ ⦃rest : List Token⦄ ⦃later : List Rule⦄,
    Groups b (Token.scan tail) cs c rest → R cs later →
      ∃ cs', Groups b (Token.scan (text ++ tail)) cs' c rest ∧ R cs' (rules ++ later)

namespace Shows

variable {b : Option Bracket} {R : List ComponentValue → List Rule → Prop}

theorem nil : Shows b R [] [] := fun _ _ _ _ _ g read => ⟨_, g, read⟩

theorem append {text text' : List Char} {rules rules' : List Rule} (h : Shows b R text rules)
    (h' : Shows b R text' rules') : Shows b R (text ++ text') (rules ++ rules') := by
  intro tail cs c rest later g read
  obtain ⟨cs', g', read'⟩ := h' g read
  rw [List.append_assoc, List.append_assoc]
  exact h g' read'

variable (reading : Reading R)
include reading

/-- Blanks add nothing: they are a space of their own, or are part of the one that follows. -/
theorem blanks {w : List Char} (blank : ∀ c ∈ w, isAsciiBlank c = true) : Shows b R w [] := by
  cases w with
  | nil => exact nil
  | cons d w =>
    rw [List.forall_mem_cons] at blank
    intro tail cs c rest later g read
    have start : Token.scan (d :: w ++ tail) =
        ⟨.space, d :: (w ++ tail).takeWhile isAsciiBlank⟩ :: Token.scan (tail.dropWhile isAsciiBlank) := by
      rw [List.cons_append, Token.scan, next_blank blank.1, List.dropWhile_append_of_pos blank.2]
    rw [start]
    cases tail with
    | nil => exact ⟨_, .token rfl (by simp [closes?]) g, (reading.space rfl).2 read⟩
    | cons e tail =>
      by_cases more : isAsciiBlank e = true
      · rw [List.dropWhile_cons_of_pos more]
        rw [Token.scan, next_blank more] at g
        cases g with
        | closed closes => cases closes
        | block opens => cases opens
        | token _ _ g =>
          exact ⟨_, .token rfl (by simp [closes?]) g, (reading.space rfl).2 ((reading.space rfl).1 read)⟩
      · rw [List.dropWhile_cons_of_neg more]
        exact ⟨_, .token rfl (by simp [closes?]) g, (reading.space rfl).2 read⟩

omit reading in
/-- A block is gathered from its brace to the one that closes it. -/
theorem block {text : List Char} {inside : List Rule} (h : Shows (some .curly) ReadsBody text inside)
    {tail : List Char} {cs : List ComponentValue} {c : Option Token} {rest : List Token}
    (g : Groups b (Token.scan tail) cs c rest) :
    ∃ x : ComponentValue, x.isCurly = true ∧ ReadsBody x.contents inside ∧
      Groups b (Token.scan ('\x7b' :: (text ++ '\x7d' :: tail))) (x :: cs) c rest := by
  have ended : Groups (some .curly) (Token.scan ('\x7d' :: tail)) [] (some ⟨.closing .curly, ['\x7d']⟩)
      (Token.scan tail) := by
    rw [Token.scan_closing]
    exact .closed rfl
  obtain ⟨inner, gathered, read⟩ := h ended readsBody_nil
  rw [List.append_nil] at read
  refine ⟨.block .curly ⟨.opening .curly, ['\x7b']⟩ inner (some ⟨.closing .curly, ['\x7d']⟩), rfl, read, ?_⟩
  rw [scan_brace]
  exact .block rfl gathered g

end Shows

namespace Rule

/-- Letters, digits and these marks, without blanks at the ends. -/
def isTextOver (marks : List Char) (s : String) : Bool :=
  s.toList.all (fun c => isLetter c || isDigit c || marks.contains c) && Text.trim s == s

/-- A point and a letter come first. -/
def startsClass : List Char → Bool
  | '.' :: c :: _ => isLetter c
  | _ => false

def isSelector (s : String) : Bool :=
  startsClass s.toList && isTextOver ['-', '_', '.', '#', ':', '>', '+', '~', '*', ',', ' '] s

/-- Letters and hyphens, a letter first. -/
def isName (s : String) : Bool :=
  match s.toList with
  | [] => false
  | c :: rest => isLetter c && rest.all (fun c => isLetter c || c == '-')

def isValue (s : String) : Bool := !s.isEmpty && isTextOver ['-', '.', '#', '%', ' '] s

mutual

def isPlain : Rule → Bool
  | .rule selector body => isSelector selector && allPlain body
  | .atRule name params body =>
    isName name && !sameIgnoringAsciiCase name "charset" && (params.isEmpty || isValue params) && allPlain body
  | .decl prop value => isName prop && isValue value

def allPlain : List Rule → Bool
  | [] => true
  | r :: rest => r.isPlain && allPlain rest

end

/-- What is asked of a selector or a value, as far as reading it goes. -/
structure Calm (s : String) : Prop where
  chars : ∀ c ∈ s.toList, isCalm c = true
  trimmed : Chars.trim s.toList = s.toList

theorem calm_of_isTextOver {marks : List Char} {s : String} (h : isTextOver marks s = true)
    (calm : ∀ c ∈ marks, isCalm c = true) : Calm s := by
  simp only [isTextOver, Bool.and_eq_true, List.all_eq_true, Bool.or_eq_true, List.contains_iff_mem] at h
  refine ⟨fun c hc => ?_, ?_⟩
  · rcases h.1 c hc with (letter | digit) | mark
    · exact isCalm_of_isLetter letter
    · simp [isCalm, digit]
    · exact calm c mark
  · have same := congrArg String.toList (eq_of_beq h.2)
    rwa [Text.trim, String.toList_ofList] at same

theorem isSelector_spec {s : String} (h : isSelector s = true) :
    Calm s ∧ ∃ c r, s.toList = '.' :: c :: r ∧ isLetter c = true := by
  simp only [isSelector, Bool.and_eq_true] at h
  refine ⟨calm_of_isTextOver h.2 (List.all_eq_true.1 rfl), ?_⟩
  have start := h.1
  unfold startsClass at start
  split at start
  · rename_i c r whole
    exact ⟨c, r, whole, start⟩
  · cases start

theorem isValue_spec {s : String} (h : isValue s = true) : Calm s ∧ s.isEmpty = false := by
  simp only [isValue, Bool.and_eq_true, Bool.not_eq_true'] at h
  exact ⟨calm_of_isTextOver h.2 (List.all_eq_true.1 rfl), h.1⟩

theorem isParams_spec {s : String} (h : (s.isEmpty || isValue s) = true) : Calm s := by
  rw [Bool.or_eq_true] at h
  rcases h with empty | value
  · rw [String.isEmpty_iff.1 empty]
    exact ⟨by simp, rfl⟩
  · exact (isValue_spec value).1

theorem isName_spec {s : String} (h : isName s = true) :
    Plain s.toList ∧ ∀ c ∈ s.toList, isCalm c = true := by
  unfold isName at h
  split at h
  · cases h
  · rename_i c r whole
    simp only [Bool.and_eq_true, List.all_eq_true, Bool.or_eq_true] at h
    have each {p : Char → Bool} (letters : ∀ {c}, isLetter c = true → p c = true) (hyphen : p '-' = true) :
        ∀ e ∈ c :: r, p e = true := by
      rw [List.forall_mem_cons]
      refine ⟨letters h.1, fun c hc => ?_⟩
      rcases h.2 c hc with letter | same
      · exact letters letter
      · rw [eq_of_beq same, hyphen]
    rw [whole]
    exact ⟨⟨startsIdent_cons (startsName_of_isLetter h.1) r, each isNameChar_of_isLetter rfl⟩,
      each isCalm_of_isLetter rfl⟩

theorem isPlain_atRule {name params : String} {body : List Rule}
    (plain : (atRule name params body).isPlain = true) :
    Plain name.toList ∧ sameIgnoringAsciiCase name "charset" = false ∧ Calm params := by
  simp only [isPlain, Bool.and_eq_true, Bool.not_eq_true'] at plain
  exact ⟨(isName_spec plain.1.1.1).1, plain.1.1.2, isParams_spec plain.1.2⟩

theorem allPlain_body {r : Rule} (plain : r.isPlain = true) : allPlain r.body = true := by
  cases r with
  | decl prop value => rfl
  | rule selector body =>
    rw [isPlain, Bool.and_eq_true] at plain
    exact plain.2
  | atRule name params body =>
    rw [isPlain, Bool.and_eq_true] at plain
    exact plain.2

mutual

theorem calm_texts (r : Rule) (plain : r.isPlain = true) : ∀ s ∈ r.texts, ∀ c ∈ s.toList, isCalm c = true := by
  cases r with
  | rule selector body =>
    simp only [isPlain, Bool.and_eq_true] at plain
    rw [texts, List.forall_mem_cons]
    exact ⟨(isSelector_spec plain.1).1.chars, calm_textsAll body plain.2⟩
  | atRule name params body =>
    simp only [isPlain, Bool.and_eq_true] at plain
    rw [texts, List.forall_mem_cons, List.forall_mem_cons]
    exact ⟨(isName_spec plain.1.1.1).2, (isParams_spec plain.1.2).chars, calm_textsAll body plain.2⟩
  | decl prop value =>
    simp only [isPlain, Bool.and_eq_true] at plain
    rw [texts, List.forall_mem_cons, List.forall_mem_singleton]
    exact ⟨(isName_spec plain.1).2, (isValue_spec plain.2).1.chars⟩

theorem calm_textsAll (rules : List Rule) (plain : allPlain rules = true) :
    ∀ s ∈ textsAll rules, ∀ c ∈ s.toList, isCalm c = true := by
  cases rules with
  | nil => intro s hs; cases hs
  | cons r rest =>
    simp only [allPlain, Bool.and_eq_true] at plain
    rw [textsAll, List.forall_mem_append]
    exact ⟨calm_texts r plain.1, calm_textsAll rest plain.2⟩

end

theorem oneLine_of_allPlain {rules : List Rule} (plain : allPlain rules = true) : OneLine rules := by
  intro s hs feed
  cases calm_textsAll rules plain s hs '\n' feed

end Rule

theorem slice_calm {ts : List Token} {s : String} (calm : Rule.Calm s) (before after : List Char)
    (source : flat ts = before ++ (s.toList ++ after)) (blankBefore : ∀ c ∈ before, isBlank c = true)
    (blankAfter : ∀ c ∈ after, isBlank c = true) : slice (plainFront ts) = s := by
  rw [slice, sourceAll_plainFront, source, Chars.trim_blank_append _ _ blankBefore,
    Chars.trim_append_blank _ _ blankAfter, calm.trimmed, String.ofList_toList]

/-- The parameters behind the name of an at-rule. -/
def paramText (params : String) : List Char := if params.isEmpty then [] else ' ' :: params.toList

theorem toList_atHead (name params : String) :
    (Rule.atHead name params).toList = '@' :: (name.toList ++ paramText params) := by
  unfold Rule.atHead paramText
  split <;> simp

theorem paramText_spec {params : String} (calm : Rule.Calm params) :
    (∀ c ∈ paramText params, isCalm c = true) ∧
      ∃ before, paramText params = before ++ params.toList ∧ ∀ c ∈ before, isBlank c = true := by
  unfold paramText
  split
  · rename_i empty
    rw [String.isEmpty_iff.1 empty]
    exact ⟨by simp, [], rfl, by simp⟩
  · rw [List.forall_mem_cons]
    exact ⟨⟨rfl, calm.chars⟩, [' '], rfl, List.all_eq_true.1 rfl⟩

/-- A front, a body and a closing brace on their lines, all behind some indentation. -/
theorem unlines_padded_block (pad front : List Char) (ls : List (List Char)) :
    unlines (((front ++ [' ', '\x7b']) :: (ls.map ([' ', ' '] ++ ·) ++ [['\x7d']])).map (pad ++ ·)) =
      pad ++ (front ++ ' ' :: '\x7b' ::
        (['\n'] ++ (unlines (ls.map (pad ++ [' ', ' '] ++ ·)) ++ pad) ++ ['\x7d']) ++ ['\n']) := by
  simp [Function.comp_def]

namespace Shows

variable {b : Option Bracket} {R : List ComponentValue → List Rule → Prop}

theorem decl {prop value : String} (plain : (Rule.decl prop value).isPlain = true) :
    Shows b ReadsBody (prop.toList ++ ':' :: ' ' :: (value.toList ++ [';'])) [.decl prop value] := by
  intro tail cs c rest later g read
  simp only [Rule.isPlain, Bool.and_eq_true] at plain
  obtain ⟨ident, -⟩ := Rule.isName_spec plain.1
  obtain ⟨calm, filled⟩ := Rule.isValue_spec plain.2
  have chars : ∀ c ∈ ' ' :: value.toList, isCalm c = true := List.forall_mem_cons.2 ⟨by decide, calm.chars⟩
  obtain ⟨ts, tokens, source, quiet⟩ := scan_calm chars (.inr rfl) tail
  have text : slice (plainFront ts) = value :=
    slice_calm calm [' '] [] (by simp [source]) (List.all_eq_true.1 rfl) (by simp)
  have start : prop.toList ++ ':' :: ' ' :: (value.toList ++ [';']) ++ tail =
      prop.toList ++ ':' :: (' ' :: value.toList ++ ';' :: tail) := by
    simp
  refine ⟨.token ⟨.ident prop, prop.toList⟩ :: .token ⟨.colon, [':']⟩ ::
    (plainFront ts ++ .token ⟨.semicolon, [';']⟩ :: cs), ?_, ?_⟩
  · rw [start, Token.scan_ident ident (.inr (.inr rfl)), Token.scan_colon, tokens, Token.scan_semicolon,
      String.ofList_toList]
    exact .token rfl (by simp [closes?]) (.token rfl (by simp [closes?])
      (Groups.plainFront quiet (.token rfl (by simp [closes?]) g)))
  · have result := readsBody_decl ⟨.ident prop, prop.toList⟩ ⟨.colon, [':']⟩ ⟨.semicolon, [';']⟩
      rfl rfl quiet (by rw [text, filled]) rfl read
    rwa [text] at result

variable (reading : Reading R)
include reading

/-- A selector and a block. -/
theorem rule {selector : String} (plain : Rule.isSelector selector = true) {text : List Char} {inside : List Rule}
    (h : Shows (some .curly) ReadsBody text inside) :
    Shows b R (selector.toList ++ ' ' :: '\x7b' :: (text ++ ['\x7d'])) [.rule selector inside] := by
  intro tail cs c rest later g read
  obtain ⟨calm, first, letters, whole, letter⟩ := Rule.isSelector_spec plain
  obtain ⟨x, curly, contents, gathered⟩ := h.block g
  have chars : ∀ c ∈ first :: (letters ++ [' ']), isCalm c = true := by
    have all := calm.chars
    rw [whole, List.forall_mem_cons] at all
    rw [← List.cons_append, List.forall_mem_append]
    exact ⟨all.2, List.all_eq_true.1 rfl⟩
  obtain ⟨ts, tokens, source, quiet⟩ := scan_calm chars (.inl rfl) (text ++ '\x7d' :: tail)
  have front : slice (plainFront (point :: ts)) = selector :=
    slice_calm calm [] [' '] (by simp [source, whole, point]) (by simp) (List.all_eq_true.1 rfl)
  have filled : selector.isEmpty = false := by
    rw [Bool.eq_false_iff]
    intro empty
    rw [String.isEmpty_iff.1 empty] at whole
    cases whole
  have start : selector.toList ++ ' ' :: '\x7b' :: (text ++ ['\x7d']) ++ tail =
      '.' :: first :: (letters ++ [' '] ++ '\x7b' :: (text ++ '\x7d' :: tail)) := by
    simp [whole]
  refine ⟨plainFront (point :: ts) ++ x :: cs, ?_, ?_⟩
  · rw [start, Token.scan_point letter, ← List.cons_append, tokens, ← List.cons_append]
    exact gathered.plainFront (List.forall_mem_cons.2 ⟨rfl, quiet⟩)
  · have result := reading.rule quiet (by rw [front, filled]) curly contents read
    rwa [front] at result

/-- The name and the parameters of an at-rule, before a block or a semicolon. -/
theorem atFront {name params : String} {body : List Rule} (plain : (Rule.atRule name params body).isPlain = true)
    {after : List Char} {d : Char} (stop : d = '\x7b' ∧ after = [' '] ∨ d = ';' ∧ after = [])
    {s : List Char} {mark : ComponentValue} {cs : List ComponentValue} {c : Option Token} {rest : List Token}
    {inside later : List Rule} (g : Groups b (Token.scan (d :: s)) (mark :: cs) c rest)
    (ends : mark.endsPrelude = true) (contents : ReadsBody mark.contents inside) (read : R cs later) :
    ∃ cs', Groups b (Token.scan ((Rule.atHead name params).toList ++ (after ++ d :: s))) cs' c rest ∧
      R cs' (.atRule name params inside :: later) := by
  obtain ⟨ident, other, calm⟩ := Rule.isPlain_atRule plain
  obtain ⟨chars, before, whole, blankBefore⟩ := paramText_spec calm
  have space : ∀ c ∈ after, c = ' ' := by
    rcases stop with ⟨-, rfl⟩ | ⟨-, rfl⟩ <;> simp
  have chars : ∀ c ∈ paramText params ++ after, isCalm c = true :=
    List.forall_mem_append.2 ⟨chars, fun c hc => by rw [space c hc]; rfl⟩
  obtain ⟨ts, tokens, source, quiet⟩ := scan_calm chars (stop.imp And.left And.left) s
  have front : slice (plainFront ts) = params :=
    slice_calm calm before after (by rw [source, whole, List.append_assoc]) blankBefore
      fun c hc => by rw [space c hc]; rfl
  -- The name ends at a space, or at the semicolon if there are no parameters.
  obtain ⟨e, r, start, stops⟩ :
      ∃ e r, paramText params ++ after ++ d :: s = e :: r ∧ (e = ' ' ∨ e = ';' ∨ e = ':') := by
    unfold paramText
    split
    · rcases stop with ⟨-, rfl⟩ | ⟨rfl, rfl⟩
      · exact ⟨_, _, rfl, .inl rfl⟩
      · exact ⟨_, _, rfl, .inr (.inl rfl)⟩
    · exact ⟨_, _, rfl, .inl rfl⟩
  refine ⟨.token ⟨.atKeyword name, '@' :: name.toList⟩ :: (plainFront ts ++ mark :: cs), ?_, ?_⟩
  · rw [toList_atHead, List.cons_append, List.append_assoc, ← List.append_assoc (paramText params), start,
      Token.scan_at ident stops, ← start, tokens, String.ofList_toList]
    exact .token rfl (by simp [closes?]) (Groups.plainFront quiet g)
  · have result := reading.atRule (t := ⟨.atKeyword name, '@' :: name.toList⟩) rfl other quiet ends contents read
    rwa [front] at result

theorem atStatement {name params : String} (plain : (Rule.atRule name params []).isPlain = true) :
    Shows b R ((Rule.atHead name params).toList ++ [';']) [.atRule name params []] := by
  intro tail cs c rest later g read
  have gathered : Groups b (Token.scan (';' :: tail)) (.token ⟨.semicolon, [';']⟩ :: cs) c rest := by
    rw [Token.scan_semicolon]
    exact .token rfl (by simp [closes?]) g
  rw [List.append_assoc]
  exact atFront reading plain (.inr ⟨rfl, rfl⟩) gathered rfl readsBody_nil read

theorem atBlock {name params : String} {inside : List Rule}
    (plain : (Rule.atRule name params inside).isPlain = true) {text : List Char}
    (h : Shows (some .curly) ReadsBody text inside) :
    Shows b R ((Rule.atHead name params).toList ++ ' ' :: '\x7b' :: (text ++ ['\x7d']))
      [.atRule name params inside] := by
  intro tail cs c rest later g read
  obtain ⟨x, curly, contents, gathered⟩ := h.block g
  have shown := atFront reading plain (.inl ⟨rfl, rfl⟩) gathered (by simp [endsPrelude, curly]) contents read
  simpa using shown

/-- A rule or at-rule on its lines, behind some indentation. -/
theorem lines_of_body {r : Rule} (block : r.isDecl = false) (plain : r.isPlain = true) (pad : List Char)
    (blank : ∀ c ∈ pad, isAsciiBlank c = true)
    (h : ∀ pad' : List Char, (∀ c ∈ pad', isAsciiBlank c = true) →
      Shows (some .curly) ReadsBody (unlines ((Rule.linesAll r.body).map (pad' ++ ·))) r.body) :
    Shows b R (unlines (r.lines.map (pad ++ ·))) [r] := by
  have feed : ∀ c ∈ ['\n'], isAsciiBlank c = true := List.all_eq_true.1 rfl
  -- The text between the braces: the lines of the body, and the gaps before and behind them.
  have inner : Shows (some .curly) ReadsBody
      (['\n'] ++ (unlines ((Rule.linesAll r.body).map (pad ++ [' ', ' '] ++ ·)) ++ pad)) r.body := by
    have deeper : ∀ c ∈ pad ++ [' ', ' '], isAsciiBlank c = true :=
      List.forall_mem_append.2 ⟨blank, List.all_eq_true.1 rfl⟩
    have shown := (blanks reading_body feed).append ((h _ deeper).append (blanks reading_body blank))
    rwa [List.nil_append, List.append_nil] at shown
  have framed {text : List Char} (shown : Shows b R text [r]) : Shows b R (pad ++ (text ++ ['\n'])) [r] :=
    (blanks reading blank).append (shown.append (blanks reading feed))
  cases r with
  | decl prop value => cases block
  | rule selector body =>
    simp only [Rule.isPlain, Bool.and_eq_true] at plain
    rw [Rule.lines, unlines_padded_block]
    exact framed (rule reading plain.1 inner)
  | atRule name params body =>
    rw [Rule.lines]
    split
    · rename_i empty
      obtain rfl := List.isEmpty_iff.1 empty
      rw [List.map_singleton, unlines_cons, unlines_nil, List.append_assoc]
      exact framed (atStatement reading plain)
    · rw [unlines_padded_block]
      exact framed (atBlock reading plain inner)

end Shows

mutual

/-- An item of a body on its lines, behind some indentation. -/
theorem shows_lines (r : Rule) (plain : r.isPlain = true) (pad : List Char)
    (blank : ∀ c ∈ pad, isAsciiBlank c = true) :
    Shows (some .curly) ReadsBody (unlines (r.lines.map (pad ++ ·))) [r] := by
  cases r with
  | decl prop value =>
    have shown := (Shows.blanks (b := some .curly) reading_body blank).append
      ((Shows.decl plain).append (Shows.blanks reading_body (w := ['\n']) (List.all_eq_true.1 rfl)))
    simpa [Rule.lines] using shown
  | rule selector body =>
    exact Shows.lines_of_body reading_body rfl plain pad blank
      (shows_linesAll body (Rule.allPlain_body plain))
  | atRule name params body =>
    exact Shows.lines_of_body reading_body rfl plain pad blank
      (shows_linesAll body (Rule.allPlain_body plain))

theorem shows_linesAll (rules : List Rule) (plain : Rule.allPlain rules = true) (pad : List Char)
    (blank : ∀ c ∈ pad, isAsciiBlank c = true) :
    Shows (some .curly) ReadsBody (unlines ((Rule.linesAll rules).map (pad ++ ·))) rules := by
  cases rules with
  | nil => exact Shows.nil
  | cons r rest =>
    simp only [Rule.allPlain, Bool.and_eq_true] at plain
    rw [Rule.linesAll, List.map_append, unlines_append]
    exact (shows_lines r plain.1 pad blank).append (shows_linesAll rest plain.2 pad blank)

end

theorem shows_sheet {rules : List Rule} (blocks : ∀ r ∈ rules, r.isDecl = false)
    (plain : Rule.allPlain rules = true) : Shows none ReadsSheet (unlines (Rule.linesAll rules)) rules := by
  induction rules with
  | nil => exact Shows.nil
  | cons r rest ih =>
    simp only [Rule.allPlain, Bool.and_eq_true] at plain
    rw [List.forall_mem_cons] at blocks
    rw [Rule.linesAll, unlines_append]
    have first := Shows.lines_of_body (b := none) reading_sheet blocks.1 plain.1 [] (by simp)
      (shows_linesAll r.body (Rule.allPlain_body plain.1))
    simp only [List.nil_append, List.map_id'] at first
    exact first.append (ih blocks.2 plain.2)

/-- A plain sheet is read back as it was, and nothing is skipped. -/
theorem plain_sheet_read_back {rules : List Rule} (blocks : ∀ r ∈ rules, r.isDecl = false)
    (plain : Rule.allPlain rules = true) : parse (Rule.renderAll rules) = .ok rules := by
  have ended : Groups none (Token.scan []) [] none [] := by
    rw [Token.scan]
    exact .ended
  obtain ⟨cs, gathered, read⟩ := shows_sheet blocks plain ended readsSheet_nil
  rw [List.append_nil] at gathered read
  have text : (Rule.renderAll rules).toList = unlines (Rule.linesAll rules) :=
    Rule.toList_renderAll blocks (Rule.oneLine_of_allPlain plain)
  rw [parse, text, ComponentValue.scan, gathered.ofTokens_eq]
  exact read _ _ _ rfl

/-- An at-rule without a block, and a rule with a media query inside that has rules of its own. -/
theorem plain_sheet_read_back_nested :
    parse (Rule.renderAll [.atRule "import" "reset" [], .rule ".card:hover > .title" [.decl "margin-top" "-1.5em",
        .atRule "media" "print" [.rule ".note, #top" [.decl "color" "#fff"], .atRule "page" "" []]]]) =
      .ok [.atRule "import" "reset" [], .rule ".card:hover > .title" [.decl "margin-top" "-1.5em",
        .atRule "media" "print" [.rule ".note, #top" [.decl "color" "#fff"], .atRule "page" "" []]]] :=
  plain_sheet_read_back (by decide) (by decide +kernel)

end Stencil.Style
