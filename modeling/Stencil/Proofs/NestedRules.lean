import Stencil.Proofs.StyleAligned

/-! Plain rules inside a media query. -/
namespace Stencil.Style

open Text ComponentValue

/-- An identifier without escapes and without blanks at its ends. -/
structure IsIdent (s : String) : Prop where
  plain : Token.Plain s.toList
  trimmed : Chars.trim s.toList = s.toList

namespace Media

def head (params : String) : List Char := '@' :: ("media".toList ++ ' ' :: params.toList)

def headTokens (params : String) : List Token :=
  [⟨.atKeyword "media", '@' :: "media".toList⟩, ⟨.space, [' ']⟩, ⟨.ident params, params.toList⟩]

variable {params : String}

theorem scan_head (ident : IsIdent params) {d : Char} (ends : d = ' ' ∨ d = ';' ∨ d = ':') (s : List Char) :
    Token.scan (head params ++ d :: s) = headTokens params ++ Token.scan (d :: s) := by
  have media : Token.Plain "media".toList := ⟨rfl, List.all_eq_true.1 rfl⟩
  have whole : head params ++ d :: s = '@' :: ("media".toList ++ ' ' :: (params.toList ++ d :: s)) := by
    simp [head]
  rw [whole, Token.scan_at media (.inl rfl), Token.scan_blank rfl _ (ident.plain.solid _),
    Token.scan_ident ident.plain ends, String.ofList_toList, String.ofList_toList]
  rfl

/-- The components between the keyword and what follows the parameters. -/
def front (params : String) (extra : List ComponentValue) : List ComponentValue :=
  .token ⟨.space, [' ']⟩ :: .token ⟨.ident params, params.toList⟩ :: extra

theorem slice_front (ident : IsIdent params) {extra : List ComponentValue}
    (blank : ∀ c ∈ sourceAll extra, isBlank c = true) : slice (front params extra) = params := by
  have source : sourceAll (front params extra) = [' '] ++ (params.toList ++ sourceAll extra) := by
    simp [front]
  rw [slice, source, Chars.trim_blank_append _ _ (List.all_eq_true.1 rfl), Chars.trim_append_blank _ _ blank,
    ident.trimmed, String.ofList_toList]

/-- Behind its parameters a media query goes on with a semicolon or a block. -/
theorem read_front (ident : IsIdent params) (extra : List ComponentValue)
    (blank : ∀ c ∈ sourceAll extra, isBlank c = true) (passes : ∀ c ∈ extra, c.endsPrelude = false)
    (mark : ComponentValue) (ends : mark.endsPrelude = true) (rest : List ComponentValue) (line : Nat) :
    ∃ line' line'', (readRules true line (.token ⟨.atKeyword "media", '@' :: "media".toList⟩ ::
      (front params extra ++ mark :: rest))).outcome =
      (readRules false line'' rest).outcome.map
        (.atRule "media" params (readBody line' mark.contents).1 :: ·) := by
  have passes' : ∀ c ∈ front params extra, c.endsPrelude = false := by
    unfold front
    rw [List.forall_mem_cons, List.forall_mem_cons]
    exact ⟨rfl, rfl, passes⟩
  obtain ⟨line', line'', read⟩ := readRules_atRule true line (t := ⟨.atKeyword "media", '@' :: "media".toList⟩)
    rfl (by decide) passes' ends (List.dropWhile_cons_of_neg (by decide))
  rw [slice_front ident blank] at read
  exact ⟨line', line'', congrArg (·.outcome) read⟩

/-- A media query with a block is all there is just if nothing but gaps is behind the block. -/
theorem read_block (ident : IsIdent params) {text : List Char} {inner outer : List ComponentValue}
    {closing : Option Token} {rest : List Token}
    (inside : Groups (some .curly) (Token.scan text) inner closing rest)
    (behind : Groups none rest outer none []) (line : Nat) :
    ∃ line', ∀ rules, (readRules true line (scan (head params ++ ' ' :: '\x7b' :: text))).outcome =
        .ok [.atRule "media" params rules] ↔
      (∀ c ∈ outer, c.isBetweenRules = true) ∧ (readBody line' inner).1 = rules := by
  have g : Groups none (headTokens params ++ ⟨.space, [' ']⟩ :: ⟨.opening .curly, ['\x7b']⟩ :: Token.scan text)
      (.token ⟨.atKeyword "media", '@' :: "media".toList⟩ :: (front params [.token ⟨.space, [' ']⟩] ++
        .block .curly ⟨.opening .curly, ['\x7b']⟩ inner closing :: outer)) none [] := by
    exact .outer rfl (.outer rfl (.outer rfl (.outer rfl (.block rfl inside behind))))
  have tokens : Token.scan (head params ++ ' ' :: '\x7b' :: text) = _ :=
    (scan_head ident (.inl rfl) _).trans
      (congrArg _ ((Token.scan_blank rfl _ (by rintro d ⟨⟩; rfl)).trans (congrArg _ (Token.scan_brace text))))
  obtain ⟨line', line'', read⟩ := read_front ident [.token ⟨.space, [' ']⟩] (List.all_eq_true.1 rfl) (by decide)
    (.block .curly ⟨.opening .curly, ['\x7b']⟩ inner closing) rfl outer line
  refine ⟨line', fun rules => ?_⟩
  rw [ComponentValue.scan, tokens, g.ofTokens_eq, read, ← readRules_eq_nil_iff line'']
  cases (readRules false line'' outer).outcome with
  | error e => simp [Except.map]
  | ok later => simp [Except.map, contents, and_comm]

theorem read_semicolon (ident : IsIdent params) (line : Nat) :
    (readRules true line (scan (head params ++ [';', '\n']))).outcome = .ok [.atRule "media" params []] := by
  have g : Groups none (headTokens params ++ [⟨.semicolon, [';']⟩, lastSpace])
      (.token ⟨.atKeyword "media", '@' :: "media".toList⟩ :: (front params [] ++
        .token ⟨.semicolon, [';']⟩ :: [.token lastSpace])) none [] :=
    .outer rfl (.outer rfl (.outer rfl (.outer rfl (.outer rfl .ended))))
  have ending : Token.scan [';', '\n'] = [⟨.semicolon, [';']⟩, lastSpace] := by
    rw [Token.scan_semicolon, Token.scan_blank rfl [] (by simp), Token.scan]
    rfl
  rw [ComponentValue.scan, scan_head ident (.inr (.inl rfl)), ending, g.ofTokens_eq]
  obtain ⟨line', line'', read⟩ :=
    read_front ident [] (by simp [sourceAll, sourceAllOnto]) (by simp) (.token ⟨.semicolon, [';']⟩) rfl
      [.token lastSpace] line
  rw [read, readBody_nil rfl, (readRules_eq_nil_iff _).2 (by decide)]
  rfl

theorem toList_render (ident : IsIdent params) {rules : List Rule} (one : Rule.OneLine rules) :
    (Rule.renderAll [.atRule "media" params rules]).toList =
      if rules.isEmpty then head params ++ [';', '\n']
      else head params ++ ' ' :: '\x7b' ::
        ('\n' :: (unlines ((Rule.linesAll rules).map ([' ', ' '] ++ ·)) ++ ['\x7d', '\n'])) := by
  have atHead : (Rule.atHead "media" params).toList = head params := by
    have filled : params.isEmpty = false := by
      cases empty : params.isEmpty with
      | false => rfl
      | true =>
        have start := ident.plain.start
        rw [String.isEmpty_iff.1 empty] at start
        cases start
    rw [Rule.atHead, filled, if_neg (by decide)]
    simp [head]
  rw [Rule.renderAll, toList_concat, List.map_singleton, List.flatMap_singleton, Rule.render]
  split
  · simp [atHead]
  · simp [atHead, Rule.toList_renderBody rules one]

end Media

theorem isDecl_of_selector {r : Rule} (h : r.selector?.isSome = true) : r.isDecl = false := by
  cases r with
  | decl prop value => cases h
  | rule selector body => rfl
  | atRule name params body => rfl

/-- The last line of plain rules is a closing brace. -/
theorem linesAll_closed {rules : List Rule} (plain : ∀ r ∈ rules, r.selector?.isSome = true)
    (filled : rules ≠ []) : ∃ ls, Rule.linesAll rules = ls ++ [['\x7d']] := by
  induction rules with
  | nil => exact absurd rfl filled
  | cons r rest ih =>
    rw [List.forall_mem_cons] at plain
    rw [Rule.linesAll]
    by_cases last : rest = []
    · subst last
      cases r with
      | rule selector body => exact ⟨_, (List.append_nil _).trans (List.cons_append ..).symm⟩
      | atRule name params body => cases plain.1
      | decl prop value => cases plain.1
    · obtain ⟨ls, closed⟩ := ih plain.2 last
      exact ⟨r.lines ++ ls, by rw [closed, List.append_assoc]⟩

theorem Sheet.cons {gap : ComponentValue → Bool} {cs : List ComponentValue}
    {fronts : List (List ComponentValue)} {rules : List Rule} {x : ComponentValue} (hx : gap x = true)
    (sheet : Sheet gap cs fronts rules) : Sheet gap (x :: cs) fronts rules := by
  cases sheet with
  | done gaps => exact .done (List.forall_mem_cons.2 ⟨hx, gaps⟩)
  | rule line gaps isFront curly later =>
    exact .rule line (List.forall_mem_cons.2 ⟨hx, gaps⟩) isFront curly later

section

variable {cs : List ComponentValue} {fronts : List (List ComponentValue)} {rules : List Rule}

/-- The first line of a sheet that is read starts with its selector. -/
theorem Sheet.solid {gap : ComponentValue → Bool} (sheet : Sheet gap cs fronts rules) :
    ∀ c ∈ (unlines (Rule.linesAll rules)).head?, isAsciiBlank c = false := by
  cases sheet with
  | done _ => exact nofun
  | @rule _ front _ block _ _ line _ isFront _ _ =>
    intro c hc
    obtain ⟨inside, lines⟩ := unlines_rule (slice front) (readBody line block.contents).1
    rw [Rule.linesAll, unlines_append, lines] at hc
    have trimmed : Chars.trim (slice front).toList = (slice front).toList := by
      rw [slice, String.toList_ofList, Chars.trim_trim]
    cases whole : (slice front).toList with
    | nil =>
      have text := isFront.text
      rw [String.toList_eq_nil_iff.1 whole] at text
      cases text
    | cons d r =>
      rw [whole] at hc trimmed
      obtain rfl := Option.some.inj hc
      rw [Bool.eq_false_iff]
      intro blank
      cases (Chars.isBlank_of_trim_eq trimmed).symm.trans (isBlank_of_isAsciiBlank blank)

theorem scan_line {text : List Char} (solid : ∀ c ∈ text.head?, isAsciiBlank c = false) :
    scan ('\n' :: text) = .token lastSpace :: scan text := by
  have g : Groups none (lastSpace :: Token.scan text) (.token lastSpace :: scan text) none [] :=
    .token rfl nofun (Groups.scan text)
  rw [ComponentValue.scan, Token.scan_blank rfl _ solid]
  exact g.ofTokens_eq

theorem follows_indented (plain : ∀ r ∈ rules, r.selector?.isSome = true) (one : Rule.OneLine rules)
    (filled : rules ≠ []) :
    EndsClosed ('\n' :: unlines (Rule.linesAll rules)) ∧
      Token.Follows (Token.scan ('\n' :: unlines (Rule.linesAll rules)))
        (Token.scan ('\n' :: (unlines ((Rule.linesAll rules).map ([' ', ' '] ++ ·)) ++ ['\x7d', '\n']))) := by
  have lines := Rule.isLine_linesAll rules one
  have closed : EndsClosed ('\n' :: unlines (Rule.linesAll rules)) := by
    obtain ⟨ls, last⟩ := linesAll_closed plain filled
    rw [last, unlines_append]
    exact endsClosed_unlines ls
  exact ⟨closed, Token.follows_of_reflow (reflow_unlines lines) (laid_unlines lines) closed
    (endsClosed_unlines _)⟩

/-- Tokens at the end of a text, gathered with those of a text that follows it. -/
theorem Groups.follow_scan {b : Option Bracket} {ts rest : List Token} {c : Option Token} {whole : List Char}
    (g : Groups b ts cs c rest) (part : ts <:+ Token.scan whole) (closed : EndsClosed whole) {ts' : List Token}
    (h : Token.Follows ts ts') : Followed b cs c rest ts' := by
  refine g.follow (fun t ht => (Token.scanned_of_mem (part.subset ht)).written) ?_ closed h
  obtain ⟨front, split⟩ := part
  exact ⟨Token.flat front, by rw [← Token.flat_append, split, Token.flat_scan]⟩

/-- Without a closing brace in a front the block of a media query takes in all rules. -/
theorem inside_of_unclosed {whole : List Char} (apart : Groups.Unclosed (some .curly) (scan whole))
    (closed : EndsClosed whole) {text : List Char} (follows : Token.Follows (Token.scan whole) (Token.scan text)) :
    ∃ inner closing rest outer, Groups (some .curly) (Token.scan text) inner closing rest ∧
      Groups none rest outer none [] ∧ AlikeAll (scan whole) inner ∧ ∀ c ∈ outer, c.isBetweenRules = true := by
  have g := (Groups.scan whole).inside apart
  obtain ⟨inner, extra, closing, rest, inside, alike, trailing, last⟩ :=
    (g.follow_scan (List.suffix_refl _) closed follows).ended rfl
  have all := alikeAll_append alike (trailing rfl)
  rcases last with rfl | rfl
  · exact ⟨_, _, _, [], inside, .ended, all, nofun⟩
  · exact ⟨_, _, _, [.token lastSpace], inside, .token rfl nofun .ended, all, by decide⟩

theorem Token.closes?_eq_some {t : Token} {b : Bracket} : t.closes? = some b ↔ t.kind = .closing b := by
  unfold Token.closes?
  split
  · rename_i kind
    rw [kind]
    simp
  · rename_i other
    exact ⟨nofun, fun kind => absurd kind (other b)⟩

theorem isToken_token {t : Token} {kind : Token.Kind} :
    (ComponentValue.token t).isToken kind = true ↔ t.kind = kind := by
  simp [isToken, kind?]

theorem Groups.unclosed_of {b : Bracket} (h : ∀ c ∈ cs, c.isToken (.closing b) = false) :
    Unclosed (some b) cs := by
  rintro t ht b' ⟨⟩ closes
  have none := h _ ht
  rw [isToken_token.2 (Token.closes?_eq_some.1 closes)] at none
  cases none

theorem any_isCurly {ds : List ComponentValue} (h : List.Forall₂ Alike cs ds) :
    ds.any isCurly = cs.any isCurly := by
  induction h with
  | nil => rfl
  | cons first _ ih => rw [List.any_cons, List.any_cons, first.isCurly, ih]

/-- The first closing brace outside of all blocks would end a block that was opened before them. -/
theorem Groups.closed_early {ts : List Token} {before after : List ComponentValue} {x stray : ComponentValue}
    (g : Groups none ts (before ++ x :: after) none []) (member : stray ∈ before)
    (closes : stray.isToken (.closing .curly) = true) :
    ∃ inner t back later, Groups (some .curly) ts inner (some t) back ∧
      Groups none back (later ++ x :: after) none [] := by
  have parts := List.takeWhile_append_dropWhile (p := (!·.isToken (.closing .curly))) (l := before)
  cases hd : before.dropWhile (!·.isToken (.closing .curly)) with
  | nil =>
    have none := List.dropWhile_eq_nil_iff.1 hd stray member
    rw [closes] at none
    cases none
  | cons first later =>
    have first_closes : first.isToken (.closing .curly) = true := by simpa using not_of_dropWhile hd
    rw [hd] at parts
    rw [← parts, List.append_assoc, List.cons_append] at g
    obtain ⟨front, back, rfl, g', regroup⟩ := Groups.split g
    have apart : Unclosed (some .curly) (before.takeWhile (!·.isToken (.closing .curly))) :=
      unclosed_of fun c hc => by simpa using List.mem_takeWhile_imp hc
    cases g' with
    | block _ _ _ => cases first_closes
    | @token _ t back _ _ _ _ _ g' =>
      have t_closes := Token.closes?_eq_some.2 (isToken_token.1 first_closes)
      exact ⟨_, t, back, later, regroup (some .curly) (t :: back) [] (some t) back apart (.closed t_closes), g'⟩

/-- A closing brace in a front ends the block of a media query, and the block of the front's own rule stays
outside of it. -/
theorem outside_of_stray {whole : List Char} {before after : List ComponentValue} {block stray : ComponentValue}
    (found : scan whole = before ++ block :: after) (curly : block.isCurly = true) (inFront : stray ∈ before)
    (closes : stray.isToken (.closing .curly) = true) (closed : EndsClosed whole) {text : List Char}
    (follows : Token.Follows (Token.scan whole) (Token.scan text)) :
    ∃ inner closing rest outer, Groups (some .curly) (Token.scan text) inner closing rest ∧
      Groups none rest outer none [] ∧ outer.any isCurly = true := by
  have g := Groups.scan whole
  rw [found] at g
  obtain ⟨inner, t, back, later, early, late⟩ := g.closed_early inFront closes
  obtain ⟨inner', t', back', inside, -, -, follows'⟩ :=
    (early.follow_scan (List.suffix_refl _) closed follows).closed t rfl
  obtain ⟨outer, extra, c, rest, outside, alike, -⟩ :=
    (late.follow_scan early.rest_suffix closed follows').ended rfl
  obtain ⟨rfl, rfl⟩ := outside.outside
  refine ⟨inner', some t', back', outer ++ extra, inside, outside, ?_⟩
  rw [List.any_append, any_isCurly alike]
  simp [curly]

/-- The tokens outside of all blocks are those of the fronts, and spaces. -/
theorem Sheet.unclosed (sheet : Sheet isSpace cs fronts rules)
    (open_ : ∀ front ∈ fronts, ∀ c ∈ front, c.isToken (.closing .curly) = false) :
    ∀ c ∈ cs, c.isToken (.closing .curly) = false := by
  have space {c : ComponentValue} (h : c.isSpace = true) : c.isToken (.closing .curly) = false := by
    rw [Bool.eq_false_iff]
    intro closes
    simp [isSpace, isToken, beq_iff_eq.1 closes] at h
  induction sheet with
  | done spaces => exact fun c hc => space (spaces c hc)
  | rule line spaces _ curly _ ih =>
    rw [List.forall_mem_cons] at open_
    simp only [List.forall_mem_append, List.forall_mem_cons]
    exact ⟨fun c hc => space (spaces c hc), open_.1, isToken_of_isCurly curly _, ih open_.2⟩

theorem selectors_inLine (one : Rule.OneLine rules) : ∀ r ∈ rules, ∀ s ∈ r.selector?, '\n' ∉ s.toList := by
  induction rules with
  | nil => exact nofun
  | cons r rest ih =>
    obtain ⟨here, later⟩ := Rule.oneLine_cons.1 one
    rw [List.forall_mem_cons]
    refine ⟨?_, ih later⟩
    cases r with
    | rule selector body => rintro s ⟨⟩; exact (Rule.oneLine_rule.1 here).1
    | atRule name params body => exact nofun
    | decl prop value => exact nofun

/-- A selector that stands in a body as it does at the top level: outside of blocks it has no semicolon and
no closing brace, and it does not start with an identifier and a colon. -/
def Nests (selector : String) : Bool := nests (frontOf selector)

/-- Plain rules that are read back are read back inside a media query just if their selectors nest. -/
theorem media_read_back_iff {params : String} (ident : IsIdent params)
    (plain : ∀ r ∈ rules, r.selector?.isSome = true) (one : Rule.OneLine rules)
    (back : (parse (Rule.renderAll rules)).outcome = .ok rules) :
    (parse (Rule.renderAll [.atRule "media" params rules])).outcome = .ok [.atRule "media" params rules] ↔
      ∀ r ∈ rules, ∀ s ∈ r.selector?, Nests s = true := by
  unfold parse at back ⊢
  rw [Rule.toList_renderAll (fun r hr => isDecl_of_selector (plain r hr)) one] at back
  rw [Media.toList_render ident one]
  by_cases filled : rules = []
  · subst filled
    rw [List.isEmpty_nil, if_pos rfl, Media.read_semicolon ident]
    exact ⟨fun _ => nofun, fun _ => rfl⟩
  rw [if_neg (by simpa using filled)]
  obtain ⟨fronts, sheet, tight⟩ := sheet_of_back plain back
  have whole := scan_line sheet.solid
  have indoors := sheet.cons (x := .token lastSpace) rfl
  rw [← whole] at indoors
  have genuine := genuine_scan ('\n' :: unlines (Rule.linesAll rules))
  have laid := laid_unlines (Rule.isLine_linesAll rules one)
  obtain ⟨closed, follows⟩ := follows_indented plain one filled
  have found : ∀ front ∈ fronts, frontOf (slice front) = front := by
    intro front member
    obtain ⟨isFront, before, block, after, split, curly⟩ := indoors.found member
    have inLine := (sheet.selectors fun s => '\n' ∉ s.toList).1 (selectors_inLine one) front member
    exact frontOf_slice laid split isFront curly (tight front member) inLine
  have fronts_nest : (∀ front ∈ fronts, Nests (slice front) = true) ↔ ∀ front ∈ fronts, nests front = true :=
    forall₂_congr fun front member => by rw [Nests, found front member]
  rw [sheet.selectors fun s => Nests s = true, fronts_nest]
  by_cases open_ : ∀ front ∈ fronts, ∀ c ∈ front, c.isToken (.closing .curly) = false
  · obtain ⟨inner, closing, rest, outer, inside, behind, alike, gaps⟩ :=
      inside_of_unclosed (Groups.unclosed_of (indoors.unclosed open_)) closed follows
    obtain ⟨line, read⟩ := Media.read_block ident inside behind 1
    have agree := readBody_alike alike 0 line
    rw [read, and_iff_right gaps]
    constructor
    · intro same
      rw [same] at agree
      exact nests_of_readBody indoors genuine tight open_ (agree.eq_of_right one).symm
    · intro nest
      rw [(agree_readBody indoors nest 0).eq_of_left one] at agree
      exact agree.eq_of_left one
  · push Not at open_
    obtain ⟨front, member, stray, hs, closes⟩ := open_
    obtain ⟨-, before, block, after, split, curly⟩ := indoors.found member
    rw [← List.append_assoc] at split
    obtain ⟨inner, closing, rest, outer, inside, behind, left⟩ :=
      outside_of_stray split curly (List.mem_append_right before hs) (by simpa using closes) closed follows
    obtain ⟨line, read⟩ := Media.read_block ident inside behind 1
    rw [read]
    constructor
    · rintro ⟨gaps, -⟩
      obtain ⟨c, hc, curly'⟩ := List.any_eq_true.1 left
      have gap := gaps c hc
      simp [isBetweenRules, isSpace, isToken_of_isCurly curly'] at gap
    · intro nest
      exact absurd (open_of_nests (nest front member) stray hs) closes

end

/-- A pseudo-class behind a descendant, and an at-rule with a colon in its parameters inside of a rule. -/
theorem media_read_back_descendant :
    (parse (Rule.renderAll [.atRule "media" "print" [.rule "li a:hover" [.decl "color" "red"],
        .rule ".note" [.atRule "supports" "(gap: 0)" [.decl "margin" "0"]]]])).outcome =
      .ok [.atRule "media" "print" [.rule "li a:hover" [.decl "color" "red"],
        .rule ".note" [.atRule "supports" "(gap: 0)" [.decl "margin" "0"]]]] :=
  (media_read_back_iff ⟨⟨rfl, List.all_eq_true.1 rfl⟩, rfl⟩ (by decide) (by decide) (by decide +kernel)).2
    (by decide +kernel)

/-- A rule whose selector starts like a declaration is read back, but becomes a declaration in a media query. -/
theorem media_loses_hover :
    (parse (Rule.renderAll [.rule "a:hover" [.decl "color" "red"]])).outcome =
        .ok [.rule "a:hover" [.decl "color" "red"]] ∧
      (parse (Rule.renderAll [.atRule "media" "print" [.rule "a:hover" [.decl "color" "red"]]])).outcome =
        .ok [.atRule "media" "print" [.decl "a" "hover \x7b\n    color: red;\n  \x7d"]] := by
  decide +kernel

end Stencil.Style
