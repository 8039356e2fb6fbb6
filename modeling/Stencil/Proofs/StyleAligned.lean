import Stencil.Proofs.StyleFronts

/-! Where a printed sheet of plain rules is read back, every rule is read from its own lines. All the ink of
the sheet is read then, so nothing with ink is left between the rules, and the front of a rule is its
selector with the one space behind it. -/
namespace Stencil.Style

open Text ComponentValue

/-- Two characters with ink in one text, with as much ink in front of them, stand at one place. -/
theorem eq_of_ink {a b u v : List Char} {c d : Char} (whole : u ++ c :: a = v ++ d :: b)
    (hc : isInk c = true) (hd : isInk d = true) (level : ink u = ink v) : u = v := by
  rcases List.append_eq_append_iff.1 whole with ⟨w, rfl, rest⟩ | ⟨w, rfl, rest⟩
  all_goals
    cases w with
    | nil => rw [List.append_nil]
    | cons x w =>
      obtain ⟨rfl, -⟩ := List.cons.inj rest
      simp only [ink_append, ink_cons, hc, hd, if_true] at level
      omega

/-- A text ends in a space alone if a character that is not blank stands before it. -/
theorem eq_space_of_blanks {a b s : List Char} {c d : Char} (whole : a ++ c :: s = b ++ [d, ' '])
    (hc : isBlank c = false) (hd : isBlank d = false) (blank : ∀ x ∈ s, isBlank x = true) : s = [' '] := by
  rcases List.append_eq_append_iff.1 whole with ⟨w, -, rest⟩ | ⟨w, -, rest⟩
  · cases w with
    | nil => exact (List.cons.inj rest).2
    | cons x w =>
      have inside : d ∈ s := (List.cons.inj rest).2 ▸ by simp
      rw [blank d inside] at hd
      cases hd
  · cases w with
    | nil => exact (List.cons.inj rest).2.symm
    | cons x w =>
      have inside : c ∈ [' '] := (List.cons.inj rest).2 ▸ by simp
      rw [List.mem_singleton.1 inside] at hc
      cases hc

variable {gap : ComponentValue → Bool} {cs : List ComponentValue} {fronts : List (List ComponentValue)}
  {rules : List Rule}

namespace Sheet

/-- A block in braces has the ink of its brace and of what is read in it. -/
theorem ink_block {block : ComponentValue} (genuine : Genuine block) (curly : block.isCurly = true)
    (line : Nat) : 1 + Rule.inkAll (readBody line block.contents).1 ≤ ink block.source :=
  Nat.le_trans (Nat.add_le_add_left (ink_readBody_le genuine.contents line) 1) (genuine.ink_curly curly)

theorem ink_le (sheet : Sheet gap cs fronts rules) (genuine : ∀ x ∈ cs, Genuine x) :
    Rule.inkAll rules ≤ ink (sourceAll cs) := by
  induction sheet with
  | done _ => exact Nat.zero_le _
  | @rule before front rest block _ _ line _ _ curly _ ih =>
    simp only [List.forall_mem_append, List.forall_mem_cons] at genuine
    obtain ⟨-, -, here, later⟩ := genuine
    have selector := ink_slice_le front
    have body := ink_block here curly line
    have tail := ih later
    simp only [sourceAll_append, sourceAll_cons, ink_append, Rule.inkAll, Rule.ink]
    omega

end Sheet

/-- What stands between rules and has no ink is a space. -/
theorem isSpace_of_ink {c : ComponentValue} (genuine : Genuine c) (between : c.isBetweenRules = true)
    (none : ink c.source = 0) : c.isSpace = true := by
  have marked {kind : Token.Kind} {s : List Char} (h : c.isToken kind = true) (hs : 0 < ink s)
      (written : ∀ t : Token, t.kind = kind → t.Written → t.source = s) : c.isSpace = true := by
    cases genuine with
    | block _ _ _ => cases h
    | token scanned =>
      rw [source_token, written _ (Option.some.inj (beq_iff_eq.1 h)) scanned.written] at none
      omega
  simp only [isBetweenRules, Bool.or_eq_true] at between
  rcases between with (space | opening) | closing
  · exact space
  · refine marked opening (by decide : 0 < ink ['<', '!', '-', '-']) fun t kind written => ?_
    unfold Token.Written at written
    rwa [kind] at written
  · refine marked closing (by decide : 0 < ink ['-', '-', '>']) fun t kind written => ?_
    unfold Token.Written at written
    rwa [kind] at written

theorem isSpace_of_ink_all (genuine : ∀ x ∈ cs, Genuine x) (between : ∀ c ∈ cs, c.isBetweenRules = true)
    (none : ink (sourceAll cs) = 0) : ∀ c ∈ cs, c.isSpace = true := by
  induction cs with
  | nil => exact nofun
  | cons c cs ih =>
    rw [List.forall_mem_cons] at genuine between ⊢
    rw [sourceAll_cons, ink_append] at none
    exact ⟨isSpace_of_ink genuine.1 between.1 (by omega), ih genuine.2 between.2 (by omega)⟩

theorem isAsciiBlank_of_ink {c : Char} (blank : isBlank c = true) (none : isInk c = false) :
    isAsciiBlank c = true := by
  simp only [isInk, Bool.not_eq_false', Bool.or_eq_true, beq_iff_eq] at none
  rcases none with (ascii | rfl) | rfl
  · exact ascii
  · cases blank
  · cases blank

theorem source_front {front : List ComponentValue} (isFront : IsFront front)
    (genuine : ∀ x ∈ front, Genuine x) (level : ink (sourceAll front) = ink (slice front).toList) :
    ∃ trail, sourceAll front = (slice front).toList ++ trail ∧ ink trail = 0 ∧
      ∀ c ∈ trail, isBlank c = true := by
  obtain ⟨lead, trail, split, blankLead, blank⟩ := Chars.trim_split (sourceAll front)
  obtain ⟨first, after, rfl, between, -⟩ := isFront.start
  have counted := congrArg ink split
  rw [slice, String.toList_ofList] at level ⊢
  simp only [ink_append] at counted
  cases lead with
  | nil => exact ⟨trail, by rw [List.nil_append] at split; exact split, by omega, blank⟩
  | cons c lead =>
    obtain ⟨d, r, source, space⟩ := (genuine first List.mem_cons_self).head
    rw [sourceAll_cons, source] at split
    obtain rfl : d = c := (List.cons.inj split).1
    have none : isInk d = false := by
      rw [ink_cons] at counted
      cases hd : isInk d with
      | false => rfl
      | true => rw [hd, if_pos rfl] at counted; omega
    have inside := space (isAsciiBlank_of_ink (blankLead d List.mem_cons_self) none)
    simp [isBetweenRules, inside] at between

/-- A selector that is read has a last character, and this is not blank. -/
theorem slice_last {front : List ComponentValue} (filled : (slice front).isEmpty = false) :
    ∃ r c, (slice front).toList = r ++ [c] ∧ isBlank c = false := by
  rcases List.eq_nil_or_concat (slice front).toList with none | ⟨r, c, whole⟩
  · rw [String.toList_eq_nil_iff.1 none] at filled
    cases filled
  · rw [List.concat_eq_append] at whole
    have trimmed : Chars.trim (r ++ [c]) = r ++ [c] := by
      rw [← whole, slice, String.toList_ofList, Chars.trim_trim]
    exact ⟨r, c, whole, Chars.isBlank_of_trim_eq_last trimmed⟩

theorem unlines_rule (selector : String) (body : List Rule) :
    ∃ inside, unlines (Rule.lines (.rule selector body)) = selector.toList ++ ' ' :: '\x7b' :: inside := by
  rw [Rule.lines, unlines_cons, List.append_assoc]
  exact ⟨_, rfl⟩

namespace Sheet

/-- Reading keeps level with the printed form: where as much ink is behind both, the next rule that is read
is the next one that is printed. -/
theorem aligned (sheet : Sheet isBetweenRules cs fronts rules) (genuine : ∀ x ∈ cs, Genuine x)
    (read printed : List Char)
    (whole : read ++ sourceAll cs = printed ++ unlines (Rule.linesAll rules))
    (level : ink read = ink printed) :
    Sheet isSpace cs fronts rules ∧ ∀ front ∈ fronts, sourceAll front = (slice front).toList ++ [' '] := by
  induction sheet generalizing read printed with
  | @done cs between =>
    have counted := congrArg ink whole
    rw [ink_append, ink_append, Rule.ink_linesAll, Rule.inkAll] at counted
    exact ⟨.done (isSpace_of_ink_all genuine between (by omega)), nofun⟩
  | @rule before front rest block fronts rules line between isFront curly sheet ih =>
    simp only [List.forall_mem_append, List.forall_mem_cons] at genuine
    obtain ⟨inBefore, inFront, inBlock, inRest⟩ := genuine
    have counted := congrArg ink whole
    have selector := ink_slice_le front
    have body := ink_block inBlock curly line
    have tail := sheet.ink_le inRest
    simp only [ink_append, sourceAll_append, sourceAll_cons, Rule.ink_linesAll, Rule.inkAll, Rule.ink] at counted
    obtain ⟨trail, source, none, blank⟩ := source_front isFront inFront (by omega)
    obtain ⟨closing, opened⟩ := inBlock.source_curly curly
    obtain ⟨r, c, last, solid⟩ := slice_last isFront.text
    obtain ⟨inside, lines⟩ := unlines_rule (slice front) (readBody line block.contents).1
    have place : read ++ (sourceAll before ++ ((slice front).toList ++ trail)) =
        printed ++ ((slice front).toList ++ [' ']) := by
      refine eq_of_ink (c := '\x7b') (d := '\x7b') (a := sourceAll block.contents ++ closing ++ sourceAll rest)
        (b := inside ++ unlines (Rule.linesAll rules)) ?_ rfl rfl ?_
      · rw [Rule.linesAll, unlines_append, lines] at whole
        simpa [source, opened] using whole
      · simp [ink_cons]; omega
    have one : trail = [' '] := by
      refine eq_space_of_blanks (a := read ++ (sourceAll before ++ r)) (b := printed ++ r) ?_ solid solid blank
      rw [last] at place
      simpa using place
    subst one
    obtain ⟨spaces, tight⟩ := ih inRest (read ++ (sourceAll before ++ (sourceAll front ++ block.source)))
      (printed ++ unlines (Rule.lines (.rule (slice front) (readBody line block.contents).1)))
      (by simpa [Rule.linesAll] using whole)
      (by simp only [ink_append, Rule.ink_lines, Rule.ink]; omega)
    exact ⟨.rule line (isSpace_of_ink_all inBefore between (by omega)) isFront curly spaces,
      List.forall_mem_cons.2 ⟨source, tight⟩⟩

theorem found (sheet : Sheet gap cs fronts rules) {front : List ComponentValue} (h : front ∈ fronts) :
    IsFront front ∧ ∃ before block after, cs = before ++ (front ++ block :: after) ∧ block.isCurly = true := by
  induction sheet with
  | done _ => cases h
  | @rule before front' rest block fronts rules line _ isFront curly _ ih =>
    rcases List.mem_cons.1 h with rfl | h
    · exact ⟨isFront, before, block, rest, rfl, curly⟩
    · obtain ⟨isFront', before', block', after, rfl, curly'⟩ := ih h
      exact ⟨isFront', before ++ (front' ++ block :: before'), block', after, by simp, curly'⟩

theorem selectors (sheet : Sheet gap cs fronts rules) (p : String → Prop) :
    (∀ r ∈ rules, ∀ s ∈ r.selector?, p s) ↔ ∀ front ∈ fronts, p (slice front) := by
  induction sheet with
  | done _ => exact ⟨nofun, nofun⟩
  | rule line _ _ _ _ ih =>
    rw [List.forall_mem_cons, List.forall_mem_cons, ih]
    simp [Rule.selector?]

end Sheet

theorem Groups.source_outside {ts : List Token} (g : Groups none ts cs none []) :
    Token.flat ts = sourceAll cs := by
  rw [g.source]
  simp

theorem sourceAll_scan (s : List Char) : sourceAll (scan s) = s := by
  rw [← (Groups.scan s).source_outside, Token.flat_scan]

theorem skipCharset_suffix (cs : List ComponentValue) : (skipCharset cs).2 <:+ cs := by
  unfold skipCharset
  split
  · exact List.nil_suffix
  · rename_i c rest hd
    exact (List.suffix_cons c rest).trans (hd ▸ List.dropWhile_suffix _)

theorem ink_suffix {ds : List ComponentValue} (h : ds <:+ cs) : ink (sourceAll ds) ≤ ink (sourceAll cs) := by
  obtain ⟨front, rfl⟩ := h
  rw [sourceAll_append, ink_append]
  exact Nat.le_add_left _ _

/-- A printed sheet of plain rules that is read back is read rule by rule. -/
theorem sheet_of_back (plain : ∀ r ∈ rules, r.selector?.isSome = true) {line : Nat}
    (back : (readRules true line (scan (unlines (Rule.linesAll rules)))).outcome = .ok rules) :
    ∃ fronts, Sheet isSpace (scan (unlines (Rule.linesAll rules))) fronts rules ∧
      ∀ front ∈ fronts, sourceAll front = (slice front).toList ++ [' '] := by
  have source := sourceAll_scan (unlines (Rule.linesAll rules))
  have genuine := genuine_scan (unlines (Rule.linesAll rules))
  rcases readRules_fresh back with later | ⟨first, after, name, line', hd, kind, skipped⟩
  · obtain ⟨fronts, sheet⟩ := sheet_of_readRules later plain
    exact ⟨fronts, sheet.aligned genuine [] [] (by rw [source]) rfl⟩
  · -- A rule that is passed over has ink, and what follows it has less than is read.
    have part : first :: after <:+ scan (unlines (Rule.linesAll rules)) := hd ▸ List.dropWhile_suffix _
    obtain ⟨fronts, sheet⟩ := sheet_of_readRules skipped plain
    have read := sheet.ink_le fun x hx =>
      genuine x (part.subset (List.mem_cons_of_mem first ((skipCharset_suffix after).subset hx)))
    have left := ink_suffix (skipCharset_suffix after)
    have whole := ink_suffix part
    have mark : 0 < ink first.source := by
      cases genuine first (part.subset List.mem_cons_self) with
      | block _ _ _ => cases kind
      | token scanned =>
        have := scanned.ink_atKeyword (Option.some.inj kind)
        rw [source_token]
        omega
    rw [source, Rule.ink_linesAll, sourceAll_cons, ink_append] at whole
    omega

/-- The components before the block of a rule that is printed with this selector. -/
def frontOf (selector : String) : List ComponentValue :=
  (scan (selector.toList ++ [' ', '\x7b'])).takeWhile (!·.isCurly)

/-- A front does not depend on what stands around it. -/
theorem frontOf_slice {text : List Char} (laid : Laid text) {before front after : List ComponentValue}
    {block : ComponentValue} (found : scan text = before ++ (front ++ block :: after))
    (isFront : IsFront front) (curly : block.isCurly = true)
    (tight : sourceAll front = (slice front).toList ++ [' ']) (inLine : '\n' ∉ (slice front).toList) :
    frontOf (slice front) = front := by
  have genuine : Genuine block := genuine_scan text block (by rw [found]; simp)
  obtain ⟨closing, opened⟩ := genuine.source_curly curly
  have g := Groups.scan text
  obtain ⟨first, rest, rfl, -⟩ := isFront.start
  rw [found] at g
  obtain ⟨outer, ts, split, g, -⟩ := Groups.split g
  have g : Groups none ts ((first :: rest) ++ block :: after) none [] := g
  obtain ⟨mine, us, rfl, g', regroup⟩ := Groups.split g
  have covered := g'.source_outside
  have whole := g.source_outside
  rw [sourceAll_cons, opened] at covered
  rw [sourceAll_append, tight, sourceAll_cons, opened] at whole
  have alone : Token.scan (Token.flat (mine ++ us)) = mine ++ us := Token.scan_of_append split
  have laid' : Laid (Token.flat (mine ++ us)) := by
    apply laid.of_source (x := Token.flat outer)
    rw [← Token.flat_append, ← split, Token.flat_scan]
  rw [whole] at alone laid'
  have cut := Token.scan_before_brace (by simp [inLine]) laid' alone covered []
  have gathered := regroup none [⟨.opening .curly, ['\x7b']⟩] _ _ _ nofun (.block rfl .ended .ended)
  rw [frontOf, List.append_cons, ComponentValue.scan, cut, Token.scan_brace, Token.scan, gathered.ofTokens_eq]
  exact (cut_front _ _ _ (fun c hc => by rw [isFront.blockless c hc]; rfl) rfl).1

end Stencil.Style
