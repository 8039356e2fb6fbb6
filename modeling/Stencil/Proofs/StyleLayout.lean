import Stencil.Proofs.StyleReading

/-! The printed form of a stylesheet, line by line. A rule prints its front on one line, its items on lines
that are indented, and its closing brace on a line of its own; so every line ends in a brace or a
semicolon, and printing rules inside another one only indents their lines. -/
namespace Stencil.Style

open Text

/-- Lines, each with its line feed. -/
def unlines (ls : List (List Char)) : List Char := ls.flatMap (· ++ ['\n'])

@[simp] theorem unlines_nil : unlines [] = [] := rfl

@[simp] theorem unlines_cons (l : List Char) (ls : List (List Char)) :
    unlines (l :: ls) = l ++ '\n' :: unlines ls := by simp [unlines]

@[simp] theorem unlines_append (ls ms : List (List Char)) : unlines (ls ++ ms) = unlines ls ++ unlines ms :=
  List.flatMap_append

/-- A line of a printed sheet. -/
structure IsLine (l : List Char) : Prop where
  inLine : '\n' ∉ l
  closed : ∃ r c, l = r ++ [c] ∧ (c = '\x7b' ∨ c = ';' ∨ c = '\x7d')

namespace IsLine

variable {l : List Char} {ls : List (List Char)}

theorem dropReturn (h : IsLine l) : Chars.dropReturn l = l := by
  obtain ⟨r, c, rfl, hc⟩ := h.closed
  unfold Chars.dropReturn
  rw [List.getLast?_append, List.getLast?_singleton]
  rcases hc with rfl | rfl | rfl <;> rfl

theorem prepend (h : IsLine l) {s : List Char} (hs : '\n' ∉ s) : IsLine (s ++ l) := by
  obtain ⟨r, c, rfl, hc⟩ := h.closed
  refine ⟨?_, s ++ r, c, by simp, hc⟩
  rw [List.mem_append, not_or]
  exact ⟨hs, h.inLine⟩

theorem ne_nil (h : IsLine l) : l ≠ [] := by
  obtain ⟨r, c, rfl, _⟩ := h.closed
  simp

theorem pieces (h : IsLine l) : Chars.pieces (· == '\n') l = [l] := by
  have := h.inLine
  clear h
  induction l with
  | nil => rfl
  | cons c l ih =>
    rw [List.mem_cons, not_or] at this
    have hc : (c == '\n') = false := by simpa using Ne.symm this.1
    simp [Chars.pieces, hc, ih this.2]

theorem lines_unlines (h : ∀ l ∈ ls, IsLine l) : Chars.lines (unlines ls) = ls := by
  unfold Chars.lines
  induction ls with
  | nil => rfl
  | cons l ls ih =>
    rw [List.forall_mem_cons] at h
    obtain ⟨first, rest, parts⟩ :=
      List.exists_cons_of_ne_nil (Chars.pieces_ne_nil (· == '\n') (unlines ls))
    have ih := ih h.2
    rw [unlines_cons, Chars.pieces_append_cons _ _ _ _ rfl, h.1.pieces, parts] at *
    rw [List.singleton_append, Chars.endLines, h.1.dropReturn, ih]
    exact nofun

theorem lines_single (h : IsLine l) : Chars.lines l = [l] := by
  unfold Chars.lines
  rw [h.pieces, Chars.endLines, if_neg]
  simpa using h.ne_nil

end IsLine

/-- A line ends where its line feed is allowed to stand. -/
theorem laid_line {l x : List Char} (h : IsLine l) (laid : Laid ('\n' :: x)) : Laid (l ++ '\n' :: x) := by
  obtain ⟨r, c, rfl, hc⟩ := h.closed
  have inLine := h.inLine
  rw [List.append_assoc, List.singleton_append]
  clear h
  induction r with
  | nil =>
    refine ⟨nofun, fun _ _ => hc, laid⟩
  | cons d r ih =>
    rw [List.cons_append, List.mem_cons, not_or] at inLine
    refine ⟨fun none => by simp at none, fun y hy => ?_, ih inLine.2⟩
    cases r with
    | nil => exact absurd (List.mem_singleton.2 (List.cons.inj hy).1.symm) inLine.2
    | cons b r => exact absurd (List.mem_cons.2 (.inl (List.cons.inj hy).1.symm)) inLine.2

theorem laid_unlines {ls : List (List Char)} (h : ∀ l ∈ ls, IsLine l) : Laid ('\n' :: unlines ls) := by
  induction ls with
  | nil => exact ⟨fun _ => rfl, nofun, trivial⟩
  | cons l ls ih =>
    rw [List.forall_mem_cons] at h
    rw [unlines_cons]
    refine ⟨fun _ => rfl, fun r hr => ?_, laid_line h.1 (ih h.2)⟩
    obtain ⟨c, l', rfl⟩ := List.exists_cons_of_ne_nil h.1.ne_nil
    exact absurd (List.mem_cons.2 (.inl (List.cons.inj hr).1.symm)) h.1.inLine

/-- Indenting all lines, with a closing brace behind them. -/
theorem reflow_unlines {ls : List (List Char)} (h : ∀ l ∈ ls, IsLine l) :
    Reflow [] ['\x7d', '\n'] ('\n' :: unlines ls)
      ('\n' :: (unlines (ls.map ([' ', ' '] ++ ·)) ++ ['\x7d', '\n'])) := by
  induction ls with
  | nil => exact .line 0 .ending
  | cons l ls ih =>
    rw [List.forall_mem_cons] at h
    rw [unlines_cons, List.map_cons, unlines_cons]
    have := Reflow.line 2 (Reflow.prepend l (ih h.2))
    simpa using this

theorem endsClosed_unlines (ls : List (List Char)) :
    EndsClosed ('\n' :: (unlines ls ++ ['\x7d', '\n'])) := by
  rcases List.eq_nil_or_concat ls with rfl | ⟨ms, l, rfl⟩
  · exact List.suffix_refl _
  · refine ⟨'\n' :: (unlines ms ++ l), ?_⟩
    simp [List.concat_eq_append]

namespace Rule

mutual

/-- The lines a rule is printed on. -/
def lines : Rule → List (List Char)
  | .decl prop value => [prop.toList ++ ':' :: ' ' :: (value.toList ++ [';'])]
  | .rule selector body =>
    (selector.toList ++ [' ', '\x7b']) :: ((linesAll body).map ([' ', ' '] ++ ·) ++ [['\x7d']])
  | .atRule name params body =>
    if body.isEmpty then [(atHead name params).toList ++ [';']]
    else
      ((atHead name params).toList ++ [' ', '\x7b']) ::
        ((linesAll body).map ([' ', ' '] ++ ·) ++ [['\x7d']])

def linesAll : List Rule → List (List Char)
  | [] => []
  | r :: rest => r.lines ++ linesAll rest

end

theorem inLine_atHead {name params : String} (hn : '\n' ∉ name.toList) (hp : '\n' ∉ params.toList) :
    '\n' ∉ (atHead name params).toList := by
  unfold atHead
  split <;> simp [hn, hp]

theorem oneLine_cons {r : Rule} {rest : List Rule} : OneLine (r :: rest) ↔ OneLine [r] ∧ OneLine rest :=
  oneLine_append (a := [r])

theorem oneLine_rule {selector : String} {body : List Rule} :
    OneLine [.rule selector body] ↔ '\n' ∉ selector.toList ∧ OneLine body := by
  simp [OneLine, textsAll, texts]

theorem oneLine_atRule {name params : String} {body : List Rule} :
    OneLine [.atRule name params body] ↔
      '\n' ∉ name.toList ∧ '\n' ∉ params.toList ∧ OneLine body := by
  simp [OneLine, textsAll, texts]

theorem oneLine_decl {prop value : String} :
    OneLine [.decl prop value] ↔ '\n' ∉ prop.toList ∧ '\n' ∉ value.toList := by
  simp [OneLine, textsAll, texts]

/-- A front and its body: the lines between the first one and the closing brace are indented. -/
theorem isLine_block {front : List Char} (inLine : '\n' ∉ front) {ls : List (List Char)}
    (h : ∀ l ∈ ls, IsLine l) :
    ∀ l ∈ (front ++ [' ', '\x7b']) :: (ls.map ([' ', ' '] ++ ·) ++ [['\x7d']]), IsLine l := by
  intro l hl
  rw [List.mem_cons, List.mem_append, List.mem_singleton, List.mem_map] at hl
  rcases hl with rfl | ⟨l', hl', rfl⟩ | rfl
  · exact ⟨by simp [inLine], front ++ [' '], '\x7b', by simp, .inl rfl⟩
  · exact (h l' hl').prepend (by decide)
  · exact ⟨by decide, [], '\x7d', rfl, .inr (.inr rfl)⟩

mutual

theorem isLine_lines (r : Rule) (one : OneLine [r]) : ∀ l ∈ r.lines, IsLine l := by
  cases r with
  | decl prop value =>
    obtain ⟨hp, hv⟩ := oneLine_decl.1 one
    intro l hl
    obtain rfl := List.mem_singleton.1 hl
    exact ⟨by simp [hp, hv], prop.toList ++ ':' :: ' ' :: value.toList, ';', by simp, .inr (.inl rfl)⟩
  | rule selector body =>
    obtain ⟨hs, hb⟩ := oneLine_rule.1 one
    exact isLine_block hs (isLine_linesAll body hb)
  | atRule name params body =>
    obtain ⟨hn, hp, hb⟩ := oneLine_atRule.1 one
    have head := inLine_atHead hn hp
    rw [lines]
    split
    · intro l hl
      obtain rfl := List.mem_singleton.1 hl
      exact ⟨by simp [head], _, ';', rfl, .inr (.inl rfl)⟩
    · exact isLine_block head (isLine_linesAll body hb)

theorem isLine_linesAll (rules : List Rule) (one : OneLine rules) : ∀ l ∈ linesAll rules, IsLine l := by
  cases rules with
  | nil => exact nofun
  | cons r rest =>
    obtain ⟨hr, hrest⟩ := oneLine_cons.1 one
    intro l hl
    rcases List.mem_append.1 hl with hl | hl
    · exact isLine_lines r hr l hl
    · exact isLine_linesAll rest hrest l hl

end

theorem toList_indent (s : String) :
    (indent s).toList = unlines ((Chars.lines s.toList).map ([' ', ' '] ++ ·)) := by
  unfold indent Text.lines
  rw [toList_concat, List.map_map, List.flatMap_map, unlines, List.flatMap_map]
  simp

/-- A front, an indented body and a closing brace, as lines. -/
theorem unlines_block (front : List Char) (ls : List (List Char)) :
    unlines ((front ++ [' ', '\x7b']) :: (ls ++ [['\x7d']])) =
      front ++ [' ', '\x7b', '\n'] ++ unlines ls ++ ['\x7d', '\n'] := by
  simp

mutual

theorem lines_render (r : Rule) (one : OneLine [r]) : Chars.lines r.render.toList = r.lines := by
  have isLine := isLine_lines r one
  cases r with
  | decl prop value =>
    have whole : (render (.decl prop value)).toList = prop.toList ++ ':' :: ' ' :: (value.toList ++ [';']) := by
      simp [render]
    rw [whole]
    exact (isLine _ (List.mem_singleton_self _)).lines_single
  | rule selector body =>
    obtain ⟨-, hb⟩ := oneLine_rule.1 one
    rw [← IsLine.lines_unlines isLine]
    congr 1
    rw [lines, unlines_block, render]
    simp [toList_renderBody body hb]
  | atRule name params body =>
    obtain ⟨-, -, hb⟩ := oneLine_atRule.1 one
    rw [← IsLine.lines_unlines isLine]
    congr 1
    rw [lines, render]
    split
    · simp
    · rw [unlines_block]
      simp [toList_renderBody body hb]

theorem toList_renderBody (rules : List Rule) (one : OneLine rules) :
    (renderBody rules).toList = unlines ((linesAll rules).map ([' ', ' '] ++ ·)) := by
  cases rules with
  | nil => simp [renderBody, linesAll]
  | cons r rest =>
    obtain ⟨hr, hrest⟩ := oneLine_cons.1 one
    rw [renderBody, String.toList_append, toList_indent, lines_render r hr, toList_renderBody rest hrest,
      linesAll, List.map_append, unlines_append]

end

theorem toList_render_rule {selector : String} {body : List Rule} (one : OneLine body) :
    (render (.rule selector body)).toList = unlines (lines (.rule selector body)) := by
  rw [lines, unlines_block, render]
  simp [toList_renderBody body one]

theorem toList_render_atRule {name params : String} {body : List Rule} (one : OneLine body) :
    (render (.atRule name params body)).toList = unlines (lines (.atRule name params body)) := by
  rw [lines, render]
  split
  · simp
  · rw [unlines_block]
    simp [toList_renderBody body one]

def isDecl : Rule → Bool
  | .decl _ _ => true
  | _ => false

/-- A sheet without declarations at its top level, as lines. -/
theorem toList_renderAll {rules : List Rule} (blocks : ∀ r ∈ rules, r.isDecl = false) (one : OneLine rules) :
    (renderAll rules).toList = unlines (linesAll rules) := by
  rw [renderAll, toList_concat]
  induction rules with
  | nil => rfl
  | cons r rest ih =>
    rw [List.forall_mem_cons] at blocks
    obtain ⟨here, later⟩ := oneLine_cons.1 one
    rw [List.map_cons, List.flatMap_cons, ih blocks.2 later, linesAll, unlines_append]
    cases r with
    | rule selector body => rw [toList_render_rule (oneLine_rule.1 here).2]
    | atRule name params body => rw [toList_render_atRule (oneLine_atRule.1 here).2.2]
    | decl prop value => cases blocks.1

end Rule

end Stencil.Style
