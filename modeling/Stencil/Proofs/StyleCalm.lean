import Stencil.Proofs.StyleGroups

/-! Texts without quotes, brackets, escapes and semicolons. Before a brace or a semicolon no token of such a
text reaches beyond it, and every token stands for itself among the components. -/
namespace Stencil.Style

open Text

namespace Token

/-- A letter; beyond ASCII every character counts that is not blank. -/
def isLetter (c : Char) : Bool := c.isAlpha || (isNonAscii c && !isBlank c)

/-- Characters that open, close and end nothing. -/
def isCalm (c : Char) : Bool :=
  isLetter c || isDigit c || ['-', '_', '.', '#', ':', '>', '+', '~', '*', ',', '%', ' '].contains c

theorem startsName_of_isLetter {c : Char} (h : isLetter c = true) : startsName c = true := by
  simp only [isLetter, startsName, Bool.or_eq_true, Bool.and_eq_true] at h ⊢
  rcases h with h | ⟨h, -⟩ <;> simp [h]

theorem isNameChar_of_isLetter {c : Char} (h : isLetter c = true) : isNameChar c = true := by
  simp only [isLetter, isNameChar, Bool.or_eq_true, Bool.and_eq_true, isAlphanum_iff] at h ⊢
  rcases h with h | ⟨h, -⟩ <;> simp [h]

theorem isCalm_of_isLetter {c : Char} (h : isLetter c = true) : isCalm c = true := by simp [isCalm, h]

/-- Calm characters up to `tail`. -/
inductive RunsTo (tail : List Char) : List Char → Prop
  | here : RunsTo tail tail
  | char {c : Char} {s : List Char} : isCalm c = true → RunsTo tail s → RunsTo tail (c :: s)

/-- A token that neither opens nor closes a block and is no semicolon. -/
def isQuiet (t : Token) : Bool := t.opens?.isNone && t.closes?.isNone && t.kind != .semicolon

theorem RunsTo.append {tail s : List Char} (h : ∀ c ∈ s, isCalm c = true) : RunsTo tail (s ++ tail) := by
  induction s with
  | nil => exact .here
  | cons c s ih =>
    rw [List.forall_mem_cons] at h
    exact .char h.1 (ih h.2)

namespace RunsTo

variable {d : Char} {tail s : List Char}

theorem dropWhile (h : RunsTo (d :: tail) s) {p : Char → Bool} (stop : p d = false) :
    RunsTo (d :: tail) (s.dropWhile p) := by
  induction h with
  | here => rw [List.dropWhile_cons_of_neg (by simp [stop])]; exact .here
  | @char c s calm later ih =>
    by_cases passes : p c = true
    · rw [List.dropWhile_cons_of_pos passes]; exact ih
    · rw [List.dropWhile_cons_of_neg passes]; exact .char calm later

variable (stop : d = '\x7b' ∨ d = ';')
include stop

/-- Behind a character that does not end the text it goes on. -/
theorem tail_of_ne {c : Char} (h : RunsTo (d :: tail) (c :: s)) (other : c ≠ '\x7b' ∧ c ≠ ';') :
    RunsTo (d :: tail) s := by
  cases h with
  | here =>
    rcases stop with rfl | rfl
    · exact absurd rfl other.1
    · exact absurd rfl other.2
  | char _ later => exact later

theorem name (h : RunsTo (d :: tail) s) : RunsTo (d :: tail) (Token.name s).rest := by
  induction h with
  | here =>
    rw [Token.name]
    rcases stop with rfl | rfl <;> exact .here
  | @char c s calm later ih =>
    have null : (c == '\x00') = false := by
      rw [beq_eq_false_iff_ne]
      rintro rfl
      cases calm
    have slash : (c == '\\') = false := by
      rw [beq_eq_false_iff_ne]
      rintro rfl
      cases calm
    rw [Token.name, null, slash]
    split
    · exact ih
    · exact .char calm later

theorem identLike (h : RunsTo (d :: tail) s) :
    RunsTo (d :: tail) (Token.identLike s).2 ∧ isQuiet (Token.identLike s).1 = true := by
  have rest := h.name stop
  unfold Token.identLike
  dsimp only
  split
  · rename_i bracket
    rw [bracket] at rest
    cases rest with
    | here => rcases stop with h | h <;> cases h
    | char calm _ => cases calm
  · exact ⟨rest, rfl⟩

theorem digits (h : RunsTo (d :: tail) s) : RunsTo (d :: tail) (s.dropWhile isDigit) := by
  refine h.dropWhile ?_
  rcases stop with rfl | rfl <;> rfl

theorem fraction (h : RunsTo (d :: tail) s) : RunsTo (d :: tail) (Token.fraction s).2 := by
  unfold Token.fraction
  split
  · split
    · exact (h.tail_of_ne stop (by decide)).digits stop
    · exact h
  · exact h

theorem exponent (h : RunsTo (d :: tail) s) : RunsTo (d :: tail) (Token.exponent s).2 := by
  unfold Token.exponent
  split
  · rename_i c s
    split
    · rename_i mark
      have later : RunsTo (d :: tail) s := by
        refine h.tail_of_ne stop ⟨?_, ?_⟩ <;> rintro rfl <;> cases mark
      split
      · rename_i sign r
        split
        · exact later.digits stop
        · split
          · rename_i signed
            rw [Bool.and_eq_true] at signed
            refine (later.tail_of_ne stop ⟨?_, ?_⟩).digits stop <;> rintro rfl <;> cases signed.1
          · exact h
      · exact h
    · exact h
  · exact h

theorem numberEnd (h : RunsTo (d :: tail) s) : RunsTo (d :: tail) (Token.numberEnd s).2 := by
  have rest := h.exponent stop
  unfold Token.numberEnd
  dsimp only
  split
  · rename_i percent
    rw [percent] at rest
    exact rest.tail_of_ne stop (by decide)
  · split
    · exact rest.name stop
    · exact rest

theorem numeric (h : RunsTo (d :: tail) s) : RunsTo (d :: tail) (Token.numeric s).2 :=
  ((h.digits stop).fraction stop).numberEnd stop

theorem fractional (h : RunsTo (d :: tail) s) : RunsTo (d :: tail) (Token.fractional s).2 :=
  (h.digits stop).numberEnd stop

/-- One token of such a text stays in it. -/
theorem next {c : Char} (calm : isCalm c = true) (h : RunsTo (d :: tail) s) :
    RunsTo (d :: tail) (Token.next c s).2 ∧ isQuiet (Token.next c s).1 = true := by
  unfold Token.next
  dsimp only
  split
  case h_3 =>
    split
    · exact ⟨h.name stop, rfl⟩
    · exact ⟨h, rfl⟩
  case h_5 | h_8 =>
    split
    · split
      · rename_i second
        obtain rfl := eq_of_beq second
        exact ⟨h.tail_of_ne stop (by decide), rfl⟩
      · exact ⟨h, rfl⟩
    · exact ⟨h, rfl⟩
  case h_15 | h_16 => exact ⟨h, rfl⟩
  case h_18 =>
    split
    · exact ⟨h.numeric stop, rfl⟩
    · exact ⟨h, rfl⟩
  case h_19 =>
    split
    · exact ⟨h.fractional stop, rfl⟩
    · exact ⟨h, rfl⟩
  case h_20 =>
    split
    · exact ⟨h.numeric stop, rfl⟩
    · split
      · exact ⟨(h.tail_of_ne stop (by decide)).tail_of_ne stop (by decide), rfl⟩
      · split
        · exact identLike stop (.char calm h)
        · exact ⟨h, rfl⟩
  case h_24 =>
    split
    · refine ⟨h.dropWhile ?_, rfl⟩
      rcases stop with rfl | rfl <;> rfl
    · split
      · exact ⟨h.numeric stop, rfl⟩
      · split
        · exact identLike stop (.char calm h)
        · exact ⟨h, rfl⟩
  all_goals cases calm

/-- The tokens of a calm text before a brace or a semicolon are those up to it and those from it on. -/
theorem scan (h : RunsTo (d :: tail) s) :
    ∃ ts, Token.scan s = ts ++ Token.scan (d :: tail) ∧ flat ts ++ d :: tail = s ∧
      ∀ t ∈ ts, isQuiet t = true := by
  induction size : s.length using Nat.strong_induction_on generalizing s with
  | _ n ih =>
    cases h with
    | here => exact ⟨[], rfl, rfl, by simp⟩
    | @char c s calm later =>
      obtain ⟨rest, quiet⟩ := later.next stop calm
      have shorter := length_next_le c s
      rw [List.length_cons] at size
      obtain ⟨ts, tokens, source, all⟩ := ih _ (by omega) rest rfl
      refine ⟨(Token.next c s).1 :: ts, ?_, ?_, ?_⟩
      · rw [Token.scan, tokens, List.cons_append]
      · rw [flat_cons, List.append_assoc, source, next_source]
      · rw [List.forall_mem_cons]
        exact ⟨quiet, all⟩

end RunsTo

theorem scan_calm {s : List Char} {d : Char} (calm : ∀ c ∈ s, isCalm c = true) (stop : d = '\x7b' ∨ d = ';')
    (tail : List Char) :
    ∃ ts, Token.scan (s ++ d :: tail) = ts ++ Token.scan (d :: tail) ∧ flat ts = s ∧
      ∀ t ∈ ts, isQuiet t = true := by
  have runs : RunsTo (d :: tail) (s ++ d :: tail) := .append calm
  obtain ⟨ts, tokens, source, quiet⟩ := runs.scan stop
  exact ⟨ts, tokens, List.append_cancel_right source, quiet⟩

/-- The token of a point that no digit follows. -/
def point : Token := ⟨.delim '.', ['.']⟩

theorem scan_point {c : Char} (letter : isLetter c = true) (s : List Char) :
    scan ('.' :: c :: s) = point :: scan (c :: s) := by
  have other := isDigit_of_startsName (startsName_of_isLetter letter)
  rw [scan]
  simp [next, startsDigit, other, point]

end Token

end Stencil.Style
