import Mathlib.Data.List.TakeWhile
import Stencil.Proofs.StyleTokens

/-! Tokens under another indentation. A text that ends each line with a brace or a semicolon keeps its
tokens when spaces are put behind its line feeds: only spaces, comments and unquoted addresses hold
line feeds, and these take in the added spaces. The two texts may also end differently. -/
namespace Stencil.Style

open Text

/-- One text as another with spaces put behind its line feeds, where the first ends in `e` and the second
in `e'`. -/
inductive Reflow (e e' : List Char) : List Char → List Char → Prop
  | ending : Reflow e e' e e'
  | char {x y : List Char} (c : Char) (inLine : c ≠ '\n') :
      Reflow e e' x y → Reflow e e' (c :: x) (c :: y)
  | line {x y : List Char} (k : Nat) :
      Reflow e e' x y → Reflow e e' ('\n' :: x) ('\n' :: (List.replicate k ' ' ++ y))

/-- How the ends of two texts may differ: one goes on with a closing brace, or what follows an opening
brace is not the same. -/
inductive Ends : List Char → List Char → Prop
  | closed : Ends [] ['\x7d', '\n']
  | opened (w w' : List Char) : Ends ('\x7b' :: w) ('\x7b' :: w')

/-- Every line ends in a brace or a semicolon, the last one too. -/
def Laid : List Char → Prop
  | [] => True
  | c :: x => (x = [] → c = '\n') ∧ (∀ r, x = '\n' :: r → c = '\x7b' ∨ c = ';' ∨ c = '\x7d') ∧ Laid x

/-- A character that no line ends in. -/
def inner (c : Char) : Bool := c != '\n' && c != '\x7b' && c != ';' && c != '\x7d'

namespace Laid

theorem tail {c : Char} {x : List Char} (laid : Laid (c :: x)) : Laid x := laid.2.2

theorem of_append {x y : List Char} (laid : Laid (x ++ y)) : Laid y := by
  induction x with
  | nil => exact laid
  | cons c x ih => exact ih laid.tail

theorem of_source {x y s : List Char} (laid : Laid s) (h : x ++ y = s) : Laid y :=
  of_append (h ▸ laid)

theorem dropWhile {s : List Char} (laid : Laid s) (p : Char → Bool) : Laid (s.dropWhile p) :=
  laid.of_source List.takeWhile_append_dropWhile

/-- A line goes on after a character that cannot end it. -/
theorem goes_on {c : Char} {x : List Char} (laid : Laid (c :: x)) (h : inner c = true) :
    ∃ d r, x = d :: r ∧ d ≠ '\n' := by
  cases x with
  | nil => rw [laid.1 rfl] at h; cases h
  | cons d r =>
    refine ⟨d, r, rfl, ?_⟩
    rintro rfl
    rcases laid.2.1 r rfl with rfl | rfl | rfl <;> cases h

theorem goes_on_after {x y : List Char} (laid : Laid (x ++ y)) (taken : x ≠ [])
    (h : ∀ c ∈ x, inner c = true) : ∃ d r, y = d :: r ∧ d ≠ '\n' := by
  induction x with
  | nil => exact absurd rfl taken
  | cons c x ih =>
    cases x with
    | nil => exact goes_on laid (h c List.mem_cons_self)
    | cons b x => exact ih laid.tail (by simp) fun d hd => h d (List.mem_cons_of_mem _ hd)

theorem ne_nil {c : Char} {x : List Char} (laid : Laid (c :: x)) (h : c ≠ '\n') : x ≠ [] :=
  fun none => h (laid.1 none)

end Laid

namespace Reflow

variable {e e' x y : List Char} {c : Char}

theorem prepend (s : List Char) (h : Reflow e e' x y) : Reflow e e' (s ++ x) (s ++ y) := by
  induction s with
  | nil => exact h
  | cons c s ih =>
    by_cases hc : c = '\n'
    · subst hc; exact .line 0 ih
    · exact .char c hc ih

theorem refl (s : List Char) : Reflow [] [] s s := by
  have := prepend s (show Reflow [] [] [] [] from .ending)
  rwa [List.append_nil] at this

theorem append {s t : List Char} (h : Reflow [] [] s t) (h' : Reflow e e' x y) :
    Reflow e e' (s ++ x) (t ++ y) := by
  induction h with
  | ending => exact h'
  | char c inLine _ ih => exact .char c inLine ih
  | line k _ ih =>
    rw [List.cons_append, List.cons_append, List.append_assoc]
    exact .line k ih

theorem nil_left (ends : Ends e e') (h : Reflow e e' [] y) : e = [] ∧ y = ['\x7d', '\n'] := by
  cases h with
  | ending => cases ends; exact ⟨rfl, rfl⟩

theorem head (ends : Ends e e') (h : Reflow e e' (c :: x) y) : ∃ y', y = c :: y' := by
  cases h with
  | ending => cases ends with | opened w w' => exact ⟨w', rfl⟩
  | char _ _ h => exact ⟨_, rfl⟩
  | line k h => exact ⟨_, rfl⟩

/-- What follows a character read before the ends. -/
theorem step (h : Reflow e e' (c :: x) y) (inLine : c ≠ '\n') (room : e.length ≤ x.length) :
    ∃ y', y = c :: y' ∧ Reflow e e' x y' := by
  cases h with
  | ending => exact absurd room (Nat.not_succ_le_self _)
  | char _ _ h => exact ⟨_, rfl, h⟩
  | line k h => exact absurd rfl inLine

theorem step_line (h : Reflow e e' ('\n' :: x) y) (room : e.length ≤ x.length) :
    ∃ k y', y = '\n' :: (List.replicate k ' ' ++ y') ∧ Reflow e e' x y' := by
  cases h with
  | ending => exact absurd room (Nat.not_succ_le_self _)
  | char _ inLine h => exact absurd rfl inLine
  | line k h => exact ⟨k, _, rfl, h⟩

theorem step_inner (ends : Ends e e') (h : Reflow e e' (c :: x) y) (hc : inner c = true) :
    ∃ y', y = c :: y' ∧ Reflow e e' x y' := by
  cases h with
  | ending => cases ends with | opened w w' => cases hc
  | char _ _ h => exact ⟨_, rfl, h⟩
  | line k h => cases hc

theorem starts (ends : Ends e e') (h : Reflow e e' x y) {p : List Char} (hp : ∀ c ∈ p, inner c = true)
    {r : List Char} (hx : x = p ++ r) : ∃ r', y = p ++ r' ∧ Reflow e e' r r' := by
  induction p generalizing x y with
  | nil => subst hx; exact ⟨y, rfl, h⟩
  | cons c p ih =>
    subst hx
    obtain ⟨y', rfl, h'⟩ := h.step_inner ends (hp c List.mem_cons_self)
    obtain ⟨r', rfl, rest⟩ := ih h' (fun d hd => hp d (List.mem_cons_of_mem c hd)) rfl
    exact ⟨r', rfl, rest⟩

theorem starts_left (ends : Ends e e') (h : Reflow e e' x y) {p : List Char}
    (hp : ∀ c ∈ p, inner c = true) {r : List Char} (hy : y = p ++ r) : ∃ r', x = p ++ r' := by
  induction p generalizing x y with
  | nil => exact ⟨x, rfl⟩
  | cons c p ih =>
    have hc := hp c List.mem_cons_self
    cases x with
    | nil =>
      obtain rfl := List.cons.inj ((h.nil_left ends).2.symm.trans hy) |>.1
      cases hc
    | cons d x =>
      obtain ⟨y', rfl⟩ := h.head ends
      obtain ⟨rfl, rfl⟩ := List.cons.inj hy
      obtain ⟨y', heq, h'⟩ := h.step_inner ends hc
      obtain ⟨_, rfl⟩ := List.cons.inj heq
      obtain ⟨r', rfl⟩ := ih h' (fun d hd => hp d (List.mem_cons_of_mem _ hd)) rfl
      exact ⟨r', rfl⟩

/-- Cutting at characters within a line. -/
theorem span_line (ends : Ends e e') (h : Reflow e e' x y) {p : Char → Bool}
    (hp : ∀ c, p c = true → inner c = true) :
    y.takeWhile p = x.takeWhile p ∧ Reflow e e' (x.dropWhile p) (y.dropWhile p) := by
  have stop {c : Char} (hc : inner c = false) : p c = false := by
    cases held : p c with
    | true => rw [hp c held] at hc; cases hc
    | false => rfl
  have stopClose := stop (c := '\x7d') rfl
  have stopOpen := stop (c := '\x7b') rfl
  have stopLine := stop (c := '\n') rfl
  induction h with
  | ending =>
    cases ends with
    | closed => simp [stopClose]; exact .ending
    | opened w w' => simp [stopOpen]; exact .ending
  | @char x y c inLine h ih =>
    by_cases hc : p c = true
    · simp [hc, ih]
    · simp [hc]; exact .char c inLine h
  | @line x y k h ih =>
    simp [stopLine]; exact .line k h

theorem span_blank (ends : Ends e e') (h : Reflow e e' x y) :
    Reflow [] [] (x.takeWhile isAsciiBlank) (y.takeWhile isAsciiBlank) ∧
      Reflow e e' (x.dropWhile isAsciiBlank) (y.dropWhile isAsciiBlank) := by
  induction h with
  | ending =>
    cases ends with
    | closed => exact ⟨.ending, .ending⟩
    | opened w w' => exact ⟨.ending, .ending⟩
  | @char x y c inLine h ih =>
    by_cases hc : isAsciiBlank c = true
    · simp only [List.takeWhile_cons_of_pos hc, List.dropWhile_cons_of_pos hc]
      exact ⟨.char c inLine ih.1, ih.2⟩
    · simp only [List.takeWhile_cons_of_neg hc, List.dropWhile_cons_of_neg hc]
      exact ⟨.ending, .char c inLine h⟩
  | @line x y k h ih =>
    have spaces : ∀ c ∈ List.replicate k ' ', isAsciiBlank c = true := fun c hc => by
      rw [(List.mem_replicate.1 hc).2]; rfl
    simp only [List.takeWhile_cons_of_pos (show isAsciiBlank '\n' = true from rfl),
      List.dropWhile_cons_of_pos (show isAsciiBlank '\n' = true from rfl),
      List.takeWhile_append_of_pos spaces, List.dropWhile_append_of_pos spaces]
    exact ⟨.line k ih.1, ih.2⟩

end Reflow

namespace Token

variable {e e' x y : List Char}

theorem startsNewline_reflow (ends : Ends e e') (h : Reflow e e' x y) :
    startsNewline y = startsNewline x := by
  cases x with
  | nil => rw [(h.nil_left ends).2]; rfl
  | cons c x => obtain ⟨y', rfl⟩ := h.head ends; rfl

theorem startsDigit_reflow (ends : Ends e e') (h : Reflow e e' x y) : startsDigit y = startsDigit x := by
  cases x with
  | nil => rw [(h.nil_left ends).2]; rfl
  | cons c x => obtain ⟨y', rfl⟩ := h.head ends; rfl

theorem startsNumber_reflow (ends : Ends e e') (h : Reflow e e' x y) :
    startsNumber y = startsNumber x := by
  cases x with
  | nil => rw [(h.nil_left ends).2]; rfl
  | cons c x =>
    by_cases point : c = '.'
    · subst point
      obtain ⟨y', rfl, h'⟩ := h.step_inner ends rfl
      exact startsDigit_reflow ends h'
    · obtain ⟨y', rfl⟩ := h.head ends
      simp [startsNumber, startsDigit, point]

theorem startsIdent_reflow (ends : Ends e e') (h : Reflow e e' x y) :
    startsIdent y = startsIdent x := by
  cases x with
  | nil => rw [(h.nil_left ends).2]; rfl
  | cons c x =>
    by_cases hyphen : c = '-'
    · subst hyphen
      obtain ⟨y', rfl, h'⟩ := h.step_inner ends rfl
      cases x with
      | nil => rw [(h'.nil_left ends).2]; rfl
      | cons d x => obtain ⟨y'', rfl⟩ := h'.head ends; rfl
    · by_cases slash : c = '\\'
      · subst slash
        obtain ⟨y', rfl, h'⟩ := h.step_inner ends rfl
        simp [startsIdent, startsNewline_reflow ends h']
      · obtain ⟨y', rfl⟩ := h.head ends
        simp [startsIdent, hyphen]

theorem oneSpace_cons {c : Char} {s : List Char} (apart : c = '\r' → s.head? ≠ some '\n') :
    oneSpace (c :: s) = if isAsciiBlank c then ([c], s) else ([], c :: s) := by
  unfold oneSpace
  split
  · rename_i heq
    obtain ⟨rfl, rfl⟩ := List.cons.inj heq
    exact absurd rfl (apart rfl)
  · rename_i heq
    obtain ⟨rfl, rfl⟩ := List.cons.inj heq
    rfl
  · rename_i heq; cases heq

/-- A return is not followed by a line feed, since no line ends in it. -/
theorem oneSpace_laid {c : Char} {s : List Char} (laid : Laid (c :: s)) :
    oneSpace (c :: s) = if isAsciiBlank c then ([c], s) else ([], c :: s) := by
  apply oneSpace_cons
  rintro rfl
  obtain ⟨d, r, rfl, hd⟩ := laid.goes_on rfl
  simpa using hd

theorem oneSpace_reflow (ends : Ends e e') (h : Reflow e e' x y) (laid : Laid x)
    (inLine : x.head? ≠ some '\n') :
    ∃ y', oneSpace y = ((oneSpace x).1, y') ∧ Reflow e e' (oneSpace x).2 y' := by
  cases x with
  | nil => rw [(h.nil_left ends).2]; exact ⟨_, rfl, (h.nil_left ends).2 ▸ h⟩
  | cons c x =>
    obtain ⟨y', rfl⟩ := h.head ends
    have apart (hc : c = '\r') : y'.head? ≠ some '\n' := by
      subst hc
      obtain ⟨d, r, rfl, hd⟩ := laid.goes_on rfl
      obtain ⟨_, heq, h'⟩ := h.step_inner ends rfl
      obtain ⟨_, rfl⟩ := h'.head ends
      obtain ⟨_, rfl⟩ := List.cons.inj heq
      simpa using hd
    rw [oneSpace_laid laid, oneSpace_cons apart]
    by_cases blank : isAsciiBlank c = true
    · have hc : inner c = true := by
        simp only [isAsciiBlank, Bool.or_eq_true, beq_iff_eq] at blank
        rcases blank with (((rfl | rfl) | rfl) | rfl) | rfl
        all_goals first | rfl | exact absurd rfl inLine
      obtain ⟨_, heq, h'⟩ := h.step_inner ends hc
      obtain ⟨_, rfl⟩ := List.cons.inj heq
      rw [if_pos blank, if_pos blank]
      exact ⟨_, rfl, h'⟩
    · rw [if_neg blank, if_neg blank]
      exact ⟨_, rfl, h⟩

theorem inner_of_isHex {c : Char} (h : isHex c = true) : inner c = true := by
  have apart (d : Char) (hd : isHex d = false) : c ≠ d := fun same => by rw [same, hd] at h; cases h
  simp [inner, apart '\n' rfl, apart '\x7b' rfl, apart ';' rfl, apart '\x7d' rfl]

theorem inner_of_isDigit {c : Char} (h : isDigit c = true) : inner c = true :=
  inner_of_isHex (by simp [isHex, h])

/-- The digits of an escape, and what follows them. -/
theorem hexDigits_reflow (ends : Ends e e') (h : Reflow e e' x y) :
    (y.take 6).takeWhile isHex = (x.take 6).takeWhile isHex ∧
      Reflow e e' (x.drop ((x.take 6).takeWhile isHex).length)
        (y.drop ((x.take 6).takeWhile isHex).length) := by
  obtain ⟨same, rest⟩ := h.span_line (p := isHex) ends fun _ => inner_of_isHex
  rw [takeWhile_take, takeWhile_take, same]
  refine ⟨rfl, ?_⟩
  have hx := List.takeWhile_append_dropWhile (p := isHex) (l := x)
  have hy := List.takeWhile_append_dropWhile (p := isHex) (l := y)
  rw [same] at hy
  have short : ((x.takeWhile isHex).take 6).length ≤ (x.takeWhile isHex).length :=
    List.length_take_le' _ _
  have := rest.prepend ((x.takeWhile isHex).drop ((x.takeWhile isHex).take 6).length)
  rwa [← List.drop_append_of_le_length short, ← List.drop_append_of_le_length short, hx, hy] at this

theorem laid_after_hexDigits {c : Char} {r : List Char} (laid : Laid (c :: r)) (hex : isHex c = true) :
    let rest := (c :: r).drop (((c :: r).take 6).takeWhile isHex).length
    rest ≠ [] ∧ rest.head? ≠ some '\n' ∧ Laid rest := by
  intro rest
  have digits : ((c :: r).take 6).takeWhile isHex ≠ [] := by simp [hex]
  rw [← hexDigits_append (c :: r)] at laid
  obtain ⟨d, r', hd, apart⟩ := laid.goes_on_after digits fun _ hm =>
    inner_of_isHex (List.mem_takeWhile_imp hm)
  have hd : rest = d :: r' := hd
  refine ⟨?_, ?_, laid.of_append⟩
  · rw [hd]; exact List.cons_ne_nil d r'
  · rw [hd]; simpa using apart

theorem escape_reflow (ends : Ends e e') (h : Reflow e e' x y) (laid : Laid ('\\' :: x))
    (room : e.length ≤ (escape x).rest.length) :
    ∃ y', escape y = ⟨(escape x).value, (escape x).source, y'⟩ ∧ Reflow e e' (escape x).rest y' := by
  obtain ⟨c, r, rfl, hc⟩ := laid.goes_on rfl
  obtain ⟨y', rfl⟩ := h.head ends
  by_cases hex : isHex c = true
  · obtain ⟨same, rest⟩ := hexDigits_reflow ends h
    obtain ⟨_, inLine, laid'⟩ := laid_after_hexDigits laid.tail hex
    obtain ⟨y', hy, rest'⟩ := oneSpace_reflow ends rest laid' inLine
    refine ⟨y', ?_, ?_⟩
    · simp only [escape, if_pos hex, same, hy]
    · simpa only [escape, if_pos hex] using rest'
  · simp only [escape, if_neg hex] at room ⊢
    obtain ⟨_, heq, h'⟩ := h.step hc room
    obtain ⟨_, rfl⟩ := List.cons.inj heq
    exact ⟨_, rfl, h'⟩

theorem laid_escape_rest {c : Char} {s : List Char} (laid : Laid (c :: s)) : Laid (escape s).rest :=
  laid.tail.of_source (escape_source s)

theorem name_reflow (ends : Ends e e') (h : Reflow e e' x y) (laid : Laid x)
    (room : e.length ≤ (name x).rest.length) :
    ∃ y', name y = ⟨(name x).value, (name x).source, y'⟩ ∧ Reflow e e' (name x).rest y' := by
  fun_induction name x generalizing y with
  | case1 =>
    rw [(h.nil_left ends).2]
    exact ⟨_, by rw [name]; rfl, (h.nil_left ends).2 ▸ h⟩
  | case2 c r hc =>
    rename_i n ih
    have inLine : c ≠ '\n' := by rintro rfl; cases hc
    obtain ⟨y', rfl, h'⟩ := h.step inLine (Nat.le_trans room (length_name_le r))
    obtain ⟨y'', hy, rest⟩ := ih h' laid.tail room
    exact ⟨y'', by rw [name, if_pos hc, hy], rest⟩
  | case3 c r hc hz =>
    rename_i n ih
    have inLine : c ≠ '\n' := by rintro rfl; cases hz
    obtain ⟨y', rfl, h'⟩ := h.step inLine (Nat.le_trans room (length_name_le r))
    obtain ⟨y'', hy, rest⟩ := ih h' laid.tail room
    exact ⟨y'', by rw [name, if_neg hc, if_pos hz, hy], rest⟩
  | case4 c r hc hz hs =>
    rename_i esc n ih
    obtain rfl : c = '\\' := by simp only [Bool.and_eq_true, beq_iff_eq] at hs; exact hs.1
    obtain ⟨y', rfl, h'⟩ := h.step_inner ends rfl
    obtain ⟨y'', hy, h''⟩ := escape_reflow ends h' laid (Nat.le_trans room (length_name_le _))
    obtain ⟨z, hy', rest⟩ := ih h'' (laid_escape_rest laid) room
    refine ⟨z, ?_, rest⟩
    rw [name, if_neg hc, if_neg hz, startsNewline_reflow ends h', if_pos hs, hy]
    dsimp only
    rw [hy']
  | case5 c r hc hz hs =>
    obtain ⟨y', rfl⟩ := h.head ends
    refine ⟨c :: y', ?_, h⟩
    have hs' : ¬ (c == '\\' && !startsNewline y') = true := by
      by_cases slash : c = '\\'
      · subst slash
        obtain ⟨_, heq, h'⟩ := h.step_inner ends rfl
        obtain ⟨_, rfl⟩ := List.cons.inj heq
        rwa [startsNewline_reflow ends h']
      · simp [slash]
    rw [name, if_neg hc, if_neg hz, if_neg hs']

/-- A line does not end inside an escape. -/
theorem oneSpace_rest_ne_nil (laid : Laid x) (goesOn : x ≠ []) (inLine : x.head? ≠ some '\n') :
    (oneSpace x).2 ≠ [] := by
  cases x with
  | nil => exact absurd rfl goesOn
  | cons c x =>
    rw [oneSpace_laid laid]
    split
    · exact laid.ne_nil fun hc => inLine (congrArg some hc)
    · exact List.cons_ne_nil c x

theorem escape_rest_ne_nil (laid : Laid ('\\' :: x)) : (escape x).rest ≠ [] := by
  obtain ⟨c, r, rfl, hc⟩ := laid.goes_on rfl
  by_cases hex : isHex c = true
  · obtain ⟨goesOn, inLine, laid'⟩ := laid_after_hexDigits laid.tail hex
    simp only [escape, if_pos hex]
    exact oneSpace_rest_ne_nil laid' goesOn inLine
  · simp only [escape, if_neg hex]
    exact laid.tail.ne_nil hc

/-- An escape inside a string; one may also hide a line end there. -/
def stringEscape (s : List Char) : Taken Char :=
  if startsNewline s then ⟨replacement, (oneSpace s).1, (oneSpace s).2⟩ else escape s

theorem stringEscape_source (s : List Char) : (stringEscape s).source ++ (stringEscape s).rest = s := by
  unfold stringEscape
  split
  · exact oneSpace_source s
  · exact escape_source s

theorem stringEscape_reflow (ends : Ends e e') (h : Reflow e e' x y) (laid : Laid ('\\' :: x))
    (room : e.length ≤ (stringEscape x).rest.length) :
    (stringEscape x).rest ≠ [] ∧
      ∃ y', stringEscape y = ⟨(stringEscape x).value, (stringEscape x).source, y'⟩ ∧
        Reflow e e' (stringEscape x).rest y' := by
  unfold stringEscape at room ⊢
  rw [startsNewline_reflow ends h]
  split
  · obtain ⟨c, r, rfl, hc⟩ := laid.goes_on rfl
    have inLine : (c :: r).head? ≠ some '\n' := by simpa using hc
    obtain ⟨y', hy, h'⟩ := oneSpace_reflow ends h laid.tail inLine
    exact ⟨oneSpace_rest_ne_nil laid.tail (List.cons_ne_nil c r) inLine, y', by rw [hy], h'⟩
  · rename_i newline
    rw [if_neg newline] at room
    exact ⟨escape_rest_ne_nil laid, escape_reflow ends h laid room⟩

theorem stringTail_reflow {quote : Char} (hq : quote ≠ '\n') (ends : Ends e e') (h : Reflow e e' x y)
    (laid : Laid x) (goesOn : x ≠ []) (room : e.length ≤ (stringTail quote x).2.length) :
    ∃ y', stringTail quote y = ((stringTail quote x).1, y') ∧ Reflow e e' (stringTail quote x).2 y' := by
  fun_induction stringTail quote x generalizing y with
  | case1 => exact absurd rfl goesOn
  | case2 c r hc =>
    obtain ⟨y', rfl, h'⟩ := h.step (by rintro rfl; exact hq (beq_iff_eq.1 hc).symm) room
    exact ⟨y', by rw [stringTail, if_pos hc], h'⟩
  | case3 c r hc hn =>
    obtain ⟨y', rfl⟩ := h.head ends
    exact ⟨c :: y', by rw [stringTail, if_neg hc, if_pos hn], h⟩
  | case4 c r hc hn hs =>
    rename_i esc body rest heq ih
    obtain rfl : c = '\\' := beq_iff_eq.1 hs
    obtain ⟨y', rfl, h'⟩ := h.step_inner ends rfl
    have taken : esc = stringEscape r := rfl
    rw [heq] at ih
    have shorter := length_stringTail_le quote esc.rest
    rw [heq, taken] at shorter
    obtain ⟨goesOn', y'', hy, h''⟩ := stringEscape_reflow ends h' laid (Nat.le_trans room shorter)
    obtain ⟨z, hy', rest'⟩ := ih h'' (laid.tail.of_source (stringEscape_source r)) goesOn' room
    refine ⟨z, ?_, rest'⟩
    rw [stringTail, if_neg hc, if_neg hn, if_pos hs]
    show ('\\' :: (stringEscape y').source ++ (stringTail quote (stringEscape y').rest).1,
      (stringTail quote (stringEscape y').rest).2) = _
    rw [hy]
    dsimp only
    rw [hy']
    rfl
  | case5 c r hc hn hs body rest heq ih =>
    have inLine : c ≠ '\n' := by rintro rfl; exact hn rfl
    rw [heq] at ih
    have shorter := length_stringTail_le quote r
    rw [heq] at shorter
    obtain ⟨y', rfl, h'⟩ := h.step inLine (Nat.le_trans room shorter)
    obtain ⟨y'', hy, rest'⟩ := ih h' laid.tail (laid.ne_nil inLine) room
    exact ⟨y'', by rw [stringTail, if_neg hc, if_neg hn, if_neg hs, hy], rest'⟩

/-- What two readings take and what they leave match, or both read on to the end. -/
def Paired (e e' : List Char) (p q : List Char × List Char) : Prop :=
  (Reflow [] [] p.1 q.1 ∧ Reflow e e' p.2 q.2) ∨ (p.2 = [] ∧ q.2 = [])

theorem Paired.front {s t : List Char} {p q : List Char × List Char} (h : Reflow [] [] s t)
    (h' : Paired e e' p q) : Paired e e' (s ++ p.1, p.2) (t ++ q.1, q.2) := by
  rcases h' with ⟨taken, rest⟩ | none
  · exact .inl ⟨h.append taken, rest⟩
  · exact .inr none

theorem Paired.cons {c : Char} {p q : List Char × List Char} (inLine : c ≠ '\n')
    (h : Paired e e' p q) : Paired e e' (c :: p.1, p.2) (c :: q.1, q.2) :=
  h.front (.char c inLine .ending)

/-- A reader that takes blanks as they come takes a line feed and the spaces behind it. -/
theorem tail_line {f : List Char → List Char × List Char}
    (blank : ∀ c, c = ' ' ∨ c = '\n' → ∀ s, f (c :: s) = (c :: (f s).1, (f s).2)) (k : Nat)
    (s : List Char) :
    f ('\n' :: (List.replicate k ' ' ++ s)) =
      (('\n' :: List.replicate k ' ') ++ (f s).1, (f s).2) := by
  have spaces : f (List.replicate k ' ' ++ s) = (List.replicate k ' ' ++ (f s).1, (f s).2) := by
    induction k with
    | zero => rfl
    | succ k ih => rw [List.replicate_succ, List.cons_append, blank ' ' (.inl rfl), ih]; rfl
  rw [blank '\n' (.inr rfl), spaces]
  rfl

theorem reflow_line (k : Nat) : Reflow [] [] ['\n'] ('\n' :: List.replicate k ' ') := by
  have := Reflow.line k (show Reflow [] [] [] [] from .ending)
  rwa [List.append_nil] at this

theorem commentTail_cons {c : Char} {s : List Char} (going : c = '*' → s.head? ≠ some '/') :
    commentTail (c :: s) = (c :: (commentTail s).1, (commentTail s).2) := by
  rw [commentTail]
  rintro s rfl rfl
  exact going rfl rfl

theorem commentTail_reflow (ends : Ends e e') (h : Reflow e e' x y)
    (room : e.length ≤ (commentTail x).2.length) : Paired e e' (commentTail x) (commentTail y) := by
  fun_induction commentTail x generalizing y with
  | case1 s =>
    obtain ⟨y', rfl, h'⟩ := h.step_inner ends rfl
    obtain ⟨y'', rfl, h''⟩ := h'.step_inner ends rfl
    exact .inl ⟨.refl ['*', '/'], h''⟩
  | case2 c s going =>
    rename_i body rest heq ih
    rw [heq] at ih
    have shorter := length_commentTail_le s
    rw [heq] at shorter
    by_cases hc : c = '\n'
    · subst hc
      obtain ⟨k, y', rfl, h'⟩ := h.step_line (Nat.le_trans room shorter)
      rw [tail_line (f := commentTail) (by rintro c (rfl | rfl) s <;> exact commentTail_cons (by simp))]
      exact (ih h' room).front (reflow_line k)
    · obtain ⟨y', rfl, h'⟩ := h.step hc (Nat.le_trans room shorter)
      have going' : c = '*' → y'.head? ≠ some '/' := by
        rintro rfl
        cases s with
        | nil => rw [(h'.nil_left ends).2]; decide
        | cons d s =>
          obtain ⟨y'', rfl⟩ := h'.head ends
          intro hd
          exact going s rfl (congrArg (· :: s) (Option.some.inj hd))
      rw [commentTail_cons going']
      exact (ih h' room).cons hc
  | case3 => rw [(h.nil_left ends).2]; exact .inr ⟨rfl, rfl⟩

theorem badUrlTail_cons {c : Char} {s : List Char} (plain : c ≠ ')')
    (going : c = '\\' → s.head? ≠ some ')' ∧ s.head? ≠ some '\\') :
    badUrlTail (c :: s) = (c :: (badUrlTail s).1, (badUrlTail s).2) := by
  rw [badUrlTail]
  · exact plain
  · rintro s rfl rfl; exact (going rfl).1 rfl
  · rintro s rfl rfl; exact (going rfl).2 rfl

theorem badUrlTail_reflow (ends : Ends e e') (h : Reflow e e' x y)
    (room : e.length ≤ (badUrlTail x).2.length) : Paired e e' (badUrlTail x) (badUrlTail y) := by
  fun_induction badUrlTail x generalizing y with
  | case1 => rw [(h.nil_left ends).2]; exact .inr ⟨rfl, rfl⟩
  | case2 s =>
    obtain ⟨y', rfl, h'⟩ := h.step_inner ends rfl
    exact .inl ⟨.refl [')'], h'⟩
  | case3 s body rest heq ih | case4 s body rest heq ih =>
    rw [heq] at ih
    obtain ⟨y', rfl, h'⟩ := h.step_inner ends rfl
    obtain ⟨y'', rfl, h''⟩ := h'.step_inner ends rfl
    exact ((ih h'' room).cons (by decide)).cons (by decide)
  | case5 c s plain closing slashes =>
    rename_i body rest heq ih
    rw [heq] at ih
    have shorter := length_badUrlTail_le s
    rw [heq] at shorter
    by_cases hc : c = '\n'
    · subst hc
      obtain ⟨k, y', rfl, h'⟩ := h.step_line (Nat.le_trans room shorter)
      rw [tail_line (f := badUrlTail)
        (by rintro c (rfl | rfl) s <;> exact badUrlTail_cons (by decide) (by simp))]
      exact (ih h' room).front (reflow_line k)
    · obtain ⟨y', rfl, h'⟩ := h.step hc (Nat.le_trans room shorter)
      have going : c = '\\' → y'.head? ≠ some ')' ∧ y'.head? ≠ some '\\' := by
        rintro rfl
        cases s with
        | nil => rw [(h'.nil_left ends).2]; decide
        | cons d s =>
          obtain ⟨y'', rfl⟩ := h'.head ends
          constructor
          · intro hd; exact closing s rfl (congrArg (· :: s) (Option.some.inj hd))
          · intro hd; exact slashes s rfl (congrArg (· :: s) (Option.some.inj hd))
      rw [badUrlTail_cons plain going]
      exact (ih h' room).cons hc

theorem head_dropWhile_blank {c : Char} {s r : List Char} (h : s.dropWhile isAsciiBlank = c :: r) :
    c ≠ '\n' := by
  rintro rfl
  cases not_of_dropWhile h

theorem urlEnd_reflow (ends : Ends e e') (h : Reflow e e' x y)
    (room : e.length ≤ (urlEnd x).2.length) : Paired e e' (urlEnd x) (urlEnd y) := by
  obtain ⟨spaces, after⟩ := h.span_blank ends
  cases hx : x.dropWhile isAsciiBlank with
  | nil =>
    rw [hx] at after
    have hy := (after.nil_left ends).2
    simp only [urlEnd, hx, hy]
    exact .inr ⟨rfl, rfl⟩
  | cons c r =>
    rw [hx] at after
    have inLine := head_dropWhile_blank hx
    by_cases bracket : c = ')'
    · subst bracket
      obtain ⟨y', hy, h'⟩ := after.step_inner ends rfl
      simp only [urlEnd, hx, hy]
      exact .inl ⟨spaces.append (.refl [')']), h'⟩
    · simp only [urlEnd, hx] at room ⊢
      obtain ⟨y', hy, h'⟩ := after.step inLine (Nat.le_trans room (length_badUrlTail_le r))
      simp only [hy]
      exact ((badUrlTail_reflow ends h' room).cons inLine).front spaces

theorem urlTail_reflow (ends : Ends e e') (h : Reflow e e' x y) (laid : Laid x)
    (room : e.length ≤ (urlTail x).2.length) : Paired e e' (urlTail x) (urlTail y) := by
  fun_induction urlTail x generalizing y with
  | case1 =>
    rw [(h.nil_left ends).2]
    exact .inr ⟨rfl, by decide +kernel⟩
  | case2 c r hc =>
    obtain rfl : c = ')' := beq_iff_eq.1 hc
    obtain ⟨y', rfl, h'⟩ := h.step_inner ends rfl
    rw [urlTail]
    exact .inl ⟨.refl [')'], h'⟩
  | case3 c r hc hb =>
    obtain ⟨y', rfl⟩ := h.head ends
    rw [urlTail, if_neg hc, if_pos hb]
    exact urlEnd_reflow ends h room
  | case4 c r hc hb hu =>
    rename_i body rest heq
    have inLine : c ≠ '\n' := by rintro rfl; exact hb rfl
    have shorter := length_badUrlTail_le r
    rw [heq] at shorter
    obtain ⟨y', rfl, h'⟩ := h.step inLine (Nat.le_trans room shorter)
    have tail := badUrlTail_reflow ends h'
    rw [heq] at tail
    rw [urlTail, if_neg hc, if_neg hb, if_pos hu]
    exact (tail room).cons inLine
  | case5 c r hc hb hu hs hn =>
    rename_i body rest heq
    obtain rfl : c = '\\' := beq_iff_eq.1 hs
    obtain ⟨y', rfl, h'⟩ := h.step_inner ends rfl
    have tail := badUrlTail_reflow ends h'
    rw [heq] at tail
    rw [urlTail, if_neg hc, if_neg hb, if_neg hu, if_pos hs, startsNewline_reflow ends h', if_pos hn]
    exact (tail room).cons (by decide)
  | case6 c r hc hb hu hs hn =>
    rename_i esc body rest heq ih
    obtain rfl : c = '\\' := beq_iff_eq.1 hs
    rw [heq] at ih
    have shorter := length_urlTail_le esc.rest
    rw [heq] at shorter
    obtain ⟨y', rfl, h'⟩ := h.step_inner ends rfl
    obtain ⟨y'', hy, h''⟩ := escape_reflow ends h' laid (Nat.le_trans room shorter)
    rw [urlTail, if_neg hc, if_neg hb, if_neg hu, if_pos hs, startsNewline_reflow ends h', if_neg hn, hy]
    exact (ih h'' (laid_escape_rest laid) room).front (.refl ('\\' :: esc.source))
  | case7 c r hc hb hu hs =>
    rename_i body rest heq ih
    have inLine : c ≠ '\n' := by rintro rfl; exact hb rfl
    rw [heq] at ih
    have shorter := length_urlTail_le r
    rw [heq] at shorter
    obtain ⟨y', rfl, h'⟩ := h.step inLine (Nat.le_trans room shorter)
    rw [urlTail, if_neg hc, if_neg hb, if_neg hu, if_neg hs]
    exact (ih h' laid.tail room).cons inLine

theorem url?_cons {s : List Char} {c : Char} {r : List Char} (h : s.dropWhile isAsciiBlank = c :: r) :
    url? s =
      if c = '"' ∨ c = '\'' then none
      else some (s.takeWhile isAsciiBlank ++ (urlTail (c :: r)).1, (urlTail (c :: r)).2) := by
  by_cases double : c = '"'
  · subst double; simp [url?, h]
  · by_cases single : c = '\''
    · subst single; simp [url?, h]
    · simp [url?, h, double, single]

theorem url?_nil {s : List Char} (h : s.dropWhile isAsciiBlank = []) :
    url? s = some (s.takeWhile isAsciiBlank ++ (urlTail []).1, (urlTail []).2) := by
  simp [url?, h]

theorem url?_reflow (ends : Ends e e') (h : Reflow e e' x y) (laid : Laid x)
    (room : ∀ p ∈ url? x, e.length ≤ p.2.length) :
    (url? x = none ∧ url? y = none) ∨ ∃ p q, url? x = some p ∧ url? y = some q ∧ Paired e e' p q := by
  obtain ⟨spaces, after⟩ := h.span_blank ends
  have laid' := laid.dropWhile isAsciiBlank
  cases hx : x.dropWhile isAsciiBlank with
  | nil =>
    rw [url?_nil hx] at room ⊢
    rw [hx] at after laid'
    have hy := (after.nil_left ends).2
    rw [url?_cons hy, if_neg (by decide)]
    rw [hy] at after
    have room' := room _ rfl
    exact .inr ⟨_, _, rfl, rfl, (urlTail_reflow ends after laid' room').front spaces⟩
  | cons c r =>
    rw [url?_cons hx] at room ⊢
    rw [hx] at after laid'
    obtain ⟨y', hy⟩ := after.head ends
    rw [url?_cons hy]
    split
    · exact .inl ⟨rfl, rfl⟩
    · rename_i plain
      rw [if_neg plain] at room
      rw [hy] at after
      have room' := room _ rfl
      exact .inr ⟨_, _, rfl, rfl, (urlTail_reflow ends after laid' room').front spaces⟩

/-- A text with more in it than blanks and closing braces. -/
def Anchored (s : List Char) : Prop := ∃ c ∈ s, isBlank c = false ∧ c ≠ '\x7d'

/-- Two tokens of one kind whose texts match, and so does what follows them; or both go on to the end. -/
def Matched (e e' : List Char) (p q : Token × List Char) : Prop :=
  q.1.kind = p.1.kind ∧
    ((Reflow [] [] p.1.source q.1.source ∧ Reflow e e' p.2 q.2) ∨
      (p.2 = [] ∧ q.2 = [] ∧ Anchored p.1.source ∧ Anchored q.1.source))

theorem Matched.of_reflow (kind : Kind) (s : List Char) (h : Reflow e e' x y) :
    Matched e e' (⟨kind, s⟩, x) (⟨kind, s⟩, y) :=
  ⟨rfl, .inl ⟨.refl s, h⟩⟩

theorem Matched.of_paired {p q : List Char × List Char} (kind : Kind) {s : List Char}
    (anchored : Anchored s) (h : Paired e e' p q) :
    Matched e e' (⟨kind, s ++ p.1⟩, p.2) (⟨kind, s ++ q.1⟩, q.2) := by
  have grown (t : List Char) : Anchored (s ++ t) := by
    obtain ⟨c, hc, h⟩ := anchored
    exact ⟨c, List.mem_append_left t hc, h⟩
  refine ⟨rfl, ?_⟩
  rcases h with ⟨taken, rest⟩ | ⟨hp, hq⟩
  · exact .inl ⟨taken.prepend s, rest⟩
  · exact .inr ⟨hp, hq, grown _, grown _⟩

/-- A mark, and what was taken behind it in the same way from both texts. -/
theorem Matched.of_taken {p q : List Char × List Char} (kind : Kind) (c : Char)
    (h : ∃ y', q = (p.1, y') ∧ Reflow e e' p.2 y') :
    Matched e e' (⟨kind, c :: p.1⟩, p.2) (⟨kind, c :: q.1⟩, q.2) := by
  obtain ⟨y', rfl, rest⟩ := h
  exact .of_reflow kind _ rest

/-- A mark that starts a longer token in both texts or in none. -/
theorem Matched.or_delim {test : Bool} {c : Char} {p q : Token × List Char} (h : Reflow e e' x y)
    (longer : test = true → e.length ≤ p.2.length → Matched e e' p q)
    (room : e.length ≤ (if test then p else (⟨.delim c, [c]⟩, x)).2.length) :
    Matched e e' (if test then p else (⟨.delim c, [c]⟩, x)) (if test then q else (⟨.delim c, [c]⟩, y)) := by
  cases test with
  | true => exact longer rfl room
  | false => exact .of_reflow (.delim c) [c] h

theorem identLike_bracket {s r : List Char} (h : (name s).rest = '(' :: r) :
    identLike s =
      if identLike.toLower (name s).value == "url".toList then
        match url? r with
        | some (body, rest) => (⟨.url, (name s).source ++ '(' :: body⟩, rest)
        | none => (⟨.function (String.ofList (name s).value), (name s).source ++ ['(']⟩, r)
      else (⟨.function (String.ofList (name s).value), (name s).source ++ ['(']⟩, r) := by
  unfold identLike
  dsimp only
  split
  · rename_i r' heq
    obtain ⟨-, rfl⟩ := List.cons.inj (h.symm.trans heq)
    rfl
  · rename_i other
    exact absurd h (other r)

theorem identLike_other {s : List Char} (h : (name s).rest.head? ≠ some '(') :
    identLike s = (⟨.ident (String.ofList (name s).value), (name s).source⟩, (name s).rest) := by
  unfold identLike
  dsimp only
  split
  · rename_i heq; rw [heq] at h; exact absurd rfl h
  · rfl

theorem identLike_reflow (ends : Ends e e') (h : Reflow e e' x y) (laid : Laid x)
    (room : e.length ≤ (identLike x).2.length) : Matched e e' (identLike x) (identLike y) := by
  obtain ⟨y', hy, after⟩ := name_reflow ends h laid (Nat.le_trans room (length_identLike_le x))
  have laid' := laid.of_source (name_source x)
  cases hx : (name x).rest with
  | nil =>
    rw [hx] at after
    have hn := (after.nil_left ends).2
    rw [identLike_other (by rw [hx]; nofun), identLike_other (by rw [hy, hn]; nofun), hy, hx]
    exact .of_reflow _ _ after
  | cons c r =>
    rw [hx] at after laid'
    by_cases bracket : c = '('
    · subst bracket
      obtain ⟨y'', rfl, after'⟩ := after.step_inner ends rfl
      rw [identLike_bracket hx] at room ⊢
      rw [identLike_bracket (congrArg Taken.rest hy), hy]
      dsimp only
      split
      · rename_i isUrl
        rw [if_pos isUrl] at room
        have opened : Anchored ((name x).source ++ ['(']) :=
          ⟨'(', List.mem_append_right _ (List.mem_singleton_self _), by decide, by decide⟩
        have inside := url?_reflow ends after' laid'.tail fun p hp => by
          rw [hp] at room; exact room
        rcases inside with ⟨hu, hv⟩ | ⟨p, q, hu, hv, paired⟩
        · rw [hu, hv]
          exact .of_reflow _ _ after'
        · rw [hu, hv]
          have := Matched.of_paired .url opened paired
          simpa only [List.append_assoc, List.singleton_append] using this
      · exact .of_reflow _ _ after'
    · obtain ⟨y'', rfl⟩ := after.head ends
      rw [identLike_other (by rw [hx]; simpa using bracket),
        identLike_other (by rw [hy]; simpa using bracket), hy, hx]
      exact .of_reflow _ _ after

theorem fraction_other {c : Char} (h : c ≠ '.') (s : List Char) : fraction (c :: s) = ([], c :: s) := by
  unfold fraction
  split
  · rename_i heq; exact absurd (List.cons.inj heq).1 h
  · rfl

theorem fraction_reflow (ends : Ends e e') (h : Reflow e e' x y) :
    ∃ y', fraction y = ((fraction x).1, y') ∧ Reflow e e' (fraction x).2 y' := by
  cases x with
  | nil => rw [(h.nil_left ends).2]; exact ⟨_, rfl, (h.nil_left ends).2 ▸ h⟩
  | cons c x =>
    by_cases point : c = '.'
    · subst point
      obtain ⟨y', rfl, h'⟩ := h.step_inner ends rfl
      simp only [fraction, startsDigit_reflow ends h']
      split
      · obtain ⟨same, rest⟩ := h'.span_line (p := isDigit) ends fun _ => inner_of_isDigit
        exact ⟨_, by rw [same], rest⟩
      · exact ⟨_, rfl, h⟩
    · obtain ⟨y', rfl⟩ := h.head ends
      rw [fraction_other point, fraction_other point]
      exact ⟨_, rfl, h⟩

theorem exponent_reflow (ends : Ends e e') (h : Reflow e e' x y) :
    ∃ y', exponent y = ((exponent x).1, y') ∧ Reflow e e' (exponent x).2 y' := by
  have digits {s t : List Char} (h : Reflow e e' s t) := h.span_line (p := isDigit) ends
    fun _ => inner_of_isDigit
  cases x with
  | nil => rw [(h.nil_left ends).2]; exact ⟨_, rfl, (h.nil_left ends).2 ▸ h⟩
  | cons c x =>
    obtain ⟨y', rfl⟩ := h.head ends
    by_cases mark : (c == 'e' || c == 'E') = true
    · have hc : inner c = true := by
        simp only [Bool.or_eq_true, beq_iff_eq] at mark
        rcases mark with rfl | rfl <;> rfl
      obtain ⟨_, heq, h'⟩ := h.step_inner ends hc
      obtain ⟨_, rfl⟩ := List.cons.inj heq
      cases x with
      | nil =>
        have hy := (h'.nil_left ends).2
        subst hy
        simp only [exponent, if_pos mark]
        exact ⟨_, rfl, h⟩
      | cons sign r =>
        obtain ⟨y'', rfl⟩ := h'.head ends
        simp only [exponent, if_pos mark]
        by_cases digit : isDigit sign = true
        · simp only [if_pos digit]
          exact ⟨_, by rw [(digits h').1], (digits h').2⟩
        · simp only [if_neg digit]
          by_cases signed : (sign == '+' || sign == '-') = true
          · have hs : inner sign = true := by
              simp only [Bool.or_eq_true, beq_iff_eq] at signed
              rcases signed with rfl | rfl <;> rfl
            obtain ⟨_, heq, h''⟩ := h'.step_inner ends hs
            obtain ⟨_, rfl⟩ := List.cons.inj heq
            rw [startsDigit_reflow ends h'']
            split
            · exact ⟨_, by rw [(digits h'').1], (digits h'').2⟩
            · exact ⟨_, rfl, h⟩
          · simp only [signed]
            exact ⟨_, rfl, h⟩
    · simp only [exponent, if_neg mark]
      exact ⟨_, rfl, h⟩

theorem numberEnd_other {s : List Char} (h : (exponent s).2.head? ≠ some '%') :
    numberEnd s =
      if startsIdent (exponent s).2 then
        ((exponent s).1 ++ (name (exponent s).2).source, (name (exponent s).2).rest)
      else exponent s := by
  unfold numberEnd
  dsimp only
  split
  · rename_i heq; rw [heq] at h; exact absurd rfl h
  · rfl

theorem numberEnd_reflow (ends : Ends e e') (h : Reflow e e' x y) (laid : Laid x)
    (room : e.length ≤ (numberEnd x).2.length) :
    ∃ y', numberEnd y = ((numberEnd x).1, y') ∧ Reflow e e' (numberEnd x).2 y' := by
  obtain ⟨y', hy, after⟩ := exponent_reflow ends h
  by_cases percent : (exponent x).2.head? = some '%'
  · obtain ⟨r, hr⟩ := List.head?_eq_some_iff.1 percent
    rw [hr] at after
    obtain ⟨y'', rfl, after'⟩ := after.step_inner ends rfl
    simp only [numberEnd, hr, hy]
    exact ⟨_, rfl, after'⟩
  · have percent' : (exponent y).2.head? ≠ some '%' := by
      rw [hy]
      cases hr : (exponent x).2 with
      | nil => rw [hr] at after; rw [(after.nil_left ends).2]; nofun
      | cons c r =>
        rw [hr] at after percent
        obtain ⟨y'', rfl⟩ := after.head ends
        exact percent
    rw [numberEnd_other percent] at room ⊢
    rw [numberEnd_other percent', hy]
    dsimp only
    rw [startsIdent_reflow ends after]
    split
    · rename_i unit
      rw [if_pos unit] at room
      obtain ⟨y'', hn, rest⟩ := name_reflow ends after (laid.of_source (exponent_source x)) room
      exact ⟨y'', by rw [hn], rest⟩
    · exact ⟨_, rfl, after⟩

theorem fractional_reflow (ends : Ends e e') (h : Reflow e e' x y) (laid : Laid x)
    (room : e.length ≤ (fractional x).2.length) :
    ∃ y', fractional y = ((fractional x).1, y') ∧ Reflow e e' (fractional x).2 y' := by
  obtain ⟨same, after⟩ := h.span_line (p := isDigit) ends fun _ => inner_of_isDigit
  obtain ⟨y', hy, rest⟩ :=
    numberEnd_reflow ends after (laid.dropWhile isDigit) room
  exact ⟨y', by simp only [fractional, same, hy], rest⟩

theorem numeric_reflow (ends : Ends e e') (h : Reflow e e' x y) (laid : Laid x)
    (room : e.length ≤ (numeric x).2.length) :
    ∃ y', numeric y = ((numeric x).1, y') ∧ Reflow e e' (numeric x).2 y' := by
  obtain ⟨same, after⟩ := h.span_line (p := isDigit) ends fun _ => inner_of_isDigit
  have laid' := laid.dropWhile isDigit
  obtain ⟨y', hy, after'⟩ := fraction_reflow ends after
  obtain ⟨y'', hz, rest⟩ :=
    numberEnd_reflow ends after' (laid'.of_source (fraction_source _)) room
  exact ⟨y'', by simp only [numeric, same, hy, hz], rest⟩

theorem string_reflow (ends : Ends e e') {quote : Char} {s s' : List Char} (h : Reflow e e' s s')
    (laid : Laid (quote :: s)) (hq : quote ≠ '\n') (room : e.length ≤ (stringTail quote s).2.length) :
    Matched e e' (⟨.string, quote :: (stringTail quote s).1⟩, (stringTail quote s).2)
      (⟨.string, quote :: (stringTail quote s').1⟩, (stringTail quote s').2) := by
  exact .of_taken .string quote (stringTail_reflow hq ends h laid.tail (laid.ne_nil hq) room)

/-- The two characters of a comparison in an attribute selector. -/
def comparison (c : Char) (s : List Char) : Token × List Char :=
  match s with
  | d :: rest => if d == '=' then (⟨.attributeMatch, [c, d]⟩, rest) else (⟨.delim c, [c]⟩, s)
  | [] => (⟨.delim c, [c]⟩, s)

theorem comparison_reflow (ends : Ends e e') (c : Char) {s s' : List Char} (h : Reflow e e' s s') :
    Matched e e' (comparison c s) (comparison c s') := by
  cases s with
  | nil =>
    obtain rfl := (h.nil_left ends).2
    exact .of_reflow (.delim c) [c] h
  | cons d s =>
    by_cases equals : d = '='
    · subst equals
      obtain ⟨y', rfl, h'⟩ := h.step_inner ends rfl
      exact .of_reflow _ _ h'
    · obtain ⟨y', rfl⟩ := h.head ends
      simp only [comparison, beq_iff_eq, if_neg equals]
      exact .of_reflow _ _ h

theorem hash_reflow (ends : Ends e e') {s s' : List Char} (h : Reflow e e' s s') (laid : Laid s)
    (room : e.length ≤ (next '#' s).2.length) : Matched e e' (next '#' s) (next '#' s') := by
  have dash : (s'.head? == some '-') = (s.head? == some '-') := by
    cases s with
    | nil => rw [(h.nil_left ends).2]; rfl
    | cons c s => obtain ⟨y', rfl⟩ := h.head ends; rfl
  simp only [next, startsIdent_reflow ends h, startsDigit_reflow ends h, dash] at room ⊢
  refine .or_delim h (fun _ room => ?_) room
  obtain ⟨y', hy, rest⟩ := name_reflow ends h laid room
  rw [hy]
  exact .of_reflow _ _ rest

theorem signed_reflow (ends : Ends e e') {s s' : List Char} (h : Reflow e e' s s') (laid : Laid s)
    (room : e.length ≤ (next '+' s).2.length) : Matched e e' (next '+' s) (next '+' s') := by
  simp only [next, startsNumber_reflow ends h] at room ⊢
  exact .or_delim h (fun _ room => .of_taken _ _ (numeric_reflow ends h laid room)) room

theorem point_reflow (ends : Ends e e') {s s' : List Char} (h : Reflow e e' s s') (laid : Laid s)
    (room : e.length ≤ (next '.' s).2.length) : Matched e e' (next '.' s) (next '.' s') := by
  simp only [next, startsDigit_reflow ends h] at room ⊢
  exact .or_delim h (fun _ room => .of_taken _ _ (fractional_reflow ends h laid room)) room

theorem atSign_reflow (ends : Ends e e') {s s' : List Char} (h : Reflow e e' s s') (laid : Laid s)
    (room : e.length ≤ (next '@' s).2.length) : Matched e e' (next '@' s) (next '@' s') := by
  simp only [next, startsIdent_reflow ends h] at room ⊢
  refine .or_delim h (fun _ room => ?_) room
  obtain ⟨y', hy, rest⟩ := name_reflow ends h laid room
  rw [hy]
  exact .of_reflow _ _ rest

theorem next_slash {s : List Char} (h : ∀ r, s ≠ '*' :: r) : next '/' s = (⟨.delim '/', ['/']⟩, s) := by
  simp only [next]

theorem slash_reflow (ends : Ends e e') {s s' : List Char} (h : Reflow e e' s s')
    (room : e.length ≤ (next '/' s).2.length) : Matched e e' (next '/' s) (next '/' s') := by
  have star : ∀ c ∈ ['*'], inner c = true := List.all_eq_true.1 rfl
  by_cases comment : ∃ r, s = ['*'] ++ r
  · obtain ⟨r, rfl⟩ := comment
    obtain ⟨r', rfl, h'⟩ := h.starts ends star rfl
    exact .of_paired .comment (s := ['/', '*']) ⟨'/', by decide, by decide, by decide⟩
      (commentTail_reflow ends h' room)
  · have comment' (r : List Char) : s' ≠ '*' :: r := fun hr =>
      comment (h.starts_left ends star (p := ['*']) hr)
    rw [next_slash fun r hr => comment ⟨r, hr⟩, next_slash comment']
    exact .of_reflow _ _ h

theorem next_less {s : List Char} (h : ∀ r, s ≠ '!' :: '-' :: '-' :: r) :
    next '<' s = (⟨.delim '<', ['<']⟩, s) := by
  simp only [next]

theorem less_reflow (ends : Ends e e') {s s' : List Char} (h : Reflow e e' s s') :
    Matched e e' (next '<' s) (next '<' s') := by
  have opening : ∀ c ∈ ['!', '-', '-'], inner c = true := List.all_eq_true.1 rfl
  by_cases comment : ∃ r, s = ['!', '-', '-'] ++ r
  · obtain ⟨r, rfl⟩ := comment
    obtain ⟨r', rfl, h'⟩ := h.starts ends opening rfl
    exact .of_reflow .commentOpen ['<', '!', '-', '-'] h'
  · have comment' (r : List Char) : s' ≠ '!' :: '-' :: '-' :: r := fun hr =>
      comment (h.starts_left ends opening hr)
    rw [next_less fun r hr => comment ⟨r, hr⟩, next_less comment']
    exact .of_reflow _ _ h

theorem next_hyphen {s : List Char} (h : ∀ r, s ≠ '-' :: '>' :: r) :
    next '-' s =
      if startsNumber s then (⟨.number, '-' :: (numeric s).1⟩, (numeric s).2)
      else if startsIdent ('-' :: s) then identLike ('-' :: s)
      else (⟨.delim '-', ['-']⟩, s) := by
  simp only [next]

theorem hyphen_reflow (ends : Ends e e') {s s' : List Char} (h : Reflow e e' s s')
    (laid : Laid ('-' :: s)) (room : e.length ≤ (next '-' s).2.length) :
    Matched e e' (next '-' s) (next '-' s') := by
  have whole : Reflow e e' ('-' :: s) ('-' :: s') := .char '-' (by decide) h
  have closing : ∀ c ∈ ['-', '>'], inner c = true := List.all_eq_true.1 rfl
  by_cases comment : ∃ r, s = ['-', '>'] ++ r
  · obtain ⟨r, rfl⟩ := comment
    obtain ⟨r', rfl, h'⟩ := h.starts ends closing rfl
    exact .of_reflow .commentClose ['-', '-', '>'] h'
  · have comment' (r : List Char) : s' ≠ '-' :: '>' :: r := fun hr =>
      comment (h.starts_left ends closing hr)
    rw [next_hyphen fun r hr => comment ⟨r, hr⟩] at room ⊢
    rw [next_hyphen comment', startsNumber_reflow ends h, startsIdent_reflow ends whole]
    split
    · rename_i number
      rw [if_pos number] at room
      exact .of_taken _ _ (numeric_reflow ends h laid.tail room)
    · rename_i number
      rw [if_neg number] at room
      exact .or_delim h (fun _ room => identLike_reflow ends whole laid room) room

/-- A token that starts within a line. -/
theorem next_reflow_inLine (ends : Ends e e') {c : Char} {s s' : List Char} (h : Reflow e e' s s')
    (laid : Laid (c :: s)) (inLine : c ≠ '\n') (room : e.length ≤ (next c s).2.length) :
    Matched e e' (next c s) (next c s') := by
  by_cases mark : c ∈ marks
  · simp only [marks, List.mem_cons, List.not_mem_nil, or_false] at mark
    rcases mark with rfl | rfl | rfl | rfl | rfl | rfl | rfl | rfl | rfl | rfl | rfl | rfl | rfl | rfl |
      rfl | rfl | rfl | rfl | rfl | rfl | rfl | rfl | rfl
    iterate 2 exact string_reflow ends h laid inLine room
    iterate 5 exact comparison_reflow ends _ h
    iterate 9 exact .of_reflow _ _ h
    · exact hash_reflow ends h laid.tail room
    · exact signed_reflow ends h laid.tail room
    · exact point_reflow ends h laid.tail room
    · exact hyphen_reflow ends h laid room
    · exact slash_reflow ends h room
    · exact less_reflow ends h
    · exact atSign_reflow ends h laid.tail room
  · rw [next_of_not_mark mark] at room ⊢
    rw [next_of_not_mark mark]
    have whole : Reflow e e' (c :: s) (c :: s') := .char c inLine h
    rw [startsIdent_reflow ends whole]
    by_cases blank : isAsciiBlank c = true
    · rw [if_pos blank, if_pos blank]
      obtain ⟨spaces, rest⟩ := h.span_blank ends
      exact ⟨rfl, .inl ⟨.char c inLine spaces, rest⟩⟩
    · rw [if_neg blank] at room ⊢
      rw [if_neg blank]
      by_cases digit : isDigit c = true
      · rw [if_pos digit] at room ⊢
        rw [if_pos digit]
        exact .of_taken _ _ (numeric_reflow ends h laid.tail room)
      · rw [if_neg digit] at room ⊢
        rw [if_neg digit]
        exact .or_delim h (fun _ room => identLike_reflow ends whole laid room) room

theorem next_reflow (ends : Ends e e') {c : Char} {s : List Char} (h : Reflow e e' (c :: s) y)
    (laid : Laid (c :: s)) (room : e.length ≤ (next c s).2.length) :
    ∃ s', y = c :: s' ∧ Matched e e' (next c s) (next c s') := by
  have room' := Nat.le_trans room (length_next_le c s)
  by_cases hc : c = '\n'
  · subst hc
    obtain ⟨k, s', rfl, h'⟩ := h.step_line room'
    obtain ⟨spaces, rest⟩ := h.span_blank ends
    refine ⟨_, rfl, ?_⟩
    rw [next_blank rfl, next_blank rfl]
    exact ⟨rfl, .inl ⟨spaces, rest⟩⟩
  · obtain ⟨s', rfl, h'⟩ := h.step hc room'
    exact ⟨s', rfl, next_reflow_inLine ends h' laid hc room⟩

end Token

end Stencil.Style
