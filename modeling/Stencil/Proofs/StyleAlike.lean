import Mathlib.Data.List.Forall2
import Stencil.Proofs.StyleReflow
import Stencil.Proofs.Words

/-! Texts that read alike. What a reader keeps of a stylesheet is trimmed, so two texts that differ in the
spaces behind their line feeds are trimmed to the same, unless a line feed stands in the middle of both.
-/
namespace Stencil.Style

open Text

/-- Some character is not blank. -/
def Solid (s : List Char) : Prop := ∃ c ∈ s, isBlank c = false

/-- A line feed in the middle of a text, with more than blanks on both of its sides. -/
def Broken (s : List Char) : Prop := ∃ p q, s = p ++ '\n' :: q ∧ Solid p ∧ Solid q

/-- Two texts that are trimmed to the same, unless both are broken. -/
def Reads (a b : List Char) : Prop := Reflow [] [] a b ∨ (Broken a ∧ Broken b)

theorem Solid.append_left {s : List Char} (h : Solid s) (t : List Char) : Solid (s ++ t) := by
  obtain ⟨c, hc, solid⟩ := h
  exact ⟨c, List.mem_append_left t hc, solid⟩

theorem Solid.append_right {s : List Char} (h : Solid s) (t : List Char) : Solid (t ++ s) := by
  obtain ⟨c, hc, solid⟩ := h
  exact ⟨c, List.mem_append_right t hc, solid⟩

theorem not_solid_of_blank {s : List Char} (blank : ∀ c ∈ s, isBlank c = true) : ¬ Solid s := by
  rintro ⟨c, hc, solid⟩
  rw [blank c hc] at solid
  cases solid

theorem Broken.append_left {s : List Char} (h : Broken s) (t : List Char) : Broken (s ++ t) := by
  obtain ⟨p, q, rfl, hp, hq⟩ := h
  exact ⟨p, q ++ t, by simp, hp, hq.append_left t⟩

theorem Broken.append_right {s : List Char} (h : Broken s) (t : List Char) : Broken (t ++ s) := by
  obtain ⟨p, q, rfl, hp, hq⟩ := h
  exact ⟨t ++ p, q, by simp, hp.append_right t, hq⟩

theorem broken_of_mem_trim {s : List Char} (h : '\n' ∈ Chars.trim s) : Broken s := by
  obtain ⟨before, after, split, -, -⟩ := Chars.trim_split s
  have trimmed := Chars.trim_trim s
  obtain ⟨p, q, parts⟩ := List.append_of_mem h
  rw [parts] at split trimmed
  have front : Solid p := by
    cases p with
    | nil => cases Chars.isBlank_of_trim_eq trimmed
    | cons c p => exact ⟨c, List.mem_cons_self, Chars.isBlank_of_trim_eq trimmed⟩
  have back : Solid q := by
    rcases List.eq_nil_or_concat q with rfl | ⟨r, d, rfl⟩
    · cases Chars.isBlank_of_trim_eq_last trimmed
    · rw [List.concat_eq_append] at trimmed ⊢
      rw [← List.cons_append, ← List.append_assoc] at trimmed
      exact ⟨d, by simp, Chars.isBlank_of_trim_eq_last trimmed⟩
  rw [split]
  exact Broken.append_left (Broken.append_right ⟨p, q, rfl, front, back⟩ before) after

theorem Broken.mem_trim {s : List Char} (h : Broken s) : '\n' ∈ Chars.trim s := by
  obtain ⟨p, q, rfl, front, back⟩ := h
  obtain ⟨before, after, split, blank, blank'⟩ := Chars.trim_split (p ++ '\n' :: q)
  -- The blanks that are cut off end before the line feed on the left and start behind it on the right.
  have left : before <+: p := by
    have whole : before <+: p ++ '\n' :: q := ⟨_, (split.trans (List.append_assoc ..)).symm⟩
    rcases List.prefix_or_prefix_of_prefix (List.prefix_append p ('\n' :: q)) whole with ⟨r, rfl⟩ | inside
    · exact absurd (front.append_left r) (not_solid_of_blank blank)
    · exact inside
  have right : after <:+ q := by
    have whole : after <:+ (p ++ ['\n']) ++ q :=
      ⟨before ++ Chars.trim (p ++ '\n' :: q), by rw [← split]; simp⟩
    rcases List.suffix_or_suffix_of_suffix (List.suffix_append (p ++ ['\n']) q) whole with ⟨r, rfl⟩ | inside
    · exact absurd (back.append_right r) (not_solid_of_blank blank')
    · exact inside
  obtain ⟨p', rfl⟩ := left
  obtain ⟨q', rfl⟩ := right
  have middle : before ++ (p' ++ '\n' :: q') ++ after =
      before ++ Chars.trim (before ++ p' ++ '\n' :: (q' ++ after)) ++ after := by
    rw [← split]; simp
  rw [← List.append_cancel_left (List.append_cancel_right middle)]
  exact List.mem_append_right p' List.mem_cons_self

namespace Reflow

variable {x y : List Char}

theorem split {a b t : List Char} (h : Reflow [] [] (a ++ b) t) :
    ∃ a' b', t = a' ++ b' ∧ Reflow [] [] a a' ∧ Reflow [] [] b b' := by
  induction a generalizing t with
  | nil => exact ⟨[], t, rfl, .ending, h⟩
  | cons c a ih =>
    rw [List.cons_append] at h
    cases h with
    | char _ inLine h =>
      obtain ⟨a', b', rfl, ha, hb⟩ := ih h
      exact ⟨c :: a', b', rfl, .char c inLine ha, hb⟩
    | line k h =>
      obtain ⟨a', b', rfl, ha, hb⟩ := ih h
      exact ⟨'\n' :: (List.replicate k ' ' ++ a'), b', by simp, .line k ha, hb⟩

theorem length_le {e e' : List Char} (h : Reflow e e' x y) : e.length ≤ x.length := by
  induction h with
  | ending => exact Nat.le_refl _
  | char _ _ _ ih => exact Nat.le_succ_of_le ih
  | line _ _ ih => exact Nat.le_succ_of_le ih

theorem at_end {e e' : List Char} (h : Reflow e e' e y) : y = e' := by
  cases h with
  | ending => rfl
  | char c _ h => exact absurd h.length_le (Nat.not_succ_le_self _)
  | line k h => exact absurd h.length_le (Nat.not_succ_le_self _)

theorem eq_of_inLine (h : Reflow [] [] x y) (inLine : '\n' ∉ x) : y = x := by
  induction h with
  | ending => rfl
  | char c _ _ ih => rw [ih fun hm => inLine (List.mem_cons_of_mem c hm)]
  | line k _ _ => exact absurd List.mem_cons_self inLine

theorem blank (h : Reflow [] [] x y) (blanks : ∀ c ∈ x, isBlank c = true) : ∀ c ∈ y, isBlank c = true := by
  induction h with
  | ending => exact blanks
  | char c _ _ ih =>
    rw [List.forall_mem_cons] at blanks ⊢
    exact ⟨blanks.1, ih blanks.2⟩
  | line k _ ih =>
    rw [List.forall_mem_cons] at blanks
    simp only [List.forall_mem_cons, List.forall_mem_append]
    exact ⟨rfl, fun c hc => (List.mem_replicate.1 hc).2 ▸ rfl, ih blanks.2⟩

theorem solid (h : Reflow [] [] x y) (hx : Solid x) : Solid y := by
  obtain ⟨c, hc, solid⟩ := hx
  refine ⟨c, ?_, solid⟩
  induction h with
  | ending => exact hc
  | char d _ _ ih =>
    rcases List.mem_cons.1 hc with rfl | hc
    · exact List.mem_cons_self
    · exact List.mem_cons_of_mem d (ih hc)
  | line k _ ih =>
    rcases List.mem_cons.1 hc with rfl | hc
    · cases solid
    · exact List.mem_cons_of_mem _ (List.mem_append_right _ (ih hc))

theorem broken (h : Reflow [] [] x y) (hx : Broken x) : Broken y := by
  obtain ⟨p, q, rfl, hp, hq⟩ := hx
  obtain ⟨p', r, rfl, hp', hr⟩ := h.split
  cases hr with
  | char _ inLine _ => exact absurd rfl inLine
  | line k hr => exact ⟨p', _, rfl, hp'.solid hp, (hr.solid hq).append_right _⟩

/-- Texts that are not broken are trimmed to the same. -/
theorem trim_eq (h : Reflow [] [] x y) (whole : '\n' ∉ Chars.trim x) : Chars.trim y = Chars.trim x := by
  obtain ⟨before, after, parts, blank, blank'⟩ := Chars.trim_split x
  rw [parts] at h
  obtain ⟨r, after', rfl, hr, hafter⟩ := h.split
  obtain ⟨before', middle, rfl, hbefore, hmiddle⟩ := hr.split
  rw [Chars.trim_append_blank _ _ (hafter.blank blank'),
    Chars.trim_blank_append _ _ (hbefore.blank blank), hmiddle.eq_of_inLine whole, Chars.trim_trim]

end Reflow

/-- Two texts a reader keeps: they are the same, or both hold a line feed. -/
def SameLine (s t : String) : Prop := t = s ∨ ('\n' ∈ s.toList ∧ '\n' ∈ t.toList)

namespace Reads

variable {a b a' b' : List Char}

theorem refl (s : List Char) : Reads s s := .inl (.refl s)

theorem broken (h : Reads a b) (ha : Broken a) : Broken b := by
  rcases h with h | h
  · exact h.broken ha
  · exact h.2

theorem append (h : Reads a b) (h' : Reads a' b') : Reads (a ++ a') (b ++ b') := by
  rcases h with h | ⟨ha, hb⟩
  · rcases h' with h' | ⟨ha', hb'⟩
    · exact .inl (h.append h')
    · exact .inr ⟨ha'.append_right a, hb'.append_right b⟩
  · exact .inr ⟨ha.append_left a', hb.append_left b'⟩

theorem trimmed (h : Reads a b) :
    SameLine (String.ofList (Chars.trim a)) (String.ofList (Chars.trim b)) := by
  unfold SameLine
  rw [String.toList_ofList, String.toList_ofList]
  by_cases hb : '\n' ∈ Chars.trim a
  · exact .inr ⟨hb, (h.broken (broken_of_mem_trim hb)).mem_trim⟩
  · rcases h with h | ⟨ha, _⟩
    · exact .inl (congrArg String.ofList (h.trim_eq hb))
    · exact absurd ha.mem_trim hb

end Reads

/-- A text that ends with a closing brace on a line of its own. -/
def EndsClosed (s : List Char) : Prop := ['\n', '\x7d', '\n'] <:+ s

theorem broken_of_suffix {s t : List Char} (closed : EndsClosed t) (part : s <:+ t)
    (anchored : Token.Anchored s) : Broken s := by
  obtain ⟨c, hc, solid, apart⟩ := anchored
  have outside : c ∉ ['\n', '\x7d', '\n'] := by
    simp only [List.mem_cons, List.not_mem_nil, or_false]
    rintro (rfl | rfl | rfl)
    · cases solid
    · exact apart rfl
    · cases solid
  rcases List.suffix_or_suffix_of_suffix part closed with inside | ⟨r, rfl⟩
  · exact absurd (inside.subset hc) outside
  · have front : c ∈ r := (List.mem_append.1 hc).resolve_right outside
    exact ⟨r, ['\x7d', '\n'], rfl, ⟨c, front, solid⟩, ⟨'\x7d', by decide, by decide⟩⟩

namespace Token

/-- Two tokens of one kind whose texts read alike. -/
structure Alike (t t' : Token) : Prop where
  kind : t'.kind = t.kind
  source : Reads t.source t'.source

variable {e e' x y : List Char}

theorem scan_reflow (ends : Ends e e') {ts us : List Token} (h : Reflow e e' x y) (laid : Laid x)
    (hx : scan x = ts ++ us) (room : e.length ≤ (flat us).length)
    (closed : e = [] → ∀ s t, s <:+ x → t <:+ y → Anchored s → Anchored t → Broken s ∧ Broken t) :
    ∃ ts' y', scan y = ts' ++ scan y' ∧ List.Forall₂ Alike ts ts' ∧
      (Reflow e e' (flat us) y' ∨ (us = [] ∧ y' = [])) := by
  induction ts generalizing x y with
  | nil =>
    refine ⟨[], y, rfl, .nil, .inl ?_⟩
    rw [List.nil_append] at hx
    rwa [← hx, flat_scan]
  | cons t ts ih =>
    cases x with
    | nil => rw [scan] at hx; cases hx
    | cons c s =>
      rw [scan, List.cons_append] at hx
      obtain ⟨rfl, hrest⟩ := List.cons.inj hx
      have left : (next c s).2 = flat ts ++ flat us := by rw [← flat_scan (next c s).2, hrest, flat_append]
      have room' : e.length ≤ (next c s).2.length := by
        rw [left, List.length_append]
        exact Nat.le_add_left_of_le room
      have part := next_source c s
      obtain ⟨s', rfl, kind, matched⟩ := next_reflow ends h laid room'
      have part' := next_source c s'
      rw [scan]
      rcases matched with ⟨source, rest⟩ | ⟨none, none', anchored, anchored'⟩
      · obtain ⟨ts', y', hy, alike, after⟩ := ih rest (laid.of_source part) hrest fun he p q hp hq =>
          closed he p q (hp.trans ⟨_, part⟩) (hq.trans ⟨_, part'⟩)
        exact ⟨_ :: ts', y', by rw [hy]; rfl, .cons ⟨kind, .inl source⟩ alike, after⟩
      · rw [none, scan] at hrest
        obtain ⟨rfl, rfl⟩ := List.append_eq_nil_iff.1 hrest.symm
        rw [none, List.append_nil] at part
        rw [none', List.append_nil] at part'
        have he : e = [] := List.eq_nil_of_length_eq_zero (Nat.le_zero.1 room)
        have broken := closed he _ _ (part ▸ List.suffix_refl _) (part' ▸ List.suffix_refl _) anchored anchored'
        refine ⟨[(next c s').1], [], ?_, .cons ⟨kind, .inr broken⟩ .nil, .inr ⟨rfl, rfl⟩⟩
        rw [none', scan]
        rfl

/-- Tokens that read alike one by one, where the second text may go on with a closing brace. -/
inductive Follows : List Token → List Token → Prop
  | ended : Follows [] []
  | closed : Follows [] [⟨.closing .curly, ['\x7d']⟩, ⟨.space, ['\n']⟩]
  | cons {t t' : Token} {ts ts' : List Token} : Alike t t' → Follows ts ts' → Follows (t :: ts) (t' :: ts')

/-- The tokens of a text under another indentation, with a brace put behind it. -/
theorem follows_of_reflow (h : Reflow [] ['\x7d', '\n'] x y) (laid : Laid x) (hx : EndsClosed x)
    (hy : EndsClosed y) : Follows (scan x) (scan y) := by
  obtain ⟨ts', y', scanned, alike, after⟩ :=
    scan_reflow .closed h laid (List.append_nil _).symm (Nat.zero_le _) fun _ s t hs ht as at' =>
      ⟨broken_of_suffix hx hs as, broken_of_suffix hy ht at'⟩
  rw [scanned]
  clear scanned
  generalize scan x = ts at alike
  induction alike with
  | nil =>
    rcases after with after | ⟨-, rfl⟩
    · obtain rfl := (after.nil_left .closed).2
      rw [show scan ['\x7d', '\n'] = [⟨.closing .curly, ['\x7d']⟩, ⟨.space, ['\n']⟩] by decide +kernel]
      exact .closed
    · rw [scan]; exact .ended
  | cons first _ ih => exact .cons first ih

theorem Alike.eq_of_inLine {t t' : Token} (h : Alike t t') (inLine : '\n' ∉ t.source) : t' = t := by
  obtain ⟨kind, source⟩ := h
  rcases source with same | ⟨⟨p, q, split, -⟩, -⟩
  · have text := same.eq_of_inLine inLine
    cases t; cases t'
    exact congr (congrArg Token.mk kind) text
  · rw [split] at inLine
    exact absurd (List.mem_append_right p List.mem_cons_self) inLine

theorem eq_of_alike {ts ts' : List Token} (h : List.Forall₂ Alike ts ts') (inLine : '\n' ∉ flat ts) :
    ts' = ts := by
  induction h with
  | nil => rfl
  | cons first _ ih =>
    rw [flat_cons, List.mem_append, not_or] at inLine
    rw [first.eq_of_inLine inLine.1, ih inLine.2]

/-- What follows an opening brace has no part in the tokens before it. -/
theorem scan_before_brace {a w : List Char} {ts us : List Token} (inLine : '\n' ∉ a)
    (laid : Laid (a ++ '\x7b' :: w)) (hx : scan (a ++ '\x7b' :: w) = ts ++ us)
    (covered : flat us = '\x7b' :: w) (w' : List Char) :
    scan (a ++ '\x7b' :: w') = ts ++ scan ('\x7b' :: w') := by
  have start : Reflow ('\x7b' :: w) ('\x7b' :: w') (a ++ '\x7b' :: w) (a ++ '\x7b' :: w') :=
    Reflow.prepend a .ending
  obtain ⟨ts', y', scanned, alike, after⟩ :=
    scan_reflow (.opened w w') start laid hx (by rw [covered]) nofun
  have front : flat ts = a := by
    have whole := flat_scan (a ++ '\x7b' :: w)
    rw [hx, flat_append, covered] at whole
    exact List.append_cancel_right whole
  rw [scanned, eq_of_alike alike (front ▸ inLine)]
  rcases after with after | ⟨rfl, -⟩
  · rw [covered] at after
    rw [after.at_end]
  · cases covered

end Token

end Stencil.Style
