import Stencil.Text.Blank
import Stencil.Text.Search

/-! Letters, trimming, words and first occurrences in texts that are put together. A blank between two texts
keeps their words apart, blanks around a text do not change what it is trimmed to, and the first occurrence
of a separator is where it was put when nothing before it starts like it. -/
namespace Stencil.Text

section Letters

variable {c : Char}

theorem isUpper_iff : c.isUpper = true ↔ 65 ≤ c.toNat ∧ c.toNat ≤ 90 := by
  unfold Char.isUpper
  simp [UInt32.le_iff_toNat_le]

theorem isLower_iff : c.isLower = true ↔ 97 ≤ c.toNat ∧ c.toNat ≤ 122 := by
  unfold Char.isLower
  simp [UInt32.le_iff_toNat_le]

theorem isDigit_iff : c.isDigit = true ↔ 48 ≤ c.toNat ∧ c.toNat ≤ 57 := by
  unfold Char.isDigit
  simp [UInt32.le_iff_toNat_le]

theorem isAlpha_iff : c.isAlpha = true ↔ c.isUpper = true ∨ c.isLower = true := by
  unfold Char.isAlpha
  rw [Bool.or_eq_true]

theorem isAlphanum_iff : c.isAlphanum = true ↔ c.isAlpha = true ∨ c.isDigit = true := by
  unfold Char.isAlphanum
  rw [Bool.or_eq_true]

theorem toLower_of_small (small : c.isUpper = false) : c.toLower = c := by
  unfold Char.toLower
  rw [dif_neg]
  unfold Char.isUpper at small
  simpa using small

theorem isLower_toLower (capital : c.isUpper = true) : c.toLower.isLower = true := by
  have range := isUpper_iff.mp capital
  rw [isLower_iff]
  unfold Char.toLower
  rw [dif_pos (by unfold Char.isUpper at capital; simpa using capital)]
  have shifted : (c.val + ('a'.val - 'A'.val)).toNat = c.toNat + 32 := by
    rw [UInt32.toNat_add, show ('a'.val - 'A'.val).toNat = 32 from rfl]
    change (c.toNat + 32) % 2 ^ 32 = _
    omega
  change 97 ≤ (c.val + ('a'.val - 'A'.val)).toNat ∧ (c.val + ('a'.val - 'A'.val)).toNat ≤ 122
  omega

theorem toLower_toUpper (small : c.isUpper = false) : c.toUpper.toLower = c := by
  unfold Char.toUpper
  split
  · rename_i letter
    obtain ⟨low, high⟩ := letter
    rw [UInt32.le_iff_toNat_le] at low high
    have first : ('a'.val).toNat = 97 := rfl
    have last : ('z'.val).toNat = 122 := rfl
    have capital : (c.val + ('A'.val - 'a'.val)).toNat = c.val.toNat - 32 := by
      -- Going down by 32 is going up by 2 ^ 32 - 32.
      rw [UInt32.toNat_add, show ('A'.val - 'a'.val).toNat = 4294967264 from rfl]
      omega
    unfold Char.toLower
    rw [dif_pos]
    · apply Char.ext
      apply UInt32.toNat.inj
      dsimp only
      rw [UInt32.toNat_add, capital, show ('a'.val - 'A'.val).toNat = 32 from rfl]
      omega
    · constructor
      · rw [ge_iff_le, UInt32.le_iff_toNat_le]
        dsimp only
        rw [capital, show ('A'.val).toNat = 65 from rfl]
        omega
      · rw [UInt32.le_iff_toNat_le]
        dsimp only
        rw [capital, show ('Z'.val).toNat = 90 from rfl]
        omega
  · exact toLower_of_small small

theorem isBlank_of_isAsciiBlank (ascii : isAsciiBlank c = true) : isBlank c = true := by
  simp only [isAsciiBlank, Bool.or_eq_true, beq_iff_eq] at ascii
  rcases ascii with (((rfl | rfl) | rfl) | rfl) | rfl <;> rfl

end Letters

namespace Chars

theorem toLowerAscii_of_small {s : List Char} (small : ∀ c ∈ s, c.isUpper = false) :
    toLowerAscii s = s := by
  calc s.map Char.toLower = s.map id := List.map_congr_left fun c member => toLower_of_small (small c member)
    _ = s := List.map_id s

theorem pieces_ne_nil (cut : Char → Bool) (s : List Char) : pieces cut s ≠ [] := by
  cases s with
  | nil => simp [pieces]
  | cons c s =>
    unfold pieces
    split
    · simp
    · split <;> simp

theorem pieces_append_cons (cut : Char → Bool) (s t : List Char) (c : Char) (cuts : cut c = true) :
    pieces cut (s ++ c :: t) = pieces cut s ++ pieces cut t := by
  induction s with
  | nil => simp [pieces, cuts]
  | cons a s ih =>
    simp only [List.cons_append, pieces]
    by_cases here : cut a = true
    · simp [here, ih]
    · obtain ⟨first, rest, parts⟩ := List.exists_cons_of_ne_nil (pieces_ne_nil cut s)
      simp [here, ih, parts]

/-- A piece holds none of the characters that it was cut at. -/
theorem not_cut_of_mem_pieces {cut : Char → Bool} {s piece : List Char} (member : piece ∈ pieces cut s) :
    ∀ c ∈ piece, cut c = false := by
  induction s generalizing piece with
  | nil => simp_all [pieces]
  | cons c s ih =>
    obtain ⟨first, rest, parts⟩ := List.exists_cons_of_ne_nil (pieces_ne_nil cut s)
    rw [parts] at ih
    unfold pieces at member
    rw [parts] at member
    by_cases here : cut c = true
    · rw [if_pos here] at member
      rcases List.mem_cons.mp member with rfl | later
      · simp
      · exact ih later
    · rw [if_neg here] at member
      rcases List.mem_cons.mp member with rfl | later
      · exact List.forall_mem_cons.mpr ⟨by simpa using here, ih (List.mem_cons_self ..)⟩
      · exact ih (List.mem_cons_of_mem _ later)

theorem pieces_eq_singleton {cut : Char → Bool} {s : List Char} (solid : ∀ c ∈ s, cut c = false) :
    pieces cut s = [s] := by
  induction s with
  | nil => rfl
  | cons c s ih =>
    obtain ⟨here, later⟩ := List.forall_mem_cons.mp solid
    simp [pieces, here, ih later]

theorem words_append_cons (s t : List Char) (c : Char) (blank : isBlank c = true) :
    words (s ++ c :: t) = words s ++ words t := by
  simp [words, pieces_append_cons isBlank s t c blank]

/-- A trimmed text and the blanks that were around it. -/
theorem trim_split (s : List Char) : ∃ before after, s = before ++ trim s ++ after ∧
    (∀ c ∈ before, isBlank c = true) ∧ ∀ c ∈ after, isBlank c = true := by
  refine ⟨s.takeWhile isBlank, ((trimLeft s).reverse.takeWhile isBlank).reverse, ?_, ?_, ?_⟩
  · have right : trim s ++ ((trimLeft s).reverse.takeWhile isBlank).reverse = trimLeft s := by
      rw [trim, trimRight, ← List.reverse_append, List.takeWhile_append_dropWhile, List.reverse_reverse]
    rw [List.append_assoc, right, trimLeft, List.takeWhile_append_dropWhile]
  · intro c member
    exact List.all_eq_true.mp List.all_takeWhile c member
  · intro c member
    exact List.all_eq_true.mp List.all_takeWhile c (List.mem_reverse.mp member)

theorem trim_blank_append (before s : List Char) (blank : ∀ c ∈ before, isBlank c = true) :
    trim (before ++ s) = trim s := by
  rw [trim, trimLeft, List.dropWhile_append_of_pos blank]
  rfl

theorem trimRight_append_blank (s after : List Char) (blank : ∀ c ∈ after, isBlank c = true) :
    trimRight (s ++ after) = trimRight s := by
  have reversed : ∀ c ∈ after.reverse, isBlank c = true := fun c member =>
    blank c (List.mem_reverse.mp member)
  rw [trimRight, List.reverse_append, List.dropWhile_append_of_pos reversed, trimRight]

theorem trim_append_blank (s after : List Char) (blank : ∀ c ∈ after, isBlank c = true) :
    trim (s ++ after) = trim s := by
  induction s with
  | nil =>
    have all := trim_blank_append after [] blank
    rwa [List.append_nil] at all
  | cons c s ih =>
    by_cases here : isBlank c = true
    · have front : ∀ t, trim (c :: t) = trim t := fun t => trim_blank_append [c] t (by simpa using here)
      rw [List.cons_append, front, front, ih]
    · have kept : ∀ t, trimLeft (c :: t) = c :: t := fun t => List.dropWhile_cons_of_neg here
      rw [trim, trim, List.cons_append, kept, kept]
      exact trimRight_append_blank (c :: s) after blank

theorem trim_trim (s : List Char) : trim (trim s) = trim s := by
  obtain ⟨before, after, split, front, back⟩ := trim_split s
  have whole : trim (before ++ trim s ++ after) = trim s := congrArg trim split.symm
  rwa [trim_append_blank _ after back, trim_blank_append before _ front] at whole

theorem trim_length_le (s : List Char) : (trim s).length ≤ s.length := by
  obtain ⟨before, after, split, -, -⟩ := trim_split s
  have lengths := congrArg List.length split
  simp only [List.length_append] at lengths
  omega

/-- A text that is trimmed already starts with no blank. -/
theorem isBlank_of_trim_eq {c : Char} {s : List Char} (trimmed : trim (c :: s) = c :: s) :
    isBlank c = false := by
  cases blank : isBlank c with
  | false => rfl
  | true =>
    have front := trim_blank_append [c] s (by simpa using blank)
    rw [List.singleton_append, trimmed] at front
    have shorter := trim_length_le s
    rw [← front, List.length_cons] at shorter
    omega

/-- A text that is trimmed already ends in no blank. -/
theorem isBlank_of_trim_eq_last {c : Char} {s : List Char} (trimmed : trim (s ++ [c]) = s ++ [c]) :
    isBlank c = false := by
  cases blank : isBlank c with
  | false => rfl
  | true =>
    have back := trim_append_blank s [c] (by simpa using blank)
    rw [trimmed] at back
    have shorter := trim_length_le s
    rw [← back, List.length_append, List.length_singleton] at shorter
    omega

/-- A trimmed text stays trimmed behind which something is put that does not end in a blank. -/
theorem trim_append_of_trim_eq {s : List Char} (nonempty : s ≠ []) (trimmed : trim s = s)
    (front : List Char) {last : Char} (solid : isBlank last = false) :
    trim (s ++ (front ++ [last])) = s ++ (front ++ [last]) := by
  obtain ⟨c, rest, rfl⟩ := List.exists_cons_of_ne_nil nonempty
  have first : ¬isBlank c = true := by simp [isBlank_of_trim_eq trimmed]
  have left : trimLeft (c :: rest ++ (front ++ [last])) = c :: rest ++ (front ++ [last]) :=
    List.dropWhile_cons_of_neg first
  rw [trim, left, trimRight, ← List.append_assoc, List.reverse_append]
  simp [solid]

theorem after?_append (front rest : List Char) : after? front (front ++ rest) = some rest := by
  induction front with
  | nil => rfl
  | cons p front ih => simpa [after?] using ih

theorem after?_eq_none_iff {part s : List Char} : after? part s = none ↔ ¬part <+: s := by
  constructor
  · rintro missing ⟨rest, rfl⟩
    rw [after?_append] at missing
    cases missing
  · intro apart
    cases found : after? part s with
    | none => rfl
    | some rest => exact absurd ⟨rest, (eq_of_after? found).symm⟩ apart

theorem isSome_after?_iff {front s : List Char} : (after? front s).isSome = true ↔ front <+: s := by
  rw [← Option.ne_none_iff_isSome, ne_eq, after?_eq_none_iff, Decidable.not_not]

theorem after?_append_right (front s after : List Char) (apart : ∀ c ∈ after, c ∉ front) :
    after? front (s ++ after) = (after? front s).map (· ++ after) := by
  induction front generalizing s with
  | nil => rfl
  | cons p front ih =>
    have later : ∀ c ∈ after, c ∉ front := fun c member inside =>
      apart c member (List.mem_cons_of_mem p inside)
    cases s with
    | nil =>
      cases after with
      | nil => rfl
      | cons c after =>
        have other : p ≠ c := fun same => apart c (List.mem_cons_self ..) (same ▸ List.mem_cons_self ..)
        simp [after?, other]
    | cons c s =>
      by_cases same : p = c
      · simpa [after?, same] using ih s later
      · simp [after?, same]

/-- What starts unlike the separator does not change where it is found, only what stands before it. -/
theorem splitOnce?_append_left (p : Char) (sep before s : List Char) (absent : p ∉ before) :
    splitOnce? (p :: sep) (before ++ s) =
      (splitOnce? (p :: sep) s).map fun parts => (before ++ parts.1, parts.2) := by
  induction before with
  | nil => simp
  | cons c before ih =>
    simp only [List.mem_cons, not_or] at absent
    simp [splitOnce?, after?, absent.1, ih absent.2, Function.comp_def]

/-- A separator is found where it was put, if its first character does not occur before. -/
theorem splitOnce?_append (p : Char) (sep before rest : List Char) (absent : p ∉ before) :
    splitOnce? (p :: sep) (before ++ p :: (sep ++ rest)) = some (before, rest) := by
  have found := after?_append (p :: sep) rest
  rw [List.cons_append] at found
  rw [splitOnce?_append_left p sep before _ absent]
  simp [splitOnce?, found]

theorem splitOnce?_singleton (p : Char) (before rest : List Char) (absent : p ∉ before) :
    splitOnce? [p] (before ++ p :: rest) = some (before, rest) :=
  splitOnce?_append p [] before rest absent

theorem splitOnce?_append_right (p : Char) (sep s after : List Char) (apart : ∀ c ∈ after, c ∉ p :: sep) :
    splitOnce? (p :: sep) (s ++ after) =
      (splitOnce? (p :: sep) s).map fun parts => (parts.1, parts.2 ++ after) := by
  induction s with
  | nil =>
    have absent : p ∉ after := fun member => apart p member (List.mem_cons_self ..)
    have none := splitOnce?_append_left p sep after [] absent
    simpa [splitOnce?, after?] using none
  | cons c s ih =>
    have front := after?_append_right (p :: sep) (c :: s) after apart
    rw [List.cons_append] at front ⊢
    unfold splitOnce?
    rw [front]
    cases after? (p :: sep) (c :: s) with
    | some rest => rfl
    | none => simp [ih, Function.comp_def]

/-- Each occurrence of a part, which starts with `p`, replaced from left to right. -/
def replace (p : Char) (part new : List Char) (s : List Char) : List Char :=
  match s with
  | [] => []
  | c :: s =>
    match _found : after? (p :: part) (c :: s) with
    | some rest => new ++ replace p part new rest
    | none => c :: replace p part new s
termination_by s.length
decreasing_by
  · have whole := congrArg List.length (eq_of_after? _found)
    simp only [List.length_append, List.length_cons] at whole ⊢
    omega
  · simp

section Replace

variable {p c : Char} {part new s rest : List Char}

theorem replace_of_after? (found : after? (p :: part) (c :: s) = some rest) :
    replace p part new (c :: s) = new ++ replace p part new rest := by
  rw [replace]
  split
  · rename_i rest' found'
    cases found.symm.trans found'
    rfl
  · rename_i missing
    cases found.symm.trans missing

theorem replace_of_after?_eq_none (missing : after? (p :: part) (c :: s) = none) :
    replace p part new (c :: s) = c :: replace p part new s := by
  rw [replace]
  split
  · rename_i rest' found
    cases missing.symm.trans found
  · rfl

theorem replace_of_ne (other : c ≠ p) : replace p part new (c :: s) = c :: replace p part new s :=
  replace_of_after?_eq_none (by simp [after?, other.symm])

/-- A part of one character. -/
theorem replace_singleton (p : Char) (new s : List Char) :
    replace p [] new s = s.flatMap fun c => if c = p then new else [c] := by
  induction s with
  | nil => rw [replace]; rfl
  | cons c s ih =>
    rw [List.flatMap_cons, ← ih]
    by_cases same : c = p
    · have found : after? [p] (c :: s) = some s := by simp [after?, same]
      rw [if_pos same, replace_of_after? found]
    · rw [if_neg same, replace_of_ne same]
      rfl

end Replace

end Chars

theorem trim_trim (s : String) : trim (trim s) = trim s := by
  rw [trim, trim, String.toList_ofList, Chars.trim_trim]

@[simp] theorem words_empty : words "" = [] := rfl

/-- A text has no words if it is blank. -/
theorem words_eq_nil_iff (s : String) : words s = [] ↔ allBlank s = true := by
  have chars : ∀ cs : List Char, Chars.words cs = [] ↔ cs.all isBlank = true := by
    intro cs
    induction cs with
    | nil => simp [Chars.words, Chars.pieces]
    | cons c rest ih =>
      unfold Chars.words Chars.pieces
      by_cases blank : isBlank c = true
      · simpa [blank, Chars.words] using ih
      · obtain ⟨first, others, pieces⟩ :=
          List.exists_cons_of_ne_nil (Chars.pieces_ne_nil isBlank rest)
        simp [blank, pieces]
  simp [words, allBlank, chars]

theorem words_append_space (s t : String) : words (s ++ " " ++ t) = words s ++ words t := by
  have blank := Chars.words_append_cons s.toList t.toList ' ' rfl
  simp [words, blank]

/-- A text that is one word: there is something in it, and no blank. -/
def IsWord (s : String) : Prop := s ≠ "" ∧ ∀ c ∈ s.toList, isBlank c = false

theorem IsWord.words {s : String} (word : IsWord s) : Text.words s = [s] := by
  have filled : s.toList.isEmpty = false := by simpa using word.1
  simp [Text.words, Chars.words, Chars.pieces_eq_singleton word.2, filled]

theorem isWord_of_mem_words {s word : String} (member : word ∈ words s) : IsWord word := by
  obtain ⟨piece, inside, rfl⟩ := List.mem_map.mp member
  obtain ⟨cut, filled⟩ := List.mem_filter.mp inside
  refine ⟨by simpa using filled, ?_⟩
  rw [String.toList_ofList]
  exact Chars.not_cut_of_mem_pieces cut

theorem words_joinOnto {front : String} {parts : List String} (all : ∀ s ∈ parts, IsWord s) :
    words (joinOnto " " front parts) = words front ++ parts := by
  induction parts generalizing front with
  | nil => simp [joinOnto]
  | cons s parts ih =>
    obtain ⟨here, later⟩ := List.forall_mem_cons.mp all
    rw [joinOnto, ih later, words_append_space, here.words, List.append_assoc, List.singleton_append]

/-- Words that are joined can be told apart again. -/
theorem words_join {parts : List String} (all : ∀ s ∈ parts, IsWord s) : words (join " " parts) = parts := by
  cases parts with
  | nil => rfl
  | cons s parts =>
    obtain ⟨here, later⟩ := List.forall_mem_cons.mp all
    rw [join, words_joinOnto later, here.words, List.singleton_append]

theorem toList_joinOnto (sep front : String) (rest : List String) :
    (joinOnto sep front rest).toList = front.toList ++ rest.flatMap fun s => sep.toList ++ s.toList := by
  induction rest generalizing front with
  | nil => simp [joinOnto]
  | cons s rest ih => simp [joinOnto, ih]

theorem toList_concat (parts : List String) : (concat parts).toList = parts.flatMap String.toList := by
  cases parts with
  | nil => rfl
  | cons s rest => simp [concat, join, toList_joinOnto]

theorem concat_cons (s : String) (parts : List String) : concat (s :: parts) = s ++ concat parts := by
  apply String.toList_injective
  simp [toList_concat]

@[simp] theorem concat_nil : concat [] = "" := rfl

@[simp] theorem concat_singleton (s : String) : concat [s] = s := by simp [concat_cons]

theorem concat_append (parts others : List String) :
    concat (parts ++ others) = concat parts ++ concat others := by
  apply String.toList_injective
  simp [toList_concat]

theorem isEmpty_join (parts : List String) :
    (join " " (parts.filter (!·.isEmpty))).isEmpty = parts.all (·.isEmpty) := by
  induction parts with
  | nil => rfl
  | cons s rest ih =>
    cases empty : s.isEmpty with
    | true => simpa [empty] using ih
    | false =>
      have nonempty : s ≠ "" := by
        rintro rfl
        cases empty
      cases others : rest.filter (!·.isEmpty) <;> simp [empty, others, nonempty]

theorem allBlank_join (parts : List String) :
    allBlank (join " " (parts.filter (!·.isEmpty))) = parts.all allBlank := by
  induction parts with
  | nil => rfl
  | cons s rest ih =>
    cases empty : s.isEmpty with
    | true =>
      obtain rfl : s = "" := by simpa using empty
      simpa [allBlank] using ih
    | false =>
      have space : isBlank ' ' = true := by decide
      cases others : rest.filter (!·.isEmpty) with
      | nil =>
        rw [others] at ih
        simp [empty, others, ← ih, allBlank]
      | cons t more =>
        rw [others] at ih
        simp [empty, others, ← ih, allBlank, space]

/-- Texts of one length in front of others can be told apart. -/
theorem append_inj {a b c d : String} (same : a ++ b = c ++ d) (long : a.length = c.length) :
    a = c ∧ b = d := by
  have lists : a.toList ++ b.toList = c.toList ++ d.toList := by
    rw [← String.toList_append, ← String.toList_append, same]
  have lengths : a.toList.length = c.toList.length := by rw [String.length_toList, String.length_toList, long]
  obtain ⟨first, rest⟩ := List.append_inj lists lengths
  exact ⟨String.toList_inj.mp first, String.toList_inj.mp rest⟩

end Stencil.Text
