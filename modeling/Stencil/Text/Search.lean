/-! Finding a text inside another: what follows a given front, the split at the first occurrence, and
ASCII case. -/
namespace Stencil.Text

namespace Chars

/-- What follows `front` in `s`, when `s` starts with it. -/
def after? : List Char → List Char → Option (List Char)
  | [], s => some s
  | _ :: _, [] => none
  | p :: front, c :: s => if p = c then after? front s else none

/-- The text before and after the first occurrence of `sep`. -/
def splitOnce? (sep : List Char) : List Char → Option (List Char × List Char)
  | [] => (after? sep []).map ([], ·)
  | c :: s =>
    match after? sep (c :: s) with
    | some rest => some ([], rest)
    | none => (splitOnce? sep s).map fun (before, rest) => (c :: before, rest)

theorem eq_of_after? {front s rest : List Char} (h : after? front s = some rest) :
    s = front ++ rest := by
  induction front generalizing s with
  | nil => simpa [after?] using h
  | cons p front ih =>
    cases s with
    | nil => simp [after?] at h
    | cons c s =>
      unfold after? at h
      split at h
      · rename_i hp; rw [hp, ih h]; rfl
      · simp at h

theorem eq_of_splitOnce? {sep s before rest : List Char}
    (h : splitOnce? sep s = some (before, rest)) : s = before ++ sep ++ rest := by
  induction s generalizing before rest with
  | nil =>
    unfold splitOnce? at h
    cases ha : after? sep [] with
    | none => simp [ha] at h
    | some r => simp [ha] at h; obtain ⟨rfl, rfl⟩ := h; exact eq_of_after? ha
  | cons c s ih =>
    unfold splitOnce? at h
    split at h
    · rename_i r ha; simp at h; obtain ⟨rfl, rfl⟩ := h; exact eq_of_after? ha
    · cases hr : splitOnce? sep s with
      | none => simp [hr] at h
      | some p =>
        obtain ⟨b, r⟩ := p
        simp [hr] at h
        have hs := ih hr
        rw [← h.1, ← h.2, hs]; simp

theorem splitOnce?_length {sep s before rest : List Char}
    (h : splitOnce? sep s = some (before, rest)) :
    s.length = before.length + sep.length + rest.length := by
  have hs := congrArg List.length (eq_of_splitOnce? h)
  simp at hs; omega

theorem splitOnce?_length_le {sep s before rest : List Char}
    (h : splitOnce? sep s = some (before, rest)) : rest.length ≤ s.length := by
  have hs := splitOnce?_length h
  omega

def toLowerAscii (s : List Char) : List Char := s.map Char.toLower

end Chars

def splitOnce? (sep s : String) : Option (String × String) :=
  (Chars.splitOnce? sep.toList s.toList).map fun (a, b) => (String.ofList a, String.ofList b)

def contains (s part : String) : Bool := (Chars.splitOnce? part.toList s.toList).isSome

/-- ASCII capitals become small; every other character stays. -/
def toLowerAscii (s : String) : String := String.ofList (s.toList.map Char.toLower)

/-- ASCII small letters become capitals; every other character stays. -/
def toUpperAscii (s : String) : String := String.ofList (s.toList.map Char.toUpper)

/-- Equality up to the case of ASCII letters. -/
def sameIgnoringAsciiCase (s t : String) : Bool := toLowerAscii s == toLowerAscii t

/-- Each character replaced by the text that `f` gives for it. -/
def mapChars (f : Char → String) (s : String) : String :=
  String.ofList (s.toList.flatMap fun c => (f c).toList)

end Stencil.Text
