import Mathlib.Data.List.Infix
import Stencil.Proofs.Lists
import Stencil.Proofs.Outcomes
import Stencil.Proofs.ParsedElements
import Stencil.Proofs.Words

/-! Markup that is printed and read again. A canonical forest holds nothing that its own printed form
would hide: texts that stand apart and hold no angle, comments that do not end early, raw text without
its closing tag. The print of such a forest scans to the events of its nodes, one after the other, and
these build the forest again. -/
namespace Stencil.Markup

open Text

/-- Characters of tags as they are printed. -/
def isTagLetter (c : Char) : Bool := c.isLower || c.isDigit || c == '_' || c == '-' || c == ':'

/-- Decided by the characters of the text, not by all that there are. -/
instance decidableForallMemChars (s : List Char) (p : Char → Prop) [DecidablePred p] :
    Decidable (∀ c ∈ s, p c) :=
  List.decidableBAll p s

/-- An attribute that is printed without a reference and read under the same name. -/
structure Attr.Canonical (a : Attr) : Prop where
  nonempty : a.name ≠ ""
  name : ∀ c ∈ a.name.toList, c.isUpper = false ∧ Event.endsName c = false
  value : ∀ c ∈ a.value.toList, c ≠ '"' ∧ c ≠ '&'

instance (a : Attr) : Decidable a.Canonical :=
  decidable_of_iff (a.name ≠ "" ∧ (∀ c ∈ a.name.toList, c.isUpper = false ∧ Event.endsName c = false) ∧
      ∀ c ∈ a.value.toList, c ≠ '"' ∧ c ≠ '&')
    ⟨fun ⟨nonempty, name, value⟩ => ⟨nonempty, name, value⟩,
      fun ⟨nonempty, name, value⟩ => ⟨nonempty, name, value⟩⟩

structure Element.Canonical (e : Element) : Prop where
  nonempty : e.tag ≠ ""
  tag : ∀ c ∈ e.tag.toList, isTagLetter c = true
  attrs : ∀ a ∈ e.attrs, a.Canonical
  distinct : (e.attrs.map (·.name)).Nodup
  void : isVoid e.tag = true → e.selfClosing = true
  pristine : e.pristine = []

instance (e : Element) : Decidable e.Canonical :=
  decidable_of_iff (e.tag ≠ "" ∧ (∀ c ∈ e.tag.toList, isTagLetter c = true) ∧ (∀ a ∈ e.attrs, a.Canonical) ∧
      (e.attrs.map (·.name)).Nodup ∧ (isVoid e.tag = true → e.selfClosing = true) ∧ e.pristine = [])
    ⟨fun ⟨nonempty, tag, attrs, distinct, void, pristine⟩ => ⟨nonempty, tag, attrs, distinct, void, pristine⟩,
      fun ⟨nonempty, tag, attrs, distinct, void, pristine⟩ => ⟨nonempty, tag, attrs, distinct, void, pristine⟩⟩

/-- An attribute that is read under the name it is printed with, whatever its value. -/
structure Attr.Named (a : Attr) : Prop where
  nonempty : a.name ≠ ""
  name : ∀ c ∈ a.name.toList, c.isUpper = false ∧ Event.endsName c = false

/-- An element that is read with the tag and the names of attributes it is printed with. -/
structure Element.Named (e : Element) : Prop where
  nonempty : e.tag ≠ ""
  tag : ∀ c ∈ e.tag.toList, isTagLetter c = true
  attrs : ∀ a ∈ e.attrs, a.Named
  distinct : (e.attrs.map (·.name)).Nodup

/-- The attribute that is read once this one is printed: references stay as they are written. -/
def Attr.printed (a : Attr) : Attr := ⟨a.name, mapChars escape a.value⟩

def Element.printed (e : Element) : Element :=
  { tag := e.tag, attrs := e.attrs.map Attr.printed, selfClosing := e.selfClosing }

namespace Attr

theorem Canonical.named {a : Attr} (canonical : a.Canonical) : a.Named :=
  ⟨canonical.nonempty, canonical.name⟩

theorem Canonical.printed {a : Attr} (canonical : a.Canonical) : a.printed = a := by
  have plain : a.value.toList.flatMap (fun c => (escape c).toList) = a.value.toList := by
    calc a.value.toList.flatMap (fun c => (escape c).toList)
        = a.value.toList.flatMap fun c => [c] := by
          apply List.flatMap_congr
          intro c member
          simp [escape, canonical.value c member]
      _ = a.value.toList := by simp
  rw [Attr.printed, mapChars, plain, String.ofList_toList]

theorem quote_not_mem_printed (a : Attr) : '"' ∉ a.printed.value.toList := by
  intro member
  obtain ⟨c, -, found⟩ : ∃ c ∈ a.value.toList, '"' ∈ (escape c).toList := by
    simpa [Attr.printed, mapChars] using member
  unfold escape at found
  split at found
  · simp at found
  · split at found
    · simp at found
    · rename_i other
      exact other (by simpa [eq_comm] using found)

theorem toList_render (a : Attr) :
    a.render.toList = ' ' :: (a.name.toList ++ '=' :: '"' :: (a.printed.value.toList ++ ['"'])) := by
  simp [render, Attr.printed]

end Attr

namespace Element

theorem Canonical.named {e : Element} (canonical : e.Canonical) : e.Named :=
  ⟨canonical.nonempty, canonical.tag, fun a member => (canonical.attrs a member).named, canonical.distinct⟩

theorem Canonical.printed {e : Element} (canonical : e.Canonical) : e.printed = e := by
  have same : e.attrs.map Attr.printed = e.attrs := by
    calc e.attrs.map Attr.printed = e.attrs.map id :=
          List.map_congr_left fun a member => (canonical.attrs a member).printed
      _ = e.attrs := List.map_id _
  rw [Element.printed, same]
  cases e
  simpa using canonical.pristine.symm

end Element

namespace Node

def isText : Node → Bool
  | .text _ => true
  | _ => false

/-- No text stands next to another one. -/
def Apart (nodes : List Node) : Prop := nodes.IsChain fun n m => ¬(n.isText = true ∧ m.isText = true)

instance (nodes : List Node) : Decidable (Apart nodes) :=
  inferInstanceAs (Decidable (nodes.IsChain fun n m => ¬(n.isText = true ∧ m.isText = true)))

/-- What stands inside an element of raw text: nothing, or a text that does not close the element. -/
def RawContents (tag : String) : List Node → Prop
  | [] => True
  | [.text t] => t ≠ "" ∧ ¬ '<' :: '/' :: tag.toList <:+: Chars.toLowerAscii t.toList
  | _ => False

instance (tag : String) : (children : List Node) → Decidable (RawContents tag children)
  | [] => .isTrue trivial
  | [.text t] =>
    inferInstanceAs (Decidable (t ≠ "" ∧ ¬ '<' :: '/' :: tag.toList <:+: Chars.toLowerAscii t.toList))
  | [.element _ _] | [.comment _] => .isFalse id
  | _ :: _ :: _ => .isFalse (by simp [RawContents])

mutual

def Canonical : Node → Prop
  | .text t => t ≠ "" ∧ '<' ∉ t.toList ∧ (allBlank t = true → t = " ")
  | .comment c => ¬['-', '-', '>'] <:+: c.toList
  | .element e children =>
    e.Canonical ∧ (e.selfClosing = true → children = []) ∧
      (e.selfClosing = false →
        if Event.isRawText e.tag then RawContents e.tag children else Apart children ∧ CanonicalAll children)

def CanonicalAll : List Node → Prop
  | [] => True
  | n :: rest => n.Canonical ∧ CanonicalAll rest

end

mutual

def decideCanonical : (n : Node) → Decidable n.Canonical
  | .text t => inferInstanceAs (Decidable (t ≠ "" ∧ '<' ∉ t.toList ∧ (allBlank t = true → t = " ")))
  | .comment c => inferInstanceAs (Decidable (¬['-', '-', '>'] <:+: c.toList))
  | .element e children =>
    have := decideCanonicalAll children
    inferInstanceAs (Decidable (e.Canonical ∧ (e.selfClosing = true → children = []) ∧
      (e.selfClosing = false →
        if Event.isRawText e.tag then RawContents e.tag children else Apart children ∧ CanonicalAll children)))

def decideCanonicalAll : (nodes : List Node) → Decidable (CanonicalAll nodes)
  | [] => .isTrue trivial
  | n :: rest =>
    have := decideCanonical n
    have := decideCanonicalAll rest
    inferInstanceAs (Decidable (n.Canonical ∧ CanonicalAll rest))

end

instance (nodes : List Node) : Decidable (CanonicalAll nodes) := decideCanonicalAll nodes

/-- Trees that print to what reads as these trees. -/
def CanonicalForest (roots : List Node) : Prop :=
  CanonicalAll roots ∧ Apart roots ∧ ∀ n ∈ roots, n.isBlank = false

instance (roots : List Node) : Decidable (CanonicalForest roots) :=
  inferInstanceAs (Decidable (CanonicalAll roots ∧ Apart roots ∧ ∀ n ∈ roots, n.isBlank = false))

end Node

namespace Event

theorem isTagChar_of_letter {c : Char} (letter : isTagLetter c = true) :
    isTagChar c = true ∧ c.isUpper = false := by
  simp only [isTagLetter, Bool.or_eq_true, beq_iff_eq] at letter
  rcases letter with (((lower | digit) | rfl) | rfl) | rfl
  · refine ⟨by simp [isTagChar, isAlphanum_iff, isAlpha_iff, lower], ?_⟩
    rw [isLower_iff] at lower
    rw [Bool.eq_false_iff, ne_eq, isUpper_iff]
    omega
  · refine ⟨by simp [isTagChar, isAlphanum_iff, digit], ?_⟩
    rw [isDigit_iff] at digit
    rw [Bool.eq_false_iff, ne_eq, isUpper_iff]
    omega
  all_goals decide

/-- A printed tag is read up to the first character that is not part of it. -/
theorem tagName_append {tag : String} {rest : List Char} (letters : ∀ c ∈ tag.toList, isTagLetter c = true)
    (ends : ∀ c ∈ rest.head?, isTagChar c = false) : tagName (tag.toList ++ rest) = (tag, rest) := by
  have chars : ∀ c ∈ tag.toList, isTagChar c = true := fun c member =>
    (isTagChar_of_letter (letters c member)).1
  have small := Chars.toLowerAscii_of_small fun c member => (isTagChar_of_letter (letters c member)).2
  have stopped : rest.takeWhile isTagChar = [] ∧ rest.dropWhile isTagChar = rest := by
    cases rest with
    | nil => exact ⟨rfl, rfl⟩
    | cons c rest => simp [ends c rfl]
  rw [tagName, List.takeWhile_append_of_pos chars, List.dropWhile_append_of_pos chars, stopped.1,
    stopped.2, List.append_nil, small, String.ofList_toList]

theorem skipBlanks_of_head {c : Char} {s : List Char} (solid : isAsciiBlank c = false) :
    skipBlanks (c :: s) = c :: s := by
  simp [skipBlanks, solid]

theorem not_blank_of_goes_on {c : Char} (inside : endsName c = false) : isAsciiBlank c = false := by
  simp only [endsName, Bool.or_eq_false_iff] at inside
  exact inside.1.1.1.1.1

/-- A quoted value, whatever follows it. -/
theorem attrValue_quoted {value : List Char} (rest : List Char) (plain : ∀ c ∈ value, c ≠ '"') :
    attrValue ('=' :: '"' :: (value ++ '"' :: rest)) = .ok (String.ofList value, rest) := by
  have inside : ∀ c ∈ value, (c != '"') = true := fun c member => by simpa using plain c member
  have start : skipBlanks ('=' :: '"' :: (value ++ '"' :: rest)) = '=' :: '"' :: (value ++ '"' :: rest) :=
    skipBlanks_of_head rfl
  have quote : skipBlanks ('"' :: (value ++ '"' :: rest)) = '"' :: (value ++ '"' :: rest) :=
    skipBlanks_of_head rfl
  simp [attrValue, start, quote, List.takeWhile_append_of_pos inside,
    List.dropWhile_append_of_pos inside]

/-- An attribute at the front of what is left of an opening tag. -/
theorem openTag_of_name {e : Element} {s r rest : List Char} {c : Char} {value : String}
    (front : skipBlanks s = c :: r) (goesOn : endsName c = false)
    (read : attrValue (r.dropWhile (!endsName ·)) = .ok (value, rest))
    (fresh : e.get? (String.ofList (Chars.toLowerAscii (c :: r.takeWhile (!endsName ·)))) = none) :
    openTag e s =
      openTag (e.put (String.ofList (Chars.toLowerAscii (c :: r.takeWhile (!endsName ·)))) value) rest := by
  rw [openTag]
  split
  · rename_i front'
    cases front.symm.trans front'
  · rename_i front'
    cases front.symm.trans front'
    cases goesOn
  · rename_i front'
    cases front.symm.trans front'
    cases goesOn
  · rename_i c' r' _ _ front'
    obtain ⟨rfl, rfl⟩ : c = c' ∧ r = r' := by simpa using front.symm.trans front'
    rw [if_neg (by simp [goesOn])]
    split
    · rename_i read'
      cases read.symm.trans read'
    · rename_i value' rest' read'
      obtain ⟨rfl, rfl⟩ : value = value' ∧ rest = rest' := by simpa using read.symm.trans read'
      simp [fresh]

/-- One attribute as it is printed, under a name that the element does not have yet. -/
theorem openTag_attr {e : Element} {a : Attr} (named : a.Named) (fresh : e.get? a.name = none)
    (rest : List Char) :
    openTag e (a.render.toList ++ rest) = openTag (e.put a.name a.printed.value) rest := by
  obtain ⟨c, name, front⟩ : ∃ c name, a.name.toList = c :: name :=
    List.exists_cons_of_ne_nil (by simpa using named.nonempty)
  have start := (named.name c (by simp [front])).2
  have goesOn : ∀ d ∈ name, (!endsName d) = true := fun d member => by
    simp [(named.name d (by simp [front, member])).2]
  have small : Chars.toLowerAscii (c :: name) = c :: name :=
    Chars.toLowerAscii_of_small fun d member => (named.name d (front ▸ member)).1
  have whole : String.ofList (c :: name) = a.name := by rw [← front, String.ofList_toList]
  have blanks : skipBlanks (a.render.toList ++ rest) =
      c :: (name ++ '=' :: '"' :: (a.printed.value.toList ++ '"' :: rest)) := by
    have solid := skipBlanks_of_head (s := name ++ '=' :: '"' :: (a.printed.value.toList ++ '"' :: rest))
      (not_blank_of_goes_on start)
    rw [a.toList_render, front]
    simpa [skipBlanks, isAsciiBlank] using solid
  have taken : (name ++ '=' :: '"' :: (a.printed.value.toList ++ '"' :: rest)).takeWhile (!endsName ·) =
      name := by
    rw [List.takeWhile_append_of_pos goesOn]
    simp [endsName]
  have read :
      attrValue ((name ++ '=' :: '"' :: (a.printed.value.toList ++ '"' :: rest)).dropWhile (!endsName ·)) =
        .ok (a.printed.value, rest) := by
    rw [List.dropWhile_append_of_pos goesOn]
    have quoted := attrValue_quoted rest fun d member same => a.quote_not_mem_printed (same ▸ member)
    rw [String.ofList_toList] at quoted
    simpa [endsName] using quoted
  have step := openTag_of_name (e := e) blanks start read
  rw [taken, small, whole] at step
  exact step fresh

theorem openTag_attrs {tag : String} {done todo : List Attr} (named : ∀ a ∈ todo, a.Named)
    (distinct : ((done ++ todo).map (·.name)).Nodup) (rest : List Char) :
    openTag { tag, attrs := done } (todo.flatMap (·.render.toList) ++ rest) =
      openTag { tag, attrs := done ++ todo.map Attr.printed } rest := by
  induction todo generalizing done with
  | nil => simp
  | cons a todo ih =>
    have fresh : ({ tag, attrs := done } : Element).get? a.name = none := by
      apply Attr.find?_eq_none_iff.mpr
      intro member
      rw [List.map_append, List.nodup_append] at distinct
      exact distinct.2.2 _ member _ (by simp) rfl
    have grown : Attr.put done a.name a.printed.value = done ++ [a.printed] :=
      Attr.put_of_find?_eq_none a.printed.value fresh
    have later := @ih (done ++ [a.printed]) (fun b member => named b (List.mem_cons_of_mem a member))
      (by simpa [Attr.printed] using distinct)
    rw [List.flatMap_cons, List.append_assoc, openTag_attr (named a (List.mem_cons_self ..)) fresh,
      Element.put, grown]
    simpa using later

/-- How an opening tag ends. -/
def tagEnd (e : Element) : List Char := if e.selfClosing then ['/', '>'] else ['>']

theorem openTag_tagEnd (e : Element) (unclosed : e.selfClosing = false) (closing : Bool) (rest : List Char) :
    openTag e (tagEnd { e with selfClosing := closing } ++ rest) =
      .ok ({ e with selfClosing := closing }, rest) := by
  cases closing with
  | true =>
    have slash : skipBlanks ('/' :: '>' :: rest) = '/' :: '>' :: rest := skipBlanks_of_head rfl
    have angle : skipBlanks ('>' :: rest) = '>' :: rest := skipBlanks_of_head rfl
    change openTag e ('/' :: '>' :: rest) = _
    rw [openTag]
    split <;> rename_i front <;> cases slash.symm.trans front
    · rw [angle, skipEnd]
    · contradiction
  | false =>
    have angle : skipBlanks ('>' :: rest) = '>' :: rest := skipBlanks_of_head rfl
    change openTag e ('>' :: rest) = _
    rw [openTag]
    split <;> rename_i front <;> cases angle.symm.trans front
    · rw [← unclosed]
    · contradiction

variable {e : Element}

theorem isTagChar_tagEnd {c : Char} {rest : List Char}
    (first : c ∈ (e.attrs.flatMap (·.render.toList) ++ (tagEnd e ++ rest)).head?) : isTagChar c = false := by
  cases attrs : e.attrs with
  | nil =>
    rw [attrs] at first
    cases closing : e.selfClosing <;> simp [tagEnd, closing] at first <;> subst first <;> rfl
  | cons a others =>
    rw [attrs] at first
    simp [Attr.render] at first
    subst first
    rfl

/-- An opening tag is read to its element, with the raw text that follows if there is any. -/
theorem ofAngle_named (named : e.Named) (rest : List Char) :
    ofAngle (e.tag.toList ++ (e.attrs.flatMap (·.render.toList) ++ (tagEnd e ++ rest))) =
      opened e.printed rest := by
  obtain ⟨c, tail, front⟩ : ∃ c tail, e.tag.toList = c :: tail :=
    List.exists_cons_of_ne_nil (by simpa using named.nonempty)
  have letter : isTagLetter c = true := named.tag c (by simp [front])
  have cut := tagName_append named.tag fun d => @isTagChar_tagEnd e d rest
  have read : openTag { tag := e.tag } (e.attrs.flatMap (·.render.toList) ++ (tagEnd e ++ rest)) =
      .ok (e.printed, rest) := by
    have attrs := @openTag_attrs e.tag [] e.attrs named.attrs named.distinct (tagEnd e ++ rest)
    have ended := openTag_tagEnd { tag := e.tag, attrs := e.attrs.map Attr.printed } rfl e.selfClosing rest
    rw [attrs, List.nil_append]
    exact ended
  have other : ∀ d r, isTagLetter d = false →
      e.tag.toList ++ (e.attrs.flatMap (·.render.toList) ++ (tagEnd e ++ rest)) ≠ d :: r := by
    intro d r unlike same
    rw [front, List.cons_append] at same
    rw [← (List.cons.inj same).1, letter] at unlike
    cases unlike
  unfold ofAngle
  split
  · exact absurd (by assumption) (other _ _ rfl)
  · exact absurd (by assumption) (other _ _ rfl)
  · exact absurd (by assumption) (other _ _ rfl)
  · rw [cut]
    simp [named.nonempty, read]

/-- A canonical one is read to the element itself. -/
theorem ofAngle_opening (canonical : e.Canonical) (rest : List Char) :
    ofAngle (e.tag.toList ++ (e.attrs.flatMap (·.render.toList) ++ (tagEnd e ++ rest))) = opened e rest := by
  rw [ofAngle_named canonical.named, canonical.printed]

/-- A comment ends where it was made to end. -/
theorem splitOnce?_comment {body : List Char} (rest : List Char) (unclosed : ¬['-', '-', '>'] <:+: body) :
    Chars.splitOnce? ['-', '-', '>'] (body ++ ['-', '-', '>'] ++ rest) = some (body, rest) := by
  induction body with
  | nil => rfl
  | cons c body ih =>
    have later : ¬['-', '-', '>'] <:+: body := fun inside =>
      unclosed (inside.trans (List.suffix_cons c body).isInfix)
    have apart : Chars.after? ['-', '-', '>'] (c :: (body ++ ['-', '-', '>'] ++ rest)) = none := by
      rw [Chars.after?_eq_none_iff, List.append_assoc, ← List.cons_append]
      intro starts
      obtain ⟨tail, whole, nonempty, ends⟩ := exists_of_prefix_append starts unclosed
      -- A proper end of the closing mark never starts like the mark.
      rcases body with - | ⟨x, - | ⟨y, body⟩⟩
      · obtain rfl : ['-', '>'] = tail := (List.cons.inj whole).2
        simp at ends
      · obtain rfl : ['>'] = tail := (List.cons.inj (List.cons.inj whole).2).2
        simp at ends
      · apply nonempty
        simp only [List.cons_append, List.cons.injEq, List.nil_eq, List.append_eq_nil_iff] at whole
        exact whole.2.2.2.2
    rw [List.cons_append, List.cons_append, Chars.splitOnce?, apart, ih later]
    rfl

/-- Raw text ends at its closing tag. -/
theorem rawText?_append {close body : List Char} (rest : List Char) (small : Chars.toLowerAscii close = close)
    (angle : '<' ∉ close) (unclosed : ¬ '<' :: close <:+: Chars.toLowerAscii body) :
    rawText? ('<' :: close) (body ++ '<' :: (close ++ rest)) = some (body, '<' :: (close ++ rest)) := by
  have test : ∀ c s, (Chars.after? ('<' :: close)
      (Chars.toLowerAscii ((c :: s).take ('<' :: close).length))).isSome = true ↔
        '<' :: close <+: Chars.toLowerAscii (c :: s) := by
    intro c s
    rw [Chars.isSome_after?_iff, Chars.toLowerAscii, List.map_take, List.prefix_take_iff]
    simp [Chars.toLowerAscii]
  have lower : Chars.toLowerAscii ('<' :: (close ++ rest)) = '<' :: (close ++ Chars.toLowerAscii rest) := by
    have front : close.map Char.toLower = close := small
    simp [Chars.toLowerAscii, front]
  induction body with
  | nil =>
    rw [List.nil_append, rawText?, if_pos]
    rw [test, lower]
    exact List.prefix_append ..
  | cons c body ih =>
    have later : ¬ '<' :: close <:+: Chars.toLowerAscii body := fun inside =>
      unclosed (inside.trans (List.suffix_cons c.toLower _).isInfix)
    rw [List.cons_append, rawText?, if_neg, ih later]
    · rfl
    · rw [test]
      intro starts
      have cut : Chars.toLowerAscii (c :: (body ++ '<' :: (close ++ rest))) =
          Chars.toLowerAscii (c :: body) ++ '<' :: (close ++ Chars.toLowerAscii rest) := by
        rw [← lower]
        simp [Chars.toLowerAscii]
      rw [cut] at starts
      obtain ⟨tail, whole, nonempty, ends⟩ := exists_of_prefix_append starts unclosed
      obtain ⟨d, tail, rfl⟩ := List.exists_cons_of_ne_nil nonempty
      obtain ⟨rfl, -⟩ := List.cons_prefix_cons.mp ends
      apply angle
      have tails := (List.cons.inj whole).2
      rw [tails]
      simp

theorem scan_angle {s rest : List Char} {events : List Event} (read : ofAngle s = .ok (events, rest)) :
    scan ('<' :: s) = (scan rest).map (events ++ ·) := by
  rw [scan]
  split
  · split
    · rename_i failed
      cases read.symm.trans failed
    · rename_i again
      cases read.symm.trans again
      rfl
  · contradiction

/-- Text up to the next angle is one event. -/
theorem scan_text {t : String} {rest : List Char} (canonical : (Node.text t).Canonical)
    (ends : ∀ c ∈ rest.head?, c = '<') : scan (t.toList ++ rest) = (scan rest).map ([.text t] ++ ·) := by
  obtain ⟨nonempty, plain, blank⟩ := canonical
  obtain ⟨c, text, front⟩ : ∃ c text, t.toList = c :: text :=
    List.exists_cons_of_ne_nil (by simpa using nonempty)
  have inside : ∀ d ∈ text, (d != '<') = true := by
    intro d member
    rw [bne_iff_ne]
    rintro rfl
    exact plain (by simp [front, member])
  have stopped : rest.takeWhile (· != '<') = [] ∧ rest.dropWhile (· != '<') = rest := by
    cases rest with
    | nil => exact ⟨rfl, rfl⟩
    | cons d rest => simp [ends d rfl]
  have first : ¬(c == '<') = true := fun same => plain (by simp [front, beq_iff_eq.mp same])
  have run : textRun (c :: text) = .text t := by
    rw [textRun, ← front]
    split
    · rename_i all
      rw [blank all]
    · rw [String.ofList_toList]
  rw [front, List.cons_append, scan, if_neg first, List.takeWhile_append_of_pos inside,
    List.dropWhile_append_of_pos inside, stopped.1, stopped.2, List.append_nil, run]
  rfl

theorem scan_comment {c : String} (canonical : (Node.comment c).Canonical) (rest : List Char) :
    scan ((Node.comment c).render.toList ++ rest) = (scan rest).map ([.comment c] ++ ·) := by
  have ended := splitOnce?_comment rest canonical
  have read : ofAngle ('!' :: '-' :: '-' :: (c.toList ++ ['-', '-', '>'] ++ rest)) =
      .ok ([.comment c], rest) := by
    have dashes : "-->".toList = ['-', '-', '>'] := rfl
    simp only [ofAngle, dashes, ended, String.ofList_toList]
  have scanned := scan_angle read
  simpa [Node.render] using scanned

theorem scan_closing {tag : String} (letters : ∀ c ∈ tag.toList, isTagLetter c = true) (rest : List Char) :
    scan ('<' :: '/' :: (tag.toList ++ '>' :: rest)) = (scan rest).map ([.closing tag] ++ ·) := by
  have named := @tagName_append tag ('>' :: rest) letters (by simp [isTagChar])
  apply scan_angle
  simp [ofAngle, named, skipBlanks_of_head (c := '>') (s := rest) rfl, skipEnd]

end Event

namespace Node

open Event

mutual

/-- The events that stand for a node. -/
def events : Node → List Event
  | .text t => [.text t]
  | .comment c => [.comment c]
  | .element e children =>
    if e.isLeaf then [.opening e] else .opening e :: (eventsAll children ++ [.closing e.tag])

def eventsAll : List Node → List Event
  | [] => []
  | n :: rest => n.events ++ eventsAll rest

end

theorem isLeaf_eq {e : Element} (canonical : e.Canonical) : e.isLeaf = e.selfClosing := by
  cases closing : e.selfClosing with
  | true => simp [Element.isLeaf, closing]
  | false =>
    have filled : isVoid e.tag = false := by
      by_contra void
      rw [canonical.void (by simpa using void)] at closing
      cases closing
    simp [Element.isLeaf, closing, filled]

theorem toList_render_leaf {e : Element} {children : List Node} (canonical : e.Canonical)
    (closing : e.selfClosing = true) : (Node.element e children).render.toList =
      '<' :: (e.tag.toList ++ (e.attrs.flatMap (·.render.toList) ++ tagEnd e)) := by
  have leaf := (isLeaf_eq canonical).trans closing
  simp [render, leaf, Element.openTag, toList_concat, List.flatMap_map, tagEnd, closing]

theorem toList_render_parent {e : Element} {children : List Node} (canonical : e.Canonical)
    (closing : e.selfClosing = false) : (Node.element e children).render.toList =
      '<' :: (e.tag.toList ++ (e.attrs.flatMap (·.render.toList) ++ (tagEnd e ++
        ((renderAll children).toList ++ '<' :: '/' :: (e.tag.toList ++ ['>']))))) := by
  have filled := (isLeaf_eq canonical).trans closing
  simp [render, filled, Element.openTag, toList_concat, List.flatMap_map, tagEnd, closing]

/-- All but text starts with an angle. -/
theorem head?_render {n : Node} (canonical : n.Canonical) (other : n.isText = false) :
    n.render.toList.head? = some '<' := by
  cases n with
  | text t => cases other
  | comment c => simp [render]
  | element e children =>
    cases closing : e.selfClosing with
    | true => rw [toList_render_leaf canonical.1 closing]; rfl
    | false => rw [toList_render_parent canonical.1 closing]; rfl

theorem small_tag {e : Element} (canonical : e.Canonical) :
    Chars.toLowerAscii ('/' :: e.tag.toList) = '/' :: e.tag.toList := by
  apply Chars.toLowerAscii_of_small
  intro c member
  rcases List.mem_cons.mp member with rfl | letter
  · rfl
  · exact (isTagChar_of_letter (canonical.tag c letter)).2

theorem angle_not_mem_tag {e : Element} (canonical : e.Canonical) : '<' ∉ '/' :: e.tag.toList := by
  intro member
  rcases List.mem_cons.mp member with slash | letter
  · cases slash
  · cases canonical.tag '<' letter

/-- An opening tag of raw text takes the text with it, up to the closing tag. -/
theorem rawContents_cases {tag : String} {children : List Node} (contents : RawContents tag children) :
    children = [] ∨ ∃ t, children = [.text t] ∧ t ≠ "" ∧
      ¬ '<' :: '/' :: tag.toList <:+: Chars.toLowerAscii t.toList := by
  unfold RawContents at contents
  split at contents
  · exact .inl rfl
  · exact .inr ⟨_, rfl, contents⟩
  · cases contents

theorem opened_raw {e : Element} {children : List Node} (canonical : e.Canonical)
    (closing : e.selfClosing = false) (raw : isRawText e.tag = true) (contents : RawContents e.tag children)
    (rest : List Char) :
    Event.opened e ((renderAll children).toList ++ '<' :: '/' :: (e.tag.toList ++ rest)) =
      .ok (.opening e :: eventsAll children, '<' :: '/' :: (e.tag.toList ++ rest)) := by
  have leaf := (isLeaf_eq canonical).trans closing
  have unclosed : ¬ '<' :: '/' :: e.tag.toList <:+: Chars.toLowerAscii (renderAll children).toList := by
    rcases rawContents_cases contents with rfl | ⟨t, rfl, -, apart⟩
    · simp [renderAll, Chars.toLowerAscii]
    · simpa [renderAll, render] using apart
  have read := rawText?_append rest (small_tag canonical) (angle_not_mem_tag canonical) unclosed
  rw [List.cons_append] at read
  have closing : ("</" ++ e.tag).toList = '<' :: '/' :: e.tag.toList := by simp
  simp only [Event.opened, leaf, raw, Bool.not_false, Bool.true_and, if_true, closing, read]
  rcases rawContents_cases contents with rfl | ⟨t, rfl, nonempty, -⟩
  · rfl
  · obtain ⟨c, text, front⟩ : ∃ c text, t.toList = c :: text :=
      List.exists_cons_of_ne_nil (by simpa using nonempty)
    have back : String.ofList (c :: text) = t := by rw [← front, String.ofList_toList]
    simp [renderAll, render, eventsAll, events, front, back]

mutual

/-- The print of a canonical node scans to its events. -/
theorem scan_render : (n : Node) → n.Canonical → (rest : List Char) →
    (n.isText = true → ∀ c ∈ rest.head?, c = '<') →
    scan (n.render.toList ++ rest) = (scan rest).map (n.events ++ ·)
  | .text t, canonical, rest, ends => scan_text canonical (ends rfl)
  | .comment c, canonical, rest, _ => scan_comment canonical rest
  | .element e children, ⟨canonical, childless, inside⟩, rest, _ => by
    have leaf := isLeaf_eq canonical
    cases closing : e.selfClosing with
    | true =>
      have read := ofAngle_opening canonical rest
      rw [Event.opened, leaf, closing] at read
      rw [toList_render_leaf canonical closing, events, leaf, closing]
      simpa using scan_angle read
    | false =>
      have closed := scan_closing canonical.tag rest
      rw [toList_render_parent canonical closing, events, leaf, closing]
      have contents := inside closing
      split at contents
      · rename_i raw
        have read := ofAngle_opening canonical
          ((renderAll children).toList ++ '<' :: '/' :: (e.tag.toList ++ '>' :: rest))
        rw [opened_raw canonical closing raw contents] at read
        have scanned := scan_angle read
        rw [closed, map_append_map] at scanned
        simpa using scanned
      · rename_i plain
        obtain ⟨apart, all⟩ := contents
        have read := ofAngle_opening canonical
          ((renderAll children).toList ++ '<' :: '/' :: (e.tag.toList ++ '>' :: rest))
        have below := scan_renderAll children all apart ('<' :: '/' :: (e.tag.toList ++ '>' :: rest))
          (by simp)
        rw [Event.opened, leaf, closing, if_neg (by simp [plain])] at read
        have scanned := scan_angle read
        rw [below, closed, map_append_map, map_append_map] at scanned
        simpa using scanned

theorem scan_renderAll : (nodes : List Node) → CanonicalAll nodes → Apart nodes → (rest : List Char) →
    (∀ c ∈ rest.head?, c = '<') →
    scan ((renderAll nodes).toList ++ rest) = (scan rest).map (eventsAll nodes ++ ·)
  | [], _, _, rest, _ => by
    cases scanned : scan rest <;> simp [renderAll, eventsAll, scanned, Except.map]
  | n :: others, ⟨here, later⟩, apart, rest, ends => by
    have below := scan_renderAll others later apart.of_cons rest ends
    have follows : n.isText = true → ∀ c ∈ ((renderAll others).toList ++ rest).head?, c = '<' := by
      intro text
      cases others with
      | nil => simpa [renderAll] using ends
      | cons m others =>
        have other : m.isText = false := by
          have beside := (List.isChain_cons_cons.mp apart).1
          simpa [text] using beside
        simp [renderAll, head?_render later.1 other]
    have scanned := scan_render n here ((renderAll others).toList ++ rest) follows
    rw [below, map_append_map] at scanned
    simpa [renderAll, eventsAll] using scanned

end

end Node

namespace Building

open Node (CanonicalAll RawContents eventsAll isLeaf_eq)

theorem foldl_add_opened (e : Element) (children nodes : List Node) (outer : List (Element × List Node))
    (roots : List Node) :
    nodes.foldl add ⟨(e, children) :: outer, roots⟩ = ⟨(e, nodes.reverse ++ children) :: outer, roots⟩ := by
  induction nodes generalizing children with
  | nil => rfl
  | cons n nodes ih => simp [add, ih]

theorem foldl_add_roots (nodes roots : List Node) :
    nodes.foldl add ⟨[], roots⟩ = ⟨[], nodes.reverse ++ roots⟩ := by
  induction nodes generalizing roots with
  | nil => rfl
  | cons n nodes ih => simp [add, ih]

/-- A closing tag puts the element that was opened last, with all that was added since, in its place. -/
theorem close_last (b : Building) (e : Element) (children : List Node) :
    close ⟨(e, children.reverse) :: b.opened, b.roots⟩ e.tag = b.add (.element e children) := by
  have innermost : ((e, children.reverse) :: b.opened).findIdx? (·.1.tag == e.tag) = some 0 := by
    simp [List.findIdx?_cons]
  rw [close, innermost]
  simp [closeInners, closeInner]

theorem foldl_parent {e : Element} {children : List Node} (leaf : e.isLeaf = false) (b : Building)
    (inside : ∀ b : Building, (eventsAll children).foldl step b = children.foldl add b) :
    (Node.element e children).events.foldl step b = b.add (.element e children) := by
  have opened : step b (.opening e) = ⟨(e, []) :: b.opened, b.roots⟩ := by simp [step, leaf]
  rw [Node.events, leaf, if_neg (by decide), List.foldl_cons, opened, List.foldl_append, inside,
    foldl_add_opened, List.append_nil]
  exact close_last b e children

mutual

/-- The events of a canonical node add it to what is built. -/
theorem foldl_events : (n : Node) → n.Canonical → (b : Building) → n.events.foldl step b = b.add n
  | .text _, _, _ => rfl
  | .comment _, _, _ => rfl
  | .element e children, ⟨canonical, childless, inside⟩, b => by
    have leaf := isLeaf_eq canonical
    cases closing : e.selfClosing with
    | true =>
      rw [closing] at leaf
      simp [Node.events, leaf, step, childless closing]
    | false =>
      apply foldl_parent (leaf.trans closing)
      have contents := inside closing
      split at contents
      · match children, contents with
        | [], _ => exact fun _ => rfl
        | [.text t], _ => exact fun _ => rfl
      · exact foldl_eventsAll children contents.2

theorem foldl_eventsAll : (nodes : List Node) → CanonicalAll nodes → (b : Building) →
    (eventsAll nodes).foldl step b = nodes.foldl add b
  | [], _, _ => rfl
  | n :: rest, ⟨here, later⟩, b => by
    rw [eventsAll, List.foldl_append, foldl_events n here b, foldl_eventsAll rest later, List.foldl_cons]

end

end Building

open Node (CanonicalForest)

/-- A canonical forest is read back exactly from its print. -/
theorem parse_renderAll {roots : List Node} (canonical : CanonicalForest roots) :
    parse (Node.renderAll roots) = .ok roots := by
  obtain ⟨nodes, apart, solid⟩ := canonical
  have scanned : Event.scan (Node.renderAll roots).toList = .ok (Node.eventsAll roots) := by
    have all := Node.scan_renderAll roots nodes apart [] (by simp)
    rw [List.append_nil] at all
    rw [all, Event.scan]
    simp [Except.map]
  have built : forest (Node.eventsAll roots) = roots := by
    rw [forest, Building.foldl_eventsAll roots nodes, Building.foldl_add_roots]
    simpa [Building.finish, Building.closeInners] using solid
  rw [parse, scanned]
  exact congrArg Except.ok built

/-- A comment that ends in dashes, a list with a blank between its items, raw text with angles. -/
theorem parse_renderAll_list :
    let item : Node :=
      .element { tag := "li", attrs := [⟨"class", "a {{ b }} 'c'"⟩, ⟨"hidden", ""⟩] } [.text "x > 1"]
    let rule : Node := .element { tag := "hr", selfClosing := true } []
    let script : Node := .element { tag := "script" } [.text "if (a < b) f('</scrip')"]
    let roots := [.comment " - --", .element { tag := "ul" } [item, .text " ", rule], script, .text "end"]
    CanonicalForest roots ∧ parse (Node.renderAll roots) = .ok roots := by
  intro item rule script roots
  have canonical : CanonicalForest roots := by decide +kernel
  exact ⟨canonical, parse_renderAll canonical⟩

end Stencil.Markup
