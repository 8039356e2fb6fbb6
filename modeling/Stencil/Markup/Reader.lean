import Stencil.Markup.Node

/-! Reading markup. The characters are first cut into events (text, comment, opening and closing tag),
which is where reading can fail; the events then build a forest over a stack of open elements, which
never fails: stray closing tags are ignored and what is open at the end is closed. -/
namespace Stencil.Markup

open Text

inductive Unterminated where
  | comment
  | doctype
  | tag
  | attributeValue
  | quotedValue
  | rawText
  deriving DecidableEq, Repr

namespace Unterminated

def what : Unterminated → String
  | comment => "comment"
  | doctype => "doctype"
  | tag => "tag"
  | attributeValue => "attribute value"
  | quotedValue => "quoted attribute value"
  | rawText => "raw text element"

def message (e : Unterminated) : String := "Unexpected end of HTML input while reading " ++ e.what

end Unterminated

inductive Event where
  | text (content : String)
  | comment (content : String)
  | opening (element : Element)
  | closing (tag : String)
  deriving DecidableEq, Repr

namespace Event

def isTagChar (c : Char) : Bool := c.isAlphanum || c == '_' || c == '-' || c == ':'

def endsName (c : Char) : Bool :=
  isAsciiBlank c || c == '=' || c == '>' || c == '/' || c == '"' || c == '\''

def skipBlanks (s : List Char) : List Char := s.dropWhile isAsciiBlank

def skipEnd : List Char → List Char
  | '>' :: s => s
  | s => s

/-- A tag name in lower case, and what follows it. -/
def tagName (s : List Char) : String × List Char :=
  (String.ofList (Chars.toLowerAscii (s.takeWhile isTagChar)), s.dropWhile isTagChar)

/-- The value after an attribute's name; without `=` it is empty. -/
def attrValue (s : List Char) : Except Unterminated (String × List Char) :=
  match skipBlanks s with
  | '=' :: r =>
    match skipBlanks r with
    | [] => .error .attributeValue
    | q :: r =>
      if q == '"' || q == '\'' then
        match r.dropWhile (· != q) with
        | [] => .error .quotedValue
        | _ :: rest => .ok (String.ofList (r.takeWhile (· != q)), rest)
      else
        let ends := fun c => isAsciiBlank c || c == '>'
        .ok (String.ofList ((q :: r).takeWhile (!ends ·)), (q :: r).dropWhile (!ends ·))
  | r => .ok ("", r)

theorem length_skipBlanks_le (s : List Char) : (skipBlanks s).length ≤ s.length :=
  (List.dropWhile_suffix _).length_le

theorem attrValue_length_le {s rest : List Char} {v : String}
    (h : attrValue s = .ok (v, rest)) : rest.length ≤ s.length := by
  have hs := length_skipBlanks_le s
  unfold attrValue at h
  split at h
  · rename_i r hr
    rw [hr] at hs
    have hr' := length_skipBlanks_le r
    split at h
    · simp at h
    · rename_i q r2 hq
      rw [hq] at hr'
      simp only [List.length_cons] at hs hr'
      split at h
      · split at h
        · simp at h
        · rename_i c r3 hd
          have := (List.dropWhile_suffix (· != q) (l := r2)).length_le
          rw [hd] at this
          simp at h this
          rw [← h.2]; omega
      · simp at h
        rw [← h.2]
        have := (List.dropWhile_suffix (fun c => !(isAsciiBlank c || c == '>'))
          (l := q :: r2)).length_le
        simp at this ⊢
        omega
  · simp at h
    rw [← h.2]; exact hs

/-- The rest of an opening tag after its name: attributes, of which the first of a name counts, up to
`>` or `/`. Characters that can start neither are skipped. -/
def openTag (e : Element) (s : List Char) : Except Unterminated (Element × List Char) :=
  match _h : skipBlanks s with
  | [] => .error .tag
  | '/' :: r => .ok ({ e with selfClosing := true }, skipEnd (skipBlanks r))
  | '>' :: r => .ok (e, r)
  | c :: r =>
    if endsName c then openTag e r
    else
      let name := String.ofList (Chars.toLowerAscii (c :: r.takeWhile (!endsName ·)))
      match _hv : attrValue (r.dropWhile (!endsName ·)) with
      | .error err => .error err
      | .ok (value, rest) =>
        openTag (if (e.get? name).isSome then e else e.put name value) rest
termination_by s.length
decreasing_by
  · have := length_skipBlanks_le s
    rw [_h] at this
    simp at this; omega
  · have := length_skipBlanks_le s
    rw [_h] at this
    have h1 := attrValue_length_le _hv
    have h2 := (List.dropWhile_suffix (fun c => !endsName c) (l := r)).length_le
    simp at this; omega

theorem openTag_length_le {e e' : Element} {s rest : List Char}
    (h : openTag e s = .ok (e', rest)) : rest.length ≤ s.length := by
  fun_induction openTag e s with
  | case1 => simp at h
  | case2 e s r hs =>
    simp at h
    have h1 := length_skipBlanks_le s
    have h2 := length_skipBlanks_le r
    rw [hs] at h1
    rw [← h.2]
    have h3 : (skipEnd (skipBlanks r)).length ≤ (skipBlanks r).length := by
      unfold skipEnd; split <;> simp_all
    simp at h1; omega
  | case3 e s r hs =>
    simp at h
    have h1 := length_skipBlanks_le s
    rw [hs] at h1
    rw [← h.2]; simp at h1; omega
  | case4 e s c r _ _ hs hc ih =>
    have h1 := length_skipBlanks_le s
    rw [hs] at h1
    have := ih h
    simp at h1; omega
  | case5 => simp at h
  | case6 e s c r _ _ hs hc name value rest' hv ih =>
    have h1 := length_skipBlanks_le s
    rw [hs] at h1
    have h2 := attrValue_length_le hv
    have h3 := (List.dropWhile_suffix (fun c => !endsName c) (l := r)).length_le
    have := ih h
    simp at h1; omega

/-- The text up to the first `close`, in any ASCII case, and the rest, which starts with it. -/
def rawText? (close : List Char) : List Char → Option (List Char × List Char)
  | [] => none
  | c :: s =>
    if (Chars.after? close (Chars.toLowerAscii ((c :: s).take close.length))).isSome then some ([], c :: s)
    else (rawText? close s).map fun (body, rest) => (c :: body, rest)

theorem rawText?_length_le {close s body rest : List Char}
    (h : rawText? close s = some (body, rest)) : rest.length ≤ s.length := by
  induction s generalizing body rest with
  | nil => simp [rawText?] at h
  | cons c s ih =>
    unfold rawText? at h
    split at h
    · simp at h; simp [← h.2]
    · cases hr : rawText? close s with
      | none => simp [hr] at h
      | some p =>
        obtain ⟨b, r⟩ := p
        simp [hr] at h
        have := ih hr
        rw [← h.2]; simp; omega

/-- A run of text; one that is all blank counts as a single space. -/
def textRun (run : List Char) : Event :=
  .text (if run.all isBlank then " " else String.ofList run)

/-- Elements whose content is text up to their closing tag. -/
def isRawText (tag : String) : Bool := tag == "script" || tag == "style"

/-- An opening tag that has been read, with the raw text that belongs to it. -/
def opened (e : Element) (s : List Char) : Except Unterminated (List Event × List Char) :=
  if !e.isLeaf && isRawText e.tag then
    match rawText? ("</" ++ e.tag).toList s with
    | none => .error .rawText
    | some ([], rest) => .ok ([.opening e], rest)
    | some (body, rest) => .ok ([.opening e, .text (String.ofList body)], rest)
  else .ok ([.opening e], s)

theorem opened_length_le {e : Element} {s rest : List Char} {es : List Event}
    (h : opened e s = .ok (es, rest)) : rest.length ≤ s.length := by
  unfold opened at h
  split at h
  · split at h
    · simp at h
    · rename_i hr; simp at h; rw [← h.2]; exact rawText?_length_le hr
    · rename_i hr; simp at h; rw [← h.2]; exact rawText?_length_le hr
  · simp at h; simp [h.2]

/-- The events of what starts with `<`, whose rest is `s`. -/
def ofAngle (s : List Char) : Except Unterminated (List Event × List Char) :=
  match s with
  | '!' :: '-' :: '-' :: r =>
    match Chars.splitOnce? "-->".toList r with
    | none => .error .comment
    | some (body, rest) => .ok ([.comment (String.ofList body)], rest)
  | '!' :: r =>
    match Chars.splitOnce? ['>'] r with
    | none => .error .doctype
    | some (_, rest) => .ok ([], rest)
  | '/' :: r =>
    let (tag, rest) := tagName r
    .ok ([.closing tag], skipEnd (skipBlanks rest))
  | _ =>
    let (tag, rest) := tagName s
    if tag.isEmpty then .ok ([.text "<"], s)
    else match openTag { tag } rest with
      | .error e => .error e
      | .ok (e, rest) => opened e rest

theorem tagName_length_le (s : List Char) : (tagName s).2.length ≤ s.length :=
  (List.dropWhile_suffix _).length_le

theorem ofAngle_length_le {s rest : List Char} {es : List Event}
    (h : ofAngle s = .ok (es, rest)) : rest.length ≤ s.length := by
  unfold ofAngle at h
  split at h
  · split at h
    · simp at h
    · rename_i hs; simp at h; rw [← h.2]
      have := Chars.splitOnce?_length_le hs
      simp; omega
  · split at h
    · simp at h
    · rename_i hs; simp at h; rw [← h.2]
      have := Chars.splitOnce?_length_le hs
      simp; omega
  · rename_i r
    simp at h
    have h1 := tagName_length_le r
    have h2 := length_skipBlanks_le (tagName r).2
    have h3 : (skipEnd (skipBlanks (tagName r).2)).length ≤ (skipBlanks (tagName r).2).length := by
      unfold skipEnd; split <;> simp_all
    rw [← h.2]; simp; omega
  · have h1 := tagName_length_le s
    dsimp only at h
    split at h
    · simp at h; simp [h.2]
    · split at h
      · simp at h
      · rename_i ho
        have h2 := openTag_length_le ho
        have h3 := opened_length_le h
        omega

def scan (s : List Char) : Except Unterminated (List Event) :=
  match s with
  | [] => .ok []
  | c :: r =>
    if c == '<' then
      match _h : ofAngle r with
      | .error e => .error e
      | .ok (es, rest) => (scan rest).map (es ++ ·)
    else (scan (r.dropWhile (· != '<'))).map (textRun (c :: r.takeWhile (· != '<')) :: ·)
termination_by s.length
decreasing_by
  · have := ofAngle_length_le _h
    simp; omega
  · have := (List.dropWhile_suffix (· != '<') (l := r)).length_le
    simp; omega

end Event

/-- The open elements, innermost first, each with its children so far, and the roots so far; both
lists of nodes are latest first. -/
structure Building where
  opened : List (Element × List Node) := []
  roots : List Node := []

namespace Building

def add (b : Building) (n : Node) : Building :=
  match b.opened with
  | [] => { b with roots := n :: b.roots }
  | (e, children) :: outer => { b with opened := (e, n :: children) :: outer }

def closeInner (b : Building) : Building :=
  match b.opened with
  | [] => b
  | (e, children) :: outer =>
    { b with opened := outer }.add (.element e children.reverse)

/-- Closes that many elements, the innermost first. -/
def closeInners : Nat → Building → Building
  | 0, b => b
  | n + 1, b => closeInners n b.closeInner

/-- Closes every element up to and including the innermost one with this tag; without one nothing
is closed. -/
def close (b : Building) (tag : String) : Building :=
  match b.opened.findIdx? (·.1.tag == tag) with
  | none => b
  | some i => closeInners (i + 1) b

def step (b : Building) : Event → Building
  | .text t => b.add (.text t)
  | .comment c => b.add (.comment c)
  | .opening e => if e.isLeaf then b.add (.element e []) else { b with opened := (e, []) :: b.opened }
  | .closing tag => b.close tag

/-- The roots once everything open is closed. -/
def finish (b : Building) : List Node := (closeInners b.opened.length b).roots.reverse

end Building

/-- The forest that events describe; blank text between the roots is dropped. -/
def forest (events : List Event) : List Node :=
  (events.foldl Building.step {}).finish.filter (!·.isBlank)

def parse (html : String) : Except Unterminated (List Node) :=
  (Event.scan html.toList).map forest

end Stencil.Markup
