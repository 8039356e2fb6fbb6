import Stencil.Proofs.BoundNames
import Stencil.Proofs.MarkerScan

/-! What all elements of a markup that was read have in common. An element comes from an opening tag,
which starts from a bare one, puts one attribute after the other and perhaps notes a closing slash; where
in the tree it ends up changes nothing about it. Only elements with a closing tag get anything inside. -/
namespace Stencil.Markup

open Template (elements elementsOf)

theorem mem_elements {e : Element} {nodes : List Node} :
    e ∈ elements nodes ↔ ∃ n ∈ nodes, e ∈ elementsOf n := by
  induction nodes with
  | nil => simp [elements]
  | cons n rest ih => simp [elements, ih]

/-- What holds of a bare element and is kept by everything that reading an opening tag does. -/
structure Opened (P : Element → Prop) : Prop where
  bare : ∀ tag, P { tag }
  put : ∀ e name value, P e → e.get? name = none → P (e.put name value)
  closed : ∀ e, P e → P { e with selfClosing := true }

/-- The same, of the tags and names that are read. -/
structure Read (P : Element → Prop) : Prop where
  bare : ∀ s, (Event.tagName s).1 ≠ "" → P { tag := (Event.tagName s).1 }
  put : ∀ (e : Element) (c : Char) (r : List Char) (name value : String), P e → Event.endsName c = false →
    name = String.ofList (Text.Chars.toLowerAscii (c :: r.takeWhile (!Event.endsName ·))) →
    e.get? name = none → P (e.put name value)
  closed : ∀ e, P e → P { e with selfClosing := true }

variable {P : Element → Prop}

theorem Opened.read (opened : Opened P) : Read P where
  bare _ _ := opened.bare _
  put e _ _ name value start _ _ absent := opened.put e name value start absent
  closed := opened.closed

namespace Event

theorem holds_openTag (made : Read P) {e e' : Element} {s rest : List Char} (start : P e)
    (read : openTag e s = .ok (e', rest)) : P e' := by
  fun_induction openTag e s with
  | case1 => cases read
  | case2 e =>
    cases read
    exact made.closed e start
  | case3 =>
    cases read
    exact start
  | case4 e s c r _ _ _ _ ih => exact ih start read
  | case5 => cases read
  | case6 e s c r _ _ _ goesOn name value rest' _ ih =>
    refine ih ?_ read
    split
    · exact start
    · rename_i absent
      exact made.put e c r name value start (by simpa using goesOn) rfl (by simpa using absent)

/-- A text between two tags: a lone angle or characters without one, and a single space if all of them are
blank. -/
structure IsRun (t : String) : Prop where
  nonempty : t ≠ ""
  angle : '<' ∉ t.toList ∨ t = "<"
  blank : Text.allBlank t = true → t = " "

/-- Events as a scan gives them, of elements with `P`. Any text may stand in an element of raw text, right
behind its opening tag; every other one is a run. -/
inductive Scanned (P : Element → Prop) : List Event → Prop where
  | nil : Scanned P []
  | text {t : String} {later : List Event} : IsRun t → Scanned P later → Scanned P (.text t :: later)
  | comment {c : String} {later : List Event} :
    ¬['-', '-', '>'] <:+: c.toList → Scanned P later → Scanned P (.comment c :: later)
  | opening {e : Element} {later : List Event} : P e → Scanned P later → Scanned P (.opening e :: later)
  | raw {e : Element} {t : String} {later : List Event} :
    P e → e.isLeaf = false → isRawText e.tag = true → t ≠ "" → Scanned P later →
    Scanned P (.opening e :: .text t :: later)
  | closing {tag : String} {later : List Event} : Scanned P later → Scanned P (.closing tag :: later)

section Scan

variable {s rest : List Char} {events later : List Event}

theorem scanned_opened {e : Element} (start : P e) (done : Event.opened e s = .ok (events, rest))
    (behind : Scanned P later) : Scanned P (events ++ later) := by
  unfold Event.opened at done
  split at done
  · rename_i test
    obtain ⟨parent, raw⟩ : e.isLeaf = false ∧ isRawText e.tag = true := by simpa using test
    split at done
    · cases done
    · cases done
      exact .opening start behind
    · rename_i body _ filled _
      cases done
      refine .raw start parent raw ?_ behind
      simpa using filled
  · cases done
    exact .opening start behind

theorem scanned_ofAngle (made : Read P) (done : ofAngle s = .ok (events, rest)) (behind : Scanned P later) :
    Scanned P (events ++ later) := by
  unfold ofAngle at done
  split at done
  · split at done
    · cases done
    · rename_i split
      cases done
      refine .comment ?_ behind
      rw [String.toList_ofList]
      exact (Text.Chars.splitOnce?_some split).2.not_isInfix (by decide)
  · split at done <;> cases done
    exact behind
  · cases done
    exact .closing behind
  · dsimp only at done
    split at done
    · cases done
      exact .text ⟨by decide, Or.inr rfl, by decide⟩ behind
    · rename_i named
      split at done
      · cases done
      · rename_i e after read
        have start := made.bare _ (by simpa using named)
        exact scanned_opened (holds_openTag made start read) done behind

theorem scanned_textRun {c : Char} {r : List Char} (first : c ≠ '<') (behind : Scanned P later) :
    Scanned P (textRun (c :: r.takeWhile (· != '<')) :: later) := by
  refine .text ?_ behind
  split
  · exact ⟨by decide, Or.inl (by decide), fun _ => rfl⟩
  · rename_i solid
    refine ⟨by simp, Or.inl ?_, fun blank => absurd ?_ solid⟩
    · rw [String.toList_ofList, List.mem_cons, not_or]
      refine ⟨Ne.symm first, fun inside => ?_⟩
      simpa using List.all_eq_true.mp List.all_takeWhile _ inside
    · simpa [Text.allBlank] using blank

theorem scanned_scan (made : Read P) (done : scan s = .ok events) : Scanned P events := by
  fun_induction scan s generalizing events with
  | case1 =>
    cases done
    exact .nil
  | case2 => cases done
  | case3 c r _ es rest read ih =>
    cases behind : scan rest with
    | error e =>
      rw [behind] at done
      cases done
    | ok others =>
      rw [behind] at done
      cases done
      exact scanned_ofAngle made read (ih behind)
  | case4 c r first ih =>
    cases behind : scan (r.dropWhile (· != '<')) with
    | error e =>
      rw [behind] at done
      cases done
    | ok others =>
      rw [behind] at done
      cases done
      exact scanned_textRun (by simpa using first) (ih behind)

end Scan

end Event

/-- What holds of the texts and comments of a scan, and of elements with `P`: of one that stands alone, and of
one around nodes of which it holds. It may depend on whether a node stands in an element of raw text. -/
structure Builds (P : Element → Prop) (Q : Bool → Node → Prop) : Prop where
  text : ∀ raw content, Event.IsRun content → Q raw (.text content)
  raw : ∀ content, content ≠ "" → Q true (.text content)
  comment : ∀ raw content, ¬['-', '-', '>'] <:+: content.toList → Q raw (.comment content)
  leaf : ∀ raw e, P e → e.isLeaf = true → Q raw (.element e [])
  parent : ∀ raw e children, P e → e.isLeaf = false → (∀ n ∈ children, Q (Event.isRawText e.tag) n) →
    Q raw (.element e children)

namespace Building

variable {Q : Bool → Node → Prop}

/-- What is built so far has finished nodes of which `Q` holds, and open elements of which `P` does. -/
structure All (P : Element → Prop) (Q : Bool → Node → Prop) (b : Building) : Prop where
  opened : ∀ frame ∈ b.opened,
    P frame.1 ∧ frame.1.isLeaf = false ∧ ∀ n ∈ frame.2, Q (Event.isRawText frame.1.tag) n
  roots : ∀ n ∈ b.roots, Q false n

/-- Whether the next node stands in an element of raw text. -/
def inRaw (b : Building) : Bool := b.opened.head?.any fun frame => Event.isRawText frame.1.tag

theorem all_add {b : Building} {n : Node} (all : All P Q b) (new : Q b.inRaw n) : All P Q (b.add n) := by
  unfold add
  unfold inRaw at new
  split <;> rename_i frames <;> rw [frames] at new
  · exact ⟨by simp [frames], List.forall_mem_cons.mpr ⟨new, all.roots⟩⟩
  · rename_i e children outer
    have opened := all.opened
    rw [frames, List.forall_mem_cons] at opened
    obtain ⟨⟨holds, parent, inside⟩, others⟩ := opened
    refine ⟨List.forall_mem_cons.mpr ⟨⟨holds, parent, ?_⟩, others⟩, all.roots⟩
    exact List.forall_mem_cons.mpr ⟨new, inside⟩

theorem step_opening (b : Building) {e : Element} (parent : e.isLeaf = false) :
    b.step (.opening e) = { b with opened := (e, []) :: b.opened } := by
  rw [step, if_neg (by simp [parent])]

theorem all_open {b : Building} {e : Element} (all : All P Q b) (here : P e) (parent : e.isLeaf = false) :
    All P Q (b.step (.opening e)) := by
  rw [step_opening b parent]
  exact ⟨List.forall_mem_cons.mpr ⟨⟨here, parent, by simp⟩, all.opened⟩, all.roots⟩

variable (builds : Builds P Q)

include builds

theorem all_closeInner {b : Building} (all : All P Q b) : All P Q b.closeInner := by
  unfold closeInner
  split
  · exact all
  · rename_i e children outer frames
    have opened := all.opened
    rw [frames, List.forall_mem_cons] at opened
    obtain ⟨⟨holds, parent, inside⟩, others⟩ := opened
    apply all_add
    · exact ⟨others, all.roots⟩
    · exact builds.parent _ e _ holds parent fun n member => inside n (List.mem_reverse.mp member)

theorem all_closeInners {b : Building} (all : All P Q b) (count : Nat) : All P Q (closeInners count b) := by
  induction count generalizing b with
  | zero => exact all
  | succ count ih => exact ih (all_closeInner builds all)

theorem all_opening {b : Building} {e : Element} (all : All P Q b) (here : P e) :
    All P Q (b.step (.opening e)) := by
  cases leaf : e.isLeaf with
  | true =>
    rw [step, if_pos leaf]
    exact all_add all (builds.leaf _ e here leaf)
  | false => exact all_open all here leaf

theorem all_close {b : Building} (all : All P Q b) (tag : String) : All P Q (b.close tag) := by
  unfold close
  split
  · exact all
  · exact all_closeInners builds all _

theorem all_run {b : Building} {events : List Event} (all : All P Q b) (scanned : Event.Scanned P events) :
    All P Q (events.foldl step b) := by
  induction scanned generalizing b with
  | nil => exact all
  | text run _ ih => exact ih (all_add all (builds.text _ _ run))
  | comment unclosed _ ih => exact ih (all_add all (builds.comment _ _ unclosed))
  | opening here _ ih => exact ih (all_opening builds all here)
  | @raw e t later here parent raw nonempty _ ih =>
    -- The element that the text stands in has just been opened.
    have inside : (b.step (.opening e)).inRaw = true := by simpa [inRaw, step_opening b parent] using raw
    have new : Q (b.step (.opening e)).inRaw (.text t) := by
      rw [inside]
      exact builds.raw t nonempty
    exact ih (all_add (all_open all here parent) new)
  | closing _ ih => exact ih (all_close builds all _)

end Building

theorem parse_eq_ok {html : String} {roots : List Node} (parsed : parse html = .ok roots) :
    ∃ events, Event.scan html.toList = .ok events ∧ roots = forest events := by
  unfold parse at parsed
  cases scanned : Event.scan html.toList with
  | error e =>
    rw [scanned] at parsed
    cases parsed
  | ok events =>
    rw [scanned] at parsed
    cases parsed
    exact ⟨events, rfl, rfl⟩

/-- Every root of a markup is built of elements as opening tags make them. -/
theorem forall_roots_of_read {Q : Bool → Node → Prop} (made : Read P) (builds : Builds P Q) {html : String}
    {roots : List Node} (parsed : parse html = .ok roots) : ∀ n ∈ roots, Q false n := by
  obtain ⟨events, scanned, rfl⟩ := parse_eq_ok parsed
  have start : Building.All P Q {} := ⟨by simp, by simp⟩
  have built := Building.all_run builds start (Event.scanned_scan made scanned)
  have closed := Building.all_closeInners builds built (events.foldl Building.step {}).opened.length
  intro n member
  exact closed.roots n (List.mem_reverse.mp (List.mem_of_mem_filter member))

/-- Every element of a markup is as opening tags make them. -/
theorem forall_of_read (made : Read P) {html : String} {roots : List Node}
    (parsed : parse html = .ok roots) : ∀ e ∈ elements roots, P e := by
  have builds : Builds P fun _ n => ∀ e ∈ elementsOf n, P e := by
    refine ⟨by simp [elementsOf], by simp [elementsOf], by simp [elementsOf], ?_, ?_⟩
    · intro _ e here _
      simpa [elementsOf, elements] using here
    · intro _ e children here _ inside x member
      rcases List.mem_cons.mp member with rfl | below
      · exact here
      · obtain ⟨n, listed, within⟩ := mem_elements.mp below
        exact inside n listed x within
  intro e member
  obtain ⟨n, listed, inside⟩ := mem_elements.mp member
  exact forall_roots_of_read made builds parsed n listed e inside

theorem forall_of_parse (opened : Opened P) {html : String} {roots : List Node}
    (parsed : parse html = .ok roots) : ∀ e ∈ elements roots, P e :=
  forall_of_read opened.read parsed

theorem Attr.find?_eq_none_iff {attrs : List Attr} {name : String} :
    find? attrs name = none ↔ name ∉ attrs.map (·.name) := by
  simp [find?, List.find?_eq_none]

theorem Attr.put_of_find?_eq_none {attrs : List Attr} {name : String} (value : String)
    (absent : find? attrs name = none) : put attrs name value = attrs ++ [⟨name, value⟩] := by
  induction attrs with
  | nil => rfl
  | cons a rest ih =>
    by_cases same : a.name = name
    · simp [find?, same] at absent
    · have later : find? rest name = none := by simpa [find?, same] using absent
      simp [put, same, ih later]

/-- Reading keeps the first of two attributes of one name. -/
theorem opened_distinct : Opened fun e => (e.attrs.map (·.name)).Nodup where
  bare tag := List.nodup_nil
  put e name value distinct absent := by
    have missing : name ∉ e.attrs.map (·.name) := Attr.find?_eq_none_iff.mp absent
    have grown := Attr.put_of_find?_eq_none value absent
    simp only [Element.put, grown, List.map_append, List.map_cons, List.map_nil]
    exact List.nodup_append.mpr ⟨distinct, by simp, by grind⟩
  closed e distinct := distinct

mutual

/-- An element that stands alone has nothing inside. -/
def Node.Hollow : Node → Prop
  | .element e children => (e.isLeaf = true → children = []) ∧ Node.HollowAll children
  | _ => True

def Node.HollowAll : List Node → Prop
  | [] => True
  | n :: rest => n.Hollow ∧ Node.HollowAll rest

end

theorem Node.hollowAll_iff {nodes : List Node} : HollowAll nodes ↔ ∀ n ∈ nodes, n.Hollow := by
  induction nodes with
  | nil => simp [HollowAll]
  | cons n rest ih => simp [HollowAll, ih]

theorem hollow_of_parse {html : String} {roots : List Node} (parsed : parse html = .ok roots) :
    Node.HollowAll roots := by
  have opened : Opened fun _ => True := ⟨by simp, by simp, by simp⟩
  have builds : Builds (fun _ => True) fun _ => Node.Hollow := by
    refine ⟨by simp [Node.Hollow], by simp [Node.Hollow], by simp [Node.Hollow],
      by simp [Node.Hollow, Node.HollowAll], ?_⟩
    intro _ e children _ parent inside
    exact ⟨by simp [parent], Node.hollowAll_iff.mpr inside⟩
  exact Node.hollowAll_iff.mpr (forall_roots_of_read opened.read builds parsed)

end Stencil.Markup
