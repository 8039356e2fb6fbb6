import Stencil.Proofs.PrintedMarkup

/-! The elements of a markup, apart from its texts. The skeleton of a forest has the elements as they nest,
with the names of their attributes and without the values. Reading commutes with it: what the tags alone
build is the skeleton of what all events build. So the skeleton of a print depends neither on texts
without angles nor on what stands between quotes. -/
namespace Stencil.Markup

open Text
open Template (elements)

/-- The attribute without its value. -/
def Attr.bare (a : Attr) : Attr := ⟨a.name, ""⟩

/-- The element with the names of its attributes only. -/
def Element.bare (e : Element) : Element :=
  { tag := e.tag, attrs := e.attrs.map Attr.bare, selfClosing := e.selfClosing }

@[simp] theorem Element.tag_bare (e : Element) : e.bare.tag = e.tag := rfl

@[simp] theorem Element.isLeaf_bare (e : Element) : e.bare.isLeaf = e.isLeaf := rfl

@[simp] theorem Element.bare_printed (e : Element) : e.printed.bare = e.bare := by
  simp [bare, Element.printed, Attr.bare, Attr.printed, Function.comp_def]

namespace Node

mutual

def skeleton? : Node → Option Node
  | .element e children => some (.element e.bare (skeleton children))
  | _ => none

/-- The elements of a forest as they nest, without texts, comments and values. -/
def skeleton : List Node → List Node
  | [] => []
  | n :: rest => n.skeleton?.toList ++ skeleton rest

end

theorem skeleton_eq_filterMap (nodes : List Node) : skeleton nodes = nodes.filterMap skeleton? := by
  induction nodes with
  | nil => rfl
  | cons n rest ih =>
    rw [skeleton, List.filterMap_cons, ih]
    cases n.skeleton? <;> rfl

theorem skeleton_reverse (nodes : List Node) : skeleton nodes.reverse = (skeleton nodes).reverse := by
  simp [skeleton_eq_filterMap, List.filterMap_reverse]

/-- Blank texts are no part of a skeleton. -/
theorem skeleton_filter (nodes : List Node) :
    skeleton (nodes.filter (!·.isBlank)) = (skeleton nodes).filter (!·.isBlank) := by
  rw [skeleton_eq_filterMap, skeleton_eq_filterMap, List.filterMap_filter, List.filter_filterMap]
  congr 1
  funext n
  cases n with
  | text t => cases blank : (Node.text t).isBlank <;> simp [skeleton?]
  | comment c => simp [skeleton?]
  | element e children => simp [skeleton?, isBlank, Option.filter]

theorem eventsAll_append (nodes others : List Node) :
    eventsAll (nodes ++ others) = eventsAll nodes ++ eventsAll others := by
  induction nodes with
  | nil => rfl
  | cons n rest ih => simp [eventsAll, ih]

theorem canonicalAll_iff {nodes : List Node} : CanonicalAll nodes ↔ ∀ n ∈ nodes, n.Canonical := by
  induction nodes with
  | nil => simp [CanonicalAll]
  | cons n rest ih => simp [CanonicalAll, ih]

/-- Nodes of which none is a text have no two texts next to each other. -/
theorem apart_of_solid {nodes : List Node} (solid : ∀ n ∈ nodes, n.isText = false) : Apart nodes := by
  induction nodes with
  | nil => exact .nil
  | cons n rest ih =>
    have later := ih fun m member => solid m (List.mem_cons_of_mem n member)
    cases rest with
    | nil => exact .singleton n
    | cons m others => exact .cons_cons (by simp [solid n (List.mem_cons_self ..)]) later

end Node

open Node (skeleton skeleton?)

/-- The tags among events. -/
def Event.bare? : Event → Option Event
  | .opening e => some (.opening e.bare)
  | .closing tag => some (.closing tag)
  | _ => none

namespace Building

/-- What the tags alone have built. -/
def skeleton (b : Building) : Building where
  opened := b.opened.map fun frame => (frame.1.bare, Node.skeleton frame.2)
  roots := Node.skeleton b.roots

theorem skeleton_add (b : Building) (n : Node) :
    (b.add n).skeleton = n.skeleton?.elim b.skeleton b.skeleton.add := by
  rcases b with ⟨- | ⟨⟨e, children⟩, outer⟩, roots⟩ <;>
    cases shown : n.skeleton? <;> simp [add, skeleton, Node.skeleton, shown]

theorem skeleton_closeInner (b : Building) : b.closeInner.skeleton = b.skeleton.closeInner := by
  rcases b with ⟨- | ⟨⟨e, children⟩, outer⟩, roots⟩
  · rfl
  · rw [closeInner, skeleton_add]
    simp [skeleton, closeInner, skeleton?, Node.skeleton_reverse]

theorem skeleton_closeInners (count : Nat) (b : Building) :
    (closeInners count b).skeleton = closeInners count b.skeleton := by
  induction count generalizing b with
  | zero => rfl
  | succ count ih => rw [closeInners, closeInners, ih, skeleton_closeInner]

theorem skeleton_close (b : Building) (tag : String) : (b.close tag).skeleton = b.skeleton.close tag := by
  have innermost : b.skeleton.opened.findIdx? (·.1.tag == tag) = b.opened.findIdx? (·.1.tag == tag) := by
    simp [skeleton, List.findIdx?_map, Function.comp_def, Element.bare]
  unfold close
  rw [innermost]
  split
  · rfl
  · exact skeleton_closeInners _ b

theorem skeleton_step (b : Building) (event : Event) :
    (b.step event).skeleton = event.bare?.elim b.skeleton b.skeleton.step := by
  cases event with
  | text t => exact skeleton_add b (.text t)
  | comment c => exact skeleton_add b (.comment c)
  | closing tag => exact skeleton_close b tag
  | opening e =>
    cases leaf : e.isLeaf with
    | true =>
      have added := skeleton_add b (.element e [])
      simpa [step, leaf, Event.bare?, skeleton?, Node.skeleton] using added
    | false => simp [step, leaf, Event.bare?, skeleton, Node.skeleton]

theorem skeleton_run (events : List Event) (b : Building) :
    (events.foldl step b).skeleton = (events.filterMap Event.bare?).foldl step b.skeleton := by
  induction events generalizing b with
  | nil => rfl
  | cons event rest ih =>
    rw [List.foldl_cons, ih, skeleton_step, List.filterMap_cons]
    cases event.bare? <;> rfl

theorem skeleton_finish (b : Building) : Node.skeleton b.finish = b.skeleton.finish := by
  have depth : b.skeleton.opened.length = b.opened.length := by simp [skeleton]
  rw [finish, finish, depth, ← skeleton_closeInners, Node.skeleton_reverse]
  rfl

end Building

/-- The tags alone describe the skeleton. -/
theorem skeleton_forest (events : List Event) :
    skeleton (forest events) = forest (events.filterMap Event.bare?) := by
  rw [forest, Node.skeleton_filter, Building.skeleton_finish, Building.skeleton_run, forest]
  rfl

namespace Event

/-- The tags of the whole input, in order. -/
def tags (s : List Char) : Except Unterminated (List Event) := (scan s).map (·.filterMap bare?)

theorem tags_nil : tags [] = .ok [] := by
  rw [tags, scan]
  rfl

theorem tags_angle {s rest : List Char} {events : List Event} (read : ofAngle s = .ok (events, rest)) :
    tags ('<' :: s) = (tags rest).map (events.filterMap bare? ++ ·) := by
  rw [tags, scan_angle read, tags]
  cases scan rest <;> simp [Except.map]

/-- Up to the next angle there is no tag. -/
theorem tags_dropWhile (s : List Char) : tags s = tags (s.dropWhile (· != '<')) := by
  cases s with
  | nil => rfl
  | cons c rest =>
    by_cases angle : c = '<'
    · simp [angle]
    · have scanned : scan (c :: rest) =
          (scan (rest.dropWhile (· != '<'))).map (textRun (c :: rest.takeWhile (· != '<')) :: ·) := by
        rw [scan, if_neg (by simpa using angle)]
      rw [tags, scanned, List.dropWhile_cons_of_pos (by simpa using angle), tags]
      have silent : bare? (textRun (c :: rest.takeWhile (· != '<'))) = none := rfl
      cases scan (rest.dropWhile (· != '<')) <;> simp [Except.map, silent]

/-- A text without angles has no tags. -/
theorem tags_text {text : List Char} (plain : '<' ∉ text) (rest : List Char) :
    tags (text ++ rest) = tags rest := by
  have inside : ∀ c ∈ text, (c != '<') = true := by
    intro c member
    rw [bne_iff_ne]
    rintro rfl
    exact plain member
  rw [tags_dropWhile, List.dropWhile_append_of_pos inside, ← tags_dropWhile]

theorem tags_closing {tag : String} (letters : ∀ c ∈ tag.toList, isTagLetter c = true) (rest : List Char) :
    tags ('<' :: '/' :: (tag.toList ++ '>' :: rest)) = (tags rest).map ([.closing tag] ++ ·) := by
  rw [tags, scan_closing letters, tags]
  cases scan rest <;> simp [Except.map, bare?]

theorem tags_opening {e : Element} (named : e.Named) (plain : isRawText e.tag = false) (rest : List Char) :
    tags ('<' :: (e.tag.toList ++ (e.attrs.flatMap (·.render.toList) ++ (tagEnd e ++ rest)))) =
      (tags rest).map ([.opening e.bare] ++ ·) := by
  have read := ofAngle_named named rest
  rw [opened, show e.printed.tag = e.tag from rfl, plain, Bool.and_false, if_neg (by decide)] at read
  simpa [bare?] using tags_angle read

end Event

namespace Event

theorem isTagLetter_toLower {c : Char} (inside : isTagChar c = true) : isTagLetter c.toLower = true := by
  cases capital : c.isUpper with
  | true => simp [isTagLetter, isLower_toLower capital]
  | false =>
    rw [toLower_of_small capital]
    simp only [isTagChar, Bool.or_eq_true, isAlphanum_iff, isAlpha_iff, capital, Bool.false_eq_true,
      false_or] at inside
    simpa only [isTagLetter, Bool.or_eq_true] using inside

theorem goes_on_toLower {c : Char} (goesOn : endsName c = false) :
    c.toLower.isUpper = false ∧ endsName c.toLower = false := by
  cases capital : c.isUpper with
  | true =>
    have range := isLower_iff.mp (isLower_toLower capital)
    constructor
    · rw [Bool.eq_false_iff, ne_eq, isUpper_iff]
      omega
    · by_contra ends
      simp only [endsName, isAsciiBlank, Bool.not_eq_false, Bool.or_eq_true, beq_iff_eq] at ends
      rcases ends with (((((((((same | same) | same) | same) | same) | same) | same) | same) | same) | same) <;>
        rw [same] at range <;> revert range <;> decide
  | false =>
    rw [toLower_of_small capital]
    exact ⟨capital, goesOn⟩

end Event

/-- Elements that are read have tags and names that are read as they are printed. -/
theorem read_named : Read Element.Named where
  bare s nonempty := by
    refine ⟨nonempty, ?_, by simp, by simp⟩
    intro c member
    rw [Event.tagName, String.toList_ofList] at member
    obtain ⟨d, taken, rfl⟩ := List.mem_map.mp member
    exact Event.isTagLetter_toLower (List.all_eq_true.mp List.all_takeWhile d taken)
  put e c r name value named start read absent := by
    have grown := Attr.put_of_find?_eq_none value absent
    have fresh : (⟨name, value⟩ : Attr).Named := by
      constructor
      · rw [read]
        simp [Chars.toLowerAscii]
      · intro d member
        rw [read, String.toList_ofList] at member
        obtain ⟨x, inside, rfl⟩ := List.mem_map.mp member
        apply Event.goes_on_toLower
        rcases List.mem_cons.mp inside with rfl | later
        · exact start
        · simpa using List.all_eq_true.mp List.all_takeWhile x later
    refine ⟨named.nonempty, named.tag, ?_, ?_⟩
    · intro a member
      rw [Element.put, grown] at member
      rcases List.mem_append.mp member with old | new
      · exact named.attrs a old
      · exact List.mem_singleton.mp new ▸ fresh
    · exact opened_distinct.put e name value named.distinct absent
  closed e named := ⟨named.nonempty, named.tag, named.attrs, named.distinct⟩

theorem named_of_parse {html : String} {roots : List Node} (parsed : parse html = .ok roots) :
    ∀ e ∈ elements roots, e.Named :=
  forall_of_read read_named parsed

/-- An element whose opening tag is read as it is printed, and nothing of it as raw text. -/
structure Element.Legible (e : Element) : Prop extends e.Named where
  void : isVoid e.tag = true → e.selfClosing = true
  plain : Event.isRawText e.tag = false

theorem Element.Legible.canonical_bare {e : Element} (legible : e.Legible) : e.bare.Canonical where
  nonempty := legible.nonempty
  tag := legible.tag
  attrs := by
    intro a member
    obtain ⟨own, listed, rfl⟩ := List.mem_map.mp member
    exact ⟨(legible.attrs own listed).nonempty, (legible.attrs own listed).name, by simp [Attr.bare]⟩
  distinct := by simpa [bare, Attr.bare, Function.comp_def] using legible.distinct
  void := legible.void
  pristine := rfl

/-- The tags of the text are those of the elements. -/
structure Outlines (html : String) (nodes : List Node) : Prop where
  tags : ∀ rest, Event.tags (html.toList ++ rest) = (Event.tags rest).map (Node.eventsAll nodes ++ ·)
  canonical : Node.CanonicalAll nodes
  solid : ∀ n ∈ nodes, n.isText = false

namespace Outlines

theorem text {html : String} (plain : '<' ∉ html.toList) : Outlines html [] where
  tags rest := by
    rw [Event.tags_text plain]
    cases Event.tags rest <;> simp [Node.eventsAll, Except.map]
  canonical := trivial
  solid := by simp

theorem append {first second : String} {nodes others : List Node} (left : Outlines first nodes)
    (right : Outlines second others) : Outlines (first ++ second) (nodes ++ others) where
  tags rest := by
    rw [String.toList_append, List.append_assoc, left.tags, right.tags, map_append_map,
      Node.eventsAll_append]
  canonical := by
    rw [Node.canonicalAll_iff]
    intro n member
    rcases List.mem_append.mp member with here | there
    · exact Node.canonicalAll_iff.mp left.canonical n here
    · exact Node.canonicalAll_iff.mp right.canonical n there
  solid := by
    intro n member
    exact (List.mem_append.mp member).elim (left.solid n) (right.solid n)

variable {e : Element} (legible : e.Legible)

include legible

theorem leaf (closed : e.selfClosing = true) : Outlines (e.openTag ++ "/>") [.element e.bare []] where
  tags rest := by
    have leaf : e.isLeaf = true := by simp [Element.isLeaf, closed]
    have opened := Event.tags_opening legible.toNamed legible.plain rest
    simpa [Element.openTag, toList_concat, List.flatMap_map, Event.tagEnd, closed, Node.eventsAll,
      Node.events, leaf] using opened
  canonical := by
    have unclosed : e.bare.selfClosing ≠ false := by simp [Element.bare, closed]
    exact ⟨⟨legible.canonical_bare, fun _ => rfl, fun absurd => (unclosed absurd).elim⟩, trivial⟩
  solid := by simp [Node.isText]

theorem parent (unclosed : e.selfClosing = false) {contents : String} {children : List Node}
    (inside : Outlines contents children) :
    Outlines (e.openTag ++ ">" ++ contents ++ "</" ++ e.tag ++ ">") [.element e.bare children] where
  tags rest := by
    have leaf : e.isLeaf = false := (Node.isLeaf_eq legible.canonical_bare).trans unclosed
    have opened := Event.tags_opening legible.toNamed legible.plain
      (contents.toList ++ '<' :: '/' :: (e.tag.toList ++ '>' :: rest))
    rw [inside.tags, Event.tags_closing legible.tag, map_append_map, map_append_map] at opened
    have events : Node.eventsAll [.element e.bare children] =
        [.opening e.bare] ++ Node.eventsAll children ++ [.closing e.tag] := by
      simp [Node.eventsAll, Node.events, leaf]
    rw [events]
    simpa [Element.openTag, toList_concat, List.flatMap_map, Event.tagEnd, unclosed] using opened
  canonical := by
    refine ⟨⟨legible.canonical_bare, fun closed => ?_, fun _ => ?_⟩, trivial⟩
    · rw [show e.bare.selfClosing = false from unclosed] at closed
      cases closed
    · rw [if_neg (by simpa [Element.bare] using legible.plain)]
      exact ⟨Node.apart_of_solid inside.solid, inside.canonical⟩
  solid := by simp [Node.isText]

omit legible

/-- Such a text is read, and the elements are the skeleton of what is read. -/
theorem exists_parse {html : String} {nodes : List Node} (outlines : Outlines html nodes) :
    ∃ roots, parse html = .ok roots ∧ skeleton roots = nodes := by
  have tags : (Event.scan html.toList).map (·.filterMap Event.bare?) = .ok (Node.eventsAll nodes) := by
    have all := outlines.tags []
    rw [List.append_nil, Event.tags_nil] at all
    simpa [Except.map, Event.tags] using all
  cases scanned : Event.scan html.toList with
  | error reason =>
    rw [scanned] at tags
    cases tags
  | ok events =>
    rw [scanned] at tags
    have bare : events.filterMap Event.bare? = Node.eventsAll nodes := Except.ok.inj tags
    refine ⟨forest events, by simp [parse, scanned, Except.map], ?_⟩
    have solid : ∀ n ∈ nodes, n.isBlank = false := by
      intro n member
      have other := outlines.solid n member
      cases n with
      | text t => cases other
      | comment c => rfl
      | element e children => rfl
    rw [skeleton_forest, bare, forest, Building.foldl_eventsAll nodes outlines.canonical,
      Building.foldl_add_roots]
    simpa [Building.finish, Building.closeInners] using solid

end Outlines

end Stencil.Markup
