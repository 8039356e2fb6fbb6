import Stencil.Proofs.Skeleton

/-! Whatever is read is well formed. However broken an input is (tags that are never closed or close nothing,
attributes given twice, angles that open no tag, raw text), reading either refuses it or makes a forest of
which the same can be said at every depth. -/
namespace Stencil.Markup

open Text

/-- An element as reading makes it: named properly, and never changed. -/
structure Element.Formed (e : Element) : Prop extends e.Named where
  pristine : e.pristine = []

theorem read_formed : Read Element.Formed where
  bare s nonempty := ⟨read_named.bare s nonempty, rfl⟩
  put e c r name value formed start read absent :=
    ⟨read_named.put e c r name value formed.toNamed start read absent, formed.pristine⟩
  closed e formed := ⟨read_named.closed e formed.toNamed, formed.pristine⟩

namespace Node

mutual

/-- A well-formed node; in an element of raw text any text may stand that is not empty. -/
def Formed (raw : Bool) : Node → Prop
  | .text t => t ≠ "" ∧ (raw = false → ('<' ∉ t.toList ∨ t = "<") ∧ (allBlank t = true → t = " "))
  | .comment c => ¬['-', '-', '>'] <:+: c.toList
  | .element e children =>
    e.Formed ∧ (e.isLeaf = true → children = []) ∧ FormedAll (Event.isRawText e.tag) children

def FormedAll (raw : Bool) : List Node → Prop
  | [] => True
  | n :: rest => n.Formed raw ∧ FormedAll raw rest

end

theorem formedAll_iff {raw : Bool} {nodes : List Node} : FormedAll raw nodes ↔ ∀ n ∈ nodes, n.Formed raw := by
  induction nodes with
  | nil => simp [FormedAll]
  | cons n rest ih => simp [FormedAll, ih]

end Node

theorem builds_formed : Builds Element.Formed Node.Formed where
  text _ _ run := ⟨run.nonempty, fun _ => ⟨run.angle, run.blank⟩⟩
  raw _ nonempty := ⟨nonempty, by simp⟩
  comment _ _ unclosed := unclosed
  leaf _ _ formed _ := ⟨formed, fun _ => rfl, trivial⟩
  parent _ _ _ formed parent inside := ⟨formed, by simp [parent], Node.formedAll_iff.mpr inside⟩

theorem solid_of_parse {html : String} {roots : List Node} (parsed : parse html = .ok roots) :
    ∀ n ∈ roots, n.isBlank = false := by
  obtain ⟨events, -, rfl⟩ := parse_eq_ok parsed
  intro n member
  simpa using List.of_mem_filter member

/-- Every node that is read is well formed, at any depth. Tags are not empty and made of small letters,
digits, `_`, `-` and `:`; the names of attributes are distinct, not empty, and have neither capitals nor
characters that would end them; nothing is recorded of former values; void and self-closing elements have
nothing inside; comments do not hold the mark that ends them; texts are not empty, and outside of raw text
each is a lone angle or has none, and is a single space if it is blank. Blank text is no root. -/
theorem formed_of_parse {html : String} {roots : List Node} (parsed : parse html = .ok roots) :
    Node.FormedAll false roots ∧ ∀ n ∈ roots, n.isBlank = false :=
  ⟨Node.formedAll_iff.mpr (forall_roots_of_read read_formed builds_formed parsed), solid_of_parse parsed⟩

/-- An attribute given twice, a lone angle, tags that close nothing or are never closed, and raw text behind
which the element stays open. -/
theorem formed_of_parse_broken :
    let html := " <P ID=a id=b>1 < 2</b>\n<BR><!-- - ->--><Style>a<b</styles> c"
    let roots : List Node :=
      [.element { tag := "p", attrs := [⟨"id", "a"⟩] }
        [.text "1 ", .text "<", .text " 2", .text " ", .element { tag := "br" } [], .comment " - ->",
          .element { tag := "style" } [.text "a<b", .text " c"]]]
    parse html = .ok roots ∧ Node.FormedAll false roots ∧ ∀ n ∈ roots, n.isBlank = false := by
  intro html roots
  have events : Event.scan html.toList =
      .ok [.text " ", .opening { tag := "p", attrs := [⟨"id", "a"⟩] }, .text "1 ", .text "<", .text " 2",
        .closing "b", .text " ", .opening { tag := "br" }, .comment " - ->", .opening { tag := "style" },
        .text "a<b", .closing "styles", .text " c"] := by decide +kernel
  have parsed : parse html = .ok roots := by
    rw [parse, events]
    rfl
  exact ⟨parsed, formed_of_parse parsed⟩

end Stencil.Markup
