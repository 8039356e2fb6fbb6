import Stencil.Proofs.SelectorTokens
import Stencil.Proofs.StyleGroups
import Stencil.Style.Matching

/-! Selector lists that are cut at their commas, narrowed and joined again. A selector that a comma follows
leaves no bracket and no address open, so in front of any other comma it is read as before; only the last
one may leave something open, and it stays the last. Narrowing the rules of a sheet a second time
therefore changes nothing. -/
namespace Stencil.Style

open Text ComponentValue

/-- Commas and spaces are no brackets. -/
theorem Token.plain_of_kind {t : Token} (h : t.kind = .comma ∨ t.kind = .space) :
    t.opens? = none ∧ t.closes? = none := by
  rw [opens?, closes?]
  rcases h with kind | kind <;> simp [kind]

/-- A token outside of all blocks is one of those gathered, and closes no block around them. -/
theorem Groups.mem_token {b : Option Bracket} {ts rest : List Token} {cs : List ComponentValue} {c : Option Token}
    (g : Groups b ts cs c rest) (t : Token) (member : .token t ∈ cs) :
    t ∈ ts ∧ ∀ b', b = some b' → t.closes? ≠ some b' := by
  induction g with
  | ended => cases member
  | closed _ => cases member
  | token _ closes _ ih =>
    rcases List.mem_cons.mp member with same | later
    · cases same
      exact ⟨List.mem_cons_self, closes⟩
    · exact ⟨List.mem_cons_of_mem _ (ih later).1, (ih later).2⟩
  | block _ g _ _ ih =>
    rcases List.mem_cons.mp member with same | later
    · cases same
    · exact ⟨List.mem_cons_of_mem _ (g.rest_suffix.subset (ih later).1), (ih later).2⟩

namespace Nesting

/-- All blocks are closed behind these tokens. -/
def Closed (ts : List Token) : Prop := (ts.foldl step {}).opened = []

/-- A block that is open to the end is the last component. -/
theorem exists_block_of_opened {n : Nesting} (opened : n.opened ≠ []) :
    ∃ b t cs c, n.finish.getLast? = some (.block b t cs c) := by
  induction size : n.opened.length generalizing n with
  | zero => exact absurd (List.length_eq_zero_iff.mp size) opened
  | succ k ih =>
    obtain ⟨⟨b, t, cs⟩, outer, top⟩ := List.exists_cons_of_ne_nil opened
    have finished := finish_closeInner top
    cases outer with
    | nil =>
      refine ⟨b, t, cs.reverse, none, ?_⟩
      simp [finish, top, closeInners, closeInner, add]
    | cons next outer =>
      have closed : (n.closeInner none).opened.length = k := by
        rw [top] at size
        unfold closeInner
        rw [top]
        simpa [add] using size
      rw [← finished]
      refine ih ?_ closed
      unfold closeInner
      rw [top]
      simp [add]

end Nesting

namespace ComponentValue

open Nesting

variable {ts : List Token}

/-- Behind closed blocks the components start anew. -/
theorem ofTokens_append (closed : Closed ts) (us : List Token) :
    ofTokens (ts ++ us) = ofTokens ts ++ ofTokens us := by
  obtain ⟨cs, c, rest, g⟩ := Groups.total none us
  obtain ⟨rfl, rfl⟩ := g.outside
  have top : (ts.foldl step {}).top = none := by rw [Nesting.top, closed]; rfl
  rw [g.ofTokens_eq, ofTokens, List.foldl_append, g.finish_foldl _ top]
  show ((ts.foldl step {}).addAll cs).finish = (ts.foldl step {}).finish ++ cs
  have none : (ts.foldl step {}).opened = [] := closed
  rw [addAll_outside cs none]
  simp [finish, none, closeInners]

theorem ofTokens_cons {t : Token} (plain : t.opens? = none) (us : List Token) :
    ofTokens (t :: us) = .token t :: ofTokens us := by
  obtain ⟨cs, c, rest, g⟩ := Groups.total none us
  rw [(g.outer plain).ofTokens_eq, g.ofTokens_eq]

theorem closed_append_iff {t : Token} (plain : t.opens? = none) (apart : t.closes? = none) :
    Closed (ts ++ [t]) ↔ Closed ts := by
  have same : ((ts ++ [t]).foldl step {}).opened.length = (ts.foldl step {}).opened.length := by
    rw [List.foldl_append, List.foldl_cons, List.foldl_nil, step_token plain (by simp [apart]),
      length_opened_add]
  rw [Closed, Closed, ← List.length_eq_zero_iff, same, List.length_eq_zero_iff]

theorem closed_of_ofTokens_append {before : List ComponentValue} {t : Token} (plain : t.opens? = none)
    (apart : t.closes? = none) (h : ofTokens (ts ++ [t]) = before ++ [.token t]) : Closed ts := by
  refine Classical.byContradiction fun opened => ?_
  -- A token inside of a block that is open to the end is no component outside of it.
  have still : ¬ Closed (ts ++ [t]) := by rwa [closed_append_iff plain apart]
  obtain ⟨b, o, cs, c, last⟩ := exists_block_of_opened still
  rw [← ofTokens, h] at last
  simp at last

/-- The tokens before a comma outside of all blocks, and those behind it. -/
theorem exists_closed_of_comma {before after : List ComponentValue} {t : Token} (comma : t.kind = .comma)
    (h : ofTokens ts = before ++ .token t :: after) :
    ∃ front back, ts = front ++ t :: back ∧ Closed front ∧ ofTokens front = before ∧ ofTokens back = after := by
  obtain ⟨plain, apart⟩ := Token.plain_of_kind (.inl comma)
  obtain ⟨cs, c, rest, g⟩ := Groups.total none ts
  obtain ⟨rfl, rfl⟩ := g.outside
  rw [g.ofTokens_eq] at h
  subst h
  obtain ⟨front, back, rfl, g', regroup⟩ := g.split
  have unclosed : Groups.Unclosed none before := by
    intro _ _ _ same
    cases same
  have front_eq : ofTokens front = before := by
    simpa using (regroup none [] [] none [] unclosed .ended).ofTokens_eq
  have closed : Closed front := closed_of_ofTokens_append plain apart
    (regroup none [t] [.token t] none [] unclosed (.outer plain .ended)).ofTokens_eq
  cases g' with
  | token _ _ g' => exact ⟨front, _, rfl, closed, front_eq, g'.ofTokens_eq⟩

theorem sourceAll_ofTokens (ts : List Token) : sourceAll (ofTokens ts) = Token.flat ts := by
  obtain ⟨cs, c, rest, g⟩ := Groups.total none ts
  obtain ⟨rfl, rfl⟩ := g.outside
  rw [g.ofTokens_eq, g.source]
  simp

theorem mem_of_token_mem {t : Token} (h : .token t ∈ ofTokens ts) : t ∈ ts := by
  obtain ⟨cs, c, rest, g⟩ := Groups.total none ts
  rw [g.ofTokens_eq] at h
  exact (g.mem_token t h).1

/-- No comma stands outside of the blocks of these tokens. -/
def Whole (ts : List Token) : Prop := ∀ c ∈ ofTokens ts, c.isToken .comma = false

theorem not_whole {front back : List Token} {t : Token} (closed : Closed front) (comma : t.kind = .comma) :
    ¬ Whole (front ++ t :: back) := by
  intro whole
  obtain ⟨plain, -⟩ := Token.plain_of_kind (.inl comma)
  have apart := whole (.token t) (by rw [ofTokens_append closed, ofTokens_cons plain]; simp)
  simp [isToken, kind?, comma] at apart

theorem exists_first_comma (cs : List ComponentValue) : (∀ c ∈ cs, c.isToken .comma = false) ∨
    ∃ before t after, cs = before ++ .token t :: after ∧ t.kind = .comma ∧
      ∀ c ∈ before, c.isToken .comma = false := by
  induction cs with
  | nil => exact .inl (by simp)
  | cons c cs ih =>
    cases comma : c.isToken .comma with
    | true =>
      cases c with
      | token t => exact .inr ⟨[], t, cs, rfl, by simpa [isToken, kind?] using comma, by simp⟩
      | block => cases comma
    | false =>
      rcases ih with none | ⟨before, t, after, rfl, kind, whole⟩
      · exact .inl (List.forall_mem_cons.mpr ⟨comma, none⟩)
      · exact .inr ⟨c :: before, t, after, rfl, kind, List.forall_mem_cons.mpr ⟨comma, whole⟩⟩

/-- Tokens hold no comma outside of their blocks, or there is a first one. -/
theorem whole_or_comma (ts : List Token) : Whole ts ∨ ∃ front t back,
    ts = front ++ t :: back ∧ t.kind = .comma ∧ Closed front ∧ Whole front := by
  rcases exists_first_comma (ofTokens ts) with whole | ⟨before, t, after, split, comma, whole⟩
  · exact .inl whole
  · obtain ⟨front, back, rfl, closed, rfl, -⟩ := exists_closed_of_comma comma split
    exact .inr ⟨front, t, back, rfl, comma, closed, whole⟩

theorem Whole.of_append {us : List Token} (whole : Whole (ts ++ us)) : Whole ts := by
  rcases whole_or_comma ts with this | ⟨front, t, back, rfl, comma, closed, -⟩
  · exact this
  · rw [List.append_assoc, List.cons_append] at whole
    exact absurd whole (not_whole closed comma)

theorem Whole.append {t : Token} (whole : Whole ts) (other : t.kind ≠ .comma) : Whole (ts ++ [t]) := by
  rcases whole_or_comma (ts ++ [t]) with this | ⟨front, u, back, split, comma, closed, -⟩
  · exact this
  · rcases List.eq_nil_or_concat back with rfl | ⟨back, v, rfl⟩
    · cases (List.append_inj' split rfl).2
      exact absurd comma other
    · rw [List.concat_eq_append, ← List.cons_append, ← List.append_assoc] at split
      rw [(List.append_inj' split rfl).1] at whole
      exact absurd whole (not_whole closed comma)

end ComponentValue

/-! Cutting a list at its commas -/

open Nesting (Closed)

theorem splitCommas_ne_nil (cs : List ComponentValue) : splitCommas cs ≠ [] := by
  unfold splitCommas
  split
  · simp
  · split
    · simp
    · split <;> simp

theorem splitCommas_cons {c : ComponentValue} (other : c.isToken .comma = false) (cs : List ComponentValue) :
    ∃ first rest, splitCommas cs = first :: rest ∧ splitCommas (c :: cs) = (c :: first) :: rest := by
  obtain ⟨first, rest, split⟩ := List.exists_cons_of_ne_nil (splitCommas_ne_nil cs)
  refine ⟨first, rest, split, ?_⟩
  rw [splitCommas, other, split]
  rfl

theorem splitCommas_of_not {cs : List ComponentValue} (whole : ∀ c ∈ cs, c.isToken .comma = false) :
    splitCommas cs = [cs] := by
  induction cs with
  | nil => rfl
  | cons c cs ih =>
    rw [List.forall_mem_cons] at whole
    obtain ⟨first, rest, split, same⟩ := splitCommas_cons whole.1 cs
    rw [ih whole.2] at split
    cases split
    exact same

theorem splitCommas_append {before : List ComponentValue} (whole : ∀ c ∈ before, c.isToken .comma = false)
    {t : Token} (comma : t.kind = .comma) (after : List ComponentValue) :
    splitCommas (before ++ .token t :: after) = before :: splitCommas after := by
  induction before with
  | nil =>
    rw [List.nil_append, splitCommas, if_pos]
    simp [isToken, kind?, comma]
  | cons c before ih =>
    rw [List.forall_mem_cons] at whole
    obtain ⟨first, rest, split, same⟩ := splitCommas_cons whole.1 (before ++ .token t :: after)
    rw [ih whole.2] at split
    cases split
    exact same

/-- The selectors of a list, as they are written. -/
def selectors (s : List Char) : List (List Char) :=
  ((splitCommas (scan s)).map fun part => Chars.trim (sourceAll (part.dropWhile isSpace))).filter (!·.isEmpty)

theorem selectors_nil : selectors [] = [] := by
  rw [selectors, scan, Token.scan]
  rfl

theorem splitSelectors_eq (list : String) :
    splitSelectors list = (selectors list.toList).map String.ofList := by
  rw [splitSelectors, selectors, List.filter_map, List.filter_map, List.map_map]
  refine congrArg _ (List.filter_congr fun part _ => ?_)
  rw [Bool.eq_iff_iff]
  simp [slice]

theorem mem_of_mem_splitCommas {cs part : List ComponentValue} (member : part ∈ splitCommas cs) :
    part ⊆ cs := by
  induction cs generalizing part with
  | nil =>
    cases List.mem_singleton.mp member
    exact List.nil_subset _
  | cons c cs ih =>
    cases comma : c.isToken .comma with
    | true =>
      rw [splitCommas, if_pos comma] at member
      rcases List.mem_cons.mp member with rfl | later
      · exact List.nil_subset _
      · exact fun d inside => List.mem_cons_of_mem c (ih later inside)
    | false =>
      obtain ⟨first, rest, split, same⟩ := splitCommas_cons comma cs
      rw [same] at member
      rw [split] at ih
      rcases List.mem_cons.mp member with rfl | later
      · exact List.cons_subset_cons c (ih List.mem_cons_self)
      · exact fun d inside => List.mem_cons_of_mem c (ih (List.mem_cons_of_mem _ later) inside)

/-- What may stand in front of a selector is trimmed anyway. -/
theorem trim_sourceAll_dropWhile {cs : List ComponentValue}
    (blank : ∀ c ∈ cs, c.isSpace = true → ∀ d ∈ c.source, isBlank d = true) :
    Chars.trim (sourceAll (cs.dropWhile isSpace)) = Chars.trim (sourceAll cs) := by
  induction cs with
  | nil => rfl
  | cons c cs ih =>
    obtain ⟨here, later⟩ := List.forall_mem_cons.mp blank
    by_cases space : c.isSpace = true
    · rw [List.dropWhile_cons_of_pos space, ih later, sourceAll_cons, Chars.trim_blank_append _ _ (here space)]
    · rw [List.dropWhile_cons_of_neg space]

/-- What stands before a comma and behind it. -/
theorem source_of_comma {s : List Char} {front back : List Token} {t : Token}
    (split : Token.scan s = front ++ t :: back) (comma : t.kind = .comma) :
    t.source = [','] ∧ s = Token.flat front ++ ',' :: Token.flat back := by
  have written : t.source = [','] := by
    have separates := Token.separates_of_mem_scan (split ▸ List.mem_append_right front List.mem_cons_self)
    rwa [Token.Separates, comma] at separates
  refine ⟨written, ?_⟩
  rw [← Token.flat_scan s, split, Token.flat_append, Token.flat_cons, written]
  simp

section Selectors

variable {s : List Char} (chars : IsSelectorText s)
include chars

theorem selector_of_mem_scan {t : Token} (member : t ∈ Token.scan s) : IsSelectorText t.source := by
  intro c inside
  refine chars c ?_
  rw [← Token.flat_scan s]
  exact List.mem_flatMap.mpr ⟨t, member, inside⟩

theorem isBlank_of_mem_scan {t : Token} (member : t ∈ Token.scan s)
    (space : t.kind = .space ∨ t.kind = .comment) : ∀ d ∈ t.source, isBlank d = true := by
  have written := Token.separates_of_mem_scan member
  have chars := selector_of_mem_scan chars member
  rw [Token.Separates] at written
  rcases space with kind | kind
  · rw [kind] at written
    intro d inside
    rw [isBlank_of_isSelectorChar (chars d inside), ← isAsciiBlank_of_isSelectorChar (chars d inside)]
    exact written d inside
  · rw [kind] at written
    cases chars '/' written

theorem selectors_eq : selectors s =
    ((splitCommas (scan s)).map fun part => Chars.trim (sourceAll part)).filter (!·.isEmpty) := by
  rw [selectors]
  refine congrArg _ (List.map_congr_left fun part member => trim_sourceAll_dropWhile fun c inside space => ?_)
  cases c with
  | token t =>
    have origin := mem_of_token_mem (mem_of_mem_splitCommas member inside)
    rw [source_token]
    refine isBlank_of_mem_scan chars origin ?_
    simpa [isSpace, isToken, kind?] using space
  | block => simp [isSpace, isToken, kind?] at space

theorem selectors_whole (whole : Whole (Token.scan s)) : selectors s = [Chars.trim s].filter (!·.isEmpty) := by
  have split : splitCommas (scan s) = [scan s] := splitCommas_of_not whole
  rw [selectors_eq chars, split, List.map_singleton, scan, sourceAll_ofTokens, Token.flat_scan]

theorem selectors_comma {front back : List Token} {t : Token} (split : Token.scan s = front ++ t :: back)
    (comma : t.kind = .comma) (closed : Closed front) (whole : Whole front) :
    selectors s = [Chars.trim (Token.flat front)].filter (!·.isEmpty) ++ selectors (Token.flat back) := by
  obtain ⟨plain, -⟩ := Token.plain_of_kind (.inl comma)
  have later : Token.scan (Token.flat back) = back := by
    rw [← List.singleton_append, ← List.append_assoc] at split
    exact Token.scan_of_append split
  have chars' : IsSelectorText (Token.flat back) :=
    chars.subset fun c member => (source_of_comma split comma).2 ▸ by simp [member]
  rw [selectors_eq chars, selectors_eq chars', scan, scan, later, split, ofTokens_append closed,
    ofTokens_cons plain, splitCommas_append whole comma, List.map_cons, sourceAll_ofTokens, ← List.filter_append,
    List.singleton_append]

end Selectors

theorem selectors_space {s : List Char} (chars : IsSelectorText (' ' :: s)) :
    selectors (' ' :: s) = selectors (s.dropWhile isAsciiBlank) := by
  have chars' : IsSelectorText (s.dropWhile isAsciiBlank) :=
    chars.subset fun c member => List.mem_cons_of_mem _ ((List.dropWhile_suffix _).subset member)
  have read : Token.scan (' ' :: s) =
      ⟨.space, ' ' :: s.takeWhile isAsciiBlank⟩ :: Token.scan (s.dropWhile isAsciiBlank) := by
    rw [Token.scan, Token.next_blank rfl]
  have blank : ∀ d ∈ ' ' :: s.takeWhile isAsciiBlank, isBlank d = true :=
    isBlank_of_mem_scan chars (read ▸ List.mem_cons_self) (.inl rfl)
  obtain ⟨first, rest, split, same⟩ := splitCommas_cons (c := .token ⟨.space, ' ' :: s.takeWhile isAsciiBlank⟩)
    rfl (scan (s.dropWhile isAsciiBlank))
  rw [selectors_eq chars, selectors_eq chars', split, scan, read, ofTokens_cons rfl, ← scan, same, List.map_cons,
    List.map_cons, sourceAll_cons, source_token, Chars.trim_blank_append _ _ blank]

/-- One selector, trimmed. -/
structure Single (z : List Char) : Prop where
  chars : IsSelectorText z
  filled : z ≠ []
  trimmed : Chars.trim z = z
  whole : Whole (Token.scan z)

/-- No block and no address is open behind this text, whatever follows. -/
structure Sealed (z : List Char) : Prop where
  closed : Closed (Token.scan z)
  apart : ∀ t, Token.Stops t → IsSelectorText t → Token.scan (z ++ t) = Token.scan z ++ Token.scan t

/-- Selectors that can stand side by side: only the last one may leave something open. -/
inductive Row : List (List Char) → Prop
  | nil : Row []
  | last {z : List Char} : Single z → Row [z]
  | cons {z : List Char} {zs : List (List Char)} : Single z → Sealed z → Row zs → Row (z :: zs)

theorem Row.filter (p : List Char → Bool) {zs : List (List Char)} (row : Row zs) : Row (zs.filter p) := by
  induction row with
  | nil => exact .nil
  | @last z single =>
    by_cases kept : p z = true
    · rw [List.filter_cons_of_pos kept]
      exact .last single
    · rw [List.filter_cons_of_neg kept]
      exact .nil
  | @cons z zs single closed _ ih =>
    by_cases kept : p z = true
    · rw [List.filter_cons_of_pos kept]
      exact .cons single closed ih
    · rwa [List.filter_cons_of_neg kept]

namespace Single

variable {z : List Char} (single : Single z)
include single

theorem starts : ∀ d ∈ z.head?, isAsciiBlank d = false := by
  intro d first
  obtain ⟨rest, rfl⟩ := List.head?_eq_some_iff.mp first
  have here := single.chars d List.mem_cons_self
  rw [isAsciiBlank_of_isSelectorChar here, ← isBlank_of_isSelectorChar here]
  exact Chars.isBlank_of_trim_eq single.trimmed

theorem selectors : selectors z = [z] := by
  rw [selectors_whole single.chars single.whole, single.trimmed]
  simp [single.filled]

end Single

theorem Row.first {z : List Char} {zs : List (List Char)} (row : Row (z :: zs)) : Single z := by
  cases row with
  | last single => exact single
  | cons single _ _ => exact single

/-- Selectors side by side are read back, one by one. -/
theorem Row.selectors_join {z : List Char} {zs : List (List Char)} (row : Row (z :: zs)) :
    IsSelectorText (z ++ zs.flatMap (", ".toList ++ ·)) ∧
      selectors (z ++ zs.flatMap (", ".toList ++ ·)) = z :: zs := by
  induction zs generalizing z with
  | nil =>
    rw [List.flatMap_nil, List.append_nil]
    exact ⟨row.first.chars, row.first.selectors⟩
  | cons y zs ih =>
    cases row with
    | cons single shut row =>
      obtain ⟨chars, read⟩ := ih row
      have text : z ++ (y :: zs).flatMap (", ".toList ++ ·) =
          z ++ ',' :: ' ' :: (y ++ zs.flatMap (", ".toList ++ ·)) := by simp
      have starts : (y ++ zs.flatMap (", ".toList ++ ·)).dropWhile isAsciiBlank =
          y ++ zs.flatMap (", ".toList ++ ·) := by
        obtain ⟨d, y, rfl⟩ := List.exists_cons_of_ne_nil row.first.filled
        exact List.dropWhile_cons_of_neg (by simp [row.first.starts d rfl])
      rw [text]
      generalize y ++ zs.flatMap (", ".toList ++ ·) = rest at chars read starts ⊢
      have chars' : IsSelectorText (' ' :: rest) := List.forall_mem_cons.mpr ⟨rfl, chars⟩
      have behind : IsSelectorText (',' :: ' ' :: rest) := List.forall_mem_cons.mpr ⟨rfl, chars'⟩
      have tokens : Token.scan (z ++ ',' :: ' ' :: rest) =
          Token.scan z ++ ⟨.comma, [',']⟩ :: Token.scan (' ' :: rest) := by
        rw [shut.apart _ (by simp [Token.Stops]) behind, Token.scan_comma]
      refine ⟨single.chars.append behind, ?_⟩
      rw [selectors_comma (single.chars.append behind) tokens rfl shut.closed single.whole, Token.flat_scan,
        Token.flat_scan, selectors_space chars', starts, read, single.trimmed]
      simp [single.filled]

/-! The selectors of a list stand side by side -/

theorem closed_of_append {ts gap : List Token} (spaces : ∀ t ∈ gap, t.kind = .space)
    (closed : Closed (ts ++ gap)) : Closed ts := by
  induction gap generalizing ts with
  | nil => rwa [List.append_nil] at closed
  | cons t gap ih =>
    obtain ⟨space, later⟩ := List.forall_mem_cons.mp spaces
    obtain ⟨plain, apart⟩ := Token.plain_of_kind (.inr space)
    rw [← List.singleton_append, ← List.append_assoc] at closed
    exact (closed_append_iff plain apart).mp (ih later closed)

section Front

variable {z b : List Char} (chars : IsSelectorText z) (solid : ∀ d ∈ z.getLast?, d ≠ ' ')
  (blank : ∀ c ∈ b, c = ' ')
include chars solid blank

/-- Spaces at the end of a selector do not hide a comma. -/
theorem whole_of_spaces (whole : Whole (Token.scan (z ++ b))) : Whole (Token.scan z) := by
  have chars' : IsSelectorText b := fun c member => blank c member ▸ rfl
  have stops : Token.Stops b := fun c head => .inl (blank c (List.mem_of_mem_head? head))
  rcases Token.scan_stops chars solid with apart | ⟨ts, front, -, -, opened⟩
  · rw [apart b stops chars'] at whole
    exact whole.of_append
  · have alone := opened [] (by simp [Token.Stops]) (by simp [IsSelectorText])
    rw [List.append_nil, Token.throughParen, Token.scan] at alone
    rw [opened b stops chars'] at whole
    rw [alone]
    exact whole.of_append.append (by simp)

/-- A selector that a comma follows, outside of its blocks, leaves nothing open. -/
theorem sealed_of_comma {y : List Char} {front back : List Token} {t : Token} (beyond : IsSelectorText y)
    (split : Token.scan (z ++ (b ++ ',' :: y)) = front ++ t :: back) (comma : t.kind = .comma)
    (flat_eq : Token.flat front = z ++ b) (closed : Closed front) (whole : Whole front) :
    Sealed z ∧ Whole (Token.scan z) := by
  obtain ⟨written, -⟩ := source_of_comma split comma
  have chars' : IsSelectorText (b ++ ',' :: y) := by
    refine IsSelectorText.append (fun c member => blank c member ▸ rfl) ?_
    exact List.forall_mem_cons.mpr ⟨rfl, beyond⟩
  have stops : Token.Stops (b ++ ',' :: y) := by
    cases b with
    | nil => simp [Token.Stops]
    | cons c b => simp [Token.Stops, blank c]
  rcases Token.scan_stops chars solid with apart | ⟨ts, begun, filled, source, opened⟩
  · obtain ⟨gap, tokens, gap_eq, spaces⟩ := Token.scan_spaces (s := ',' :: y) blank (by simp [isAsciiBlank])
    rw [apart _ stops chars', tokens, Token.scan_comma, ← List.append_assoc] at split
    have same : Token.scan z ++ gap = front := by
      refine Token.append_inj_of_flat split ?_ (by simp) (by simp [written])
      rw [Token.flat_append, Token.flat_scan, gap_eq, flat_eq]
    rw [← same] at closed whole
    exact ⟨⟨closed_of_append spaces closed, apart⟩, whole.of_append⟩
  · -- An address that is still open would take the comma.
    exfalso
    have taken : (Token.throughParen (b ++ ',' :: y)).1 = b ++ ',' :: (Token.throughParen y).1 := by
      have none : ')' ∉ b := fun member => absurd (blank _ member) (by decide)
      rw [Token.throughParen_append, if_neg none, Token.throughParen, if_neg (by decide)]
    rw [opened _ stops chars', taken] at split
    rcases List.append_eq_append_iff.mp split with ⟨gap, rfl, rest⟩ | ⟨gap, rfl, rest⟩
    · cases gap with
      | nil =>
        cases rest
        cases comma
      | cons u gap =>
        obtain ⟨rfl, -⟩ := List.cons.inj rest
        simp [← source] at flat_eq
    · rw [← source] at flat_eq
      simp [filled] at flat_eq

end Front

theorem ends_of_trim {z : List Char} (trimmed : Chars.trim z = z) : ∀ d ∈ z.getLast?, d ≠ ' ' := by
  intro d last
  obtain ⟨front, rfl⟩ := List.getLast?_eq_some_iff.mp last
  rintro rfl
  cases Chars.isBlank_of_trim_eq_last trimmed

/-- A text that starts with no blank is its trimmed form and the spaces behind. -/
theorem exists_spaces {c : Char} {s : List Char} (chars : IsSelectorText (c :: s)) (solid : c ≠ ' ') :
    ∃ z b, c :: s = z ++ b ∧ Chars.trim (c :: s) = z ∧ Chars.trim z = z ∧ z ≠ [] ∧ ∀ d ∈ b, d = ' ' := by
  obtain ⟨before, b, split, blank, blank'⟩ := Chars.trim_split (c :: s)
  have space {d : Char} (member : d ∈ c :: s) (blank : isBlank d = true) : d = ' ' := by
    rwa [isBlank_of_isSelectorChar (chars d member), beq_iff_eq] at blank
  have first : before = [] := by
    cases before with
    | nil => rfl
    | cons d before =>
      rw [List.cons_append, List.cons_append] at split
      obtain ⟨rfl, -⟩ := List.cons.inj split
      exact absurd (space List.mem_cons_self (blank c List.mem_cons_self)) solid
  rw [first, List.nil_append] at split
  have spaces : ∀ d ∈ b, d = ' ' := fun d member =>
    space (split ▸ List.mem_append_right _ member) (blank' d member)
  refine ⟨_, b, split, rfl, Chars.trim_trim _, fun none => solid ?_, spaces⟩
  rw [none, List.nil_append] at split
  exact spaces c (split ▸ List.mem_cons_self)

/-- What stands before the first comma of a list, which starts with no space. -/
theorem row_of_comma {c : Char} {s : List Char} {front back : List Token} {t : Token}
    (chars : IsSelectorText (c :: s)) (solid : c ≠ ' ') (split : Token.scan (c :: s) = front ++ t :: back)
    (comma : t.kind = .comma) (closed : Closed front) (whole : Whole front)
    (row : Row (selectors (Token.flat back))) : Row (selectors (c :: s)) := by
  obtain ⟨-, source⟩ := source_of_comma split comma
  rw [selectors_comma chars split comma closed whole]
  cases before : Token.flat front with
  | nil => exact row
  | cons d x =>
    rw [before] at source
    obtain rfl : c = d := (List.cons.inj source).1
    have chars' : IsSelectorText (c :: x) := chars.subset (source ▸ List.subset_append_left _ _)
    have beyond : IsSelectorText (Token.flat back) :=
      chars.subset fun d member => source ▸ List.mem_append_right _ (List.mem_cons_of_mem _ member)
    obtain ⟨z, b, cut, trim_eq, trimmed, filled, spaces⟩ := exists_spaces chars' solid
    rw [cut] at chars'
    have front_chars : IsSelectorText z := chars'.subset (List.subset_append_left z b)
    rw [source, cut, List.append_assoc] at split
    obtain ⟨shut, alone⟩ := sealed_of_comma front_chars (ends_of_trim trimmed) spaces beyond split comma
      (before.trans cut) closed whole
    have kept : [z].filter (!·.isEmpty) = [z] := by simp [filled]
    rw [trim_eq, kept]
    exact .cons ⟨front_chars, filled, trimmed, alone⟩ shut row

/-- The selectors of every list can stand side by side. -/
theorem row_selectors {s : List Char} (chars : IsSelectorText s) : Row (selectors s) := by
  induction size : s.length using Nat.strongRecOn generalizing s with
  | _ n ih =>
    cases s with
    | nil =>
      rw [selectors_nil]
      exact .nil
    | cons c s =>
      rw [List.length_cons] at size
      by_cases space : c = ' '
      · subst space
        rw [selectors_space chars]
        have suffix : s.dropWhile isAsciiBlank <:+ s := List.dropWhile_suffix _
        have shorter := suffix.length_le
        exact ih _ (by omega) (chars.subset fun d member => List.mem_cons_of_mem _ (suffix.subset member)) rfl
      · rcases whole_or_comma (Token.scan (c :: s)) with whole | ⟨front, t, back, split, comma, closed, whole⟩
        · obtain ⟨z, b, cut, trim_eq, trimmed, filled, spaces⟩ := exists_spaces chars space
          have chars' : IsSelectorText z := chars.subset (cut ▸ List.subset_append_left z b)
          have alone := whole_of_spaces chars' (ends_of_trim trimmed) spaces (cut ▸ whole)
          have kept : [z].filter (!·.isEmpty) = [z] := by simp [filled]
          rw [selectors_whole chars whole, trim_eq, kept]
          exact .last ⟨chars', filled, trimmed, alone⟩
        · obtain ⟨-, source⟩ := source_of_comma split comma
          refine row_of_comma chars space split comma closed whole (ih _ ?_ ?_ rfl)
          · have lengths := congrArg List.length source
            simp only [List.length_cons, List.length_append] at lengths
            omega
          · exact chars.subset fun d member => source ▸ by simp [member]

/-! Narrowing -/

/-- Selectors of a list that are joined again are read back, in their order. -/
theorem splitSelectors_join {list : String} (chars : IsSelectorText list.toList) (p : String → Bool) :
    splitSelectors (Text.join ", " ((splitSelectors list).filter p)) = (splitSelectors list).filter p := by
  rw [splitSelectors_eq list, List.filter_map]
  have row := (row_selectors chars).filter (p ∘ String.ofList)
  generalize (selectors list.toList).filter (p ∘ String.ofList) = zs at row
  cases zs with
  | nil =>
    rw [splitSelectors_eq]
    exact congrArg (List.map String.ofList) selectors_nil
  | cons z zs =>
    have text : (Text.join ", " ((z :: zs).map String.ofList)).toList = z ++ zs.flatMap (", ".toList ++ ·) := by
      rw [List.map_cons, Text.join, toList_joinOnto, List.flatMap_map]
      simp
    rw [splitSelectors_eq, text, row.selectors_join.2]

namespace Rule

/-- A rule stands in a sheet, at its top or inside of at-rules. -/
inductive StandsIn (r : Rule) : List Rule → Prop
  | here (rest : List Rule) : StandsIn r (r :: rest)
  | later (other : Rule) {rest : List Rule} : StandsIn r rest → StandsIn r (other :: rest)
  | inside (name params : String) (rest : List Rule) {body : List Rule} :
      StandsIn r body → StandsIn r (.atRule name params body :: rest)

theorem StandsIn.append {r first : Rule} (stands : r.StandsIn [first]) (rest : List Rule) :
    r.StandsIn (first :: rest) := by
  cases stands with
  | here => exact .here rest
  | later _ none => cases none
  | inside _ _ _ deeper => exact .inside _ _ _ deeper

end Rule

/-- The selectors of the rules of a sheet, also inside of its at-rules, are texts without quotes, escapes and
comments. -/
def PlainSelectors (rules : List Rule) : Prop :=
  ∀ selector body, (Rule.rule selector body).StandsIn rules → IsSelectorText selector.toList

namespace Candidate

variable (e : Candidate)

theorem matching_matching {list : String} (chars : IsSelectorText list.toList) :
    e.matching (Text.join ", " (e.matching list)) = e.matching list := by
  have read := splitSelectors_join chars fun s => e.couldMatch (Selector.parse s).subject
  rw [← matching] at read
  rw [matching, read, matching, List.filter_filter]
  simp

section Rules

variable {e} {kept : Rule}

theorem keepRule_rule {selector : String} {body : List Rule} :
    e.keepRule (.rule selector body) = some kept ↔
      e.matching selector ≠ [] ∧ kept = .rule (Text.join ", " (e.matching selector)) body := by
  rw [keepRule]
  cases e.matching selector with
  | nil => simp
  | cons => simp [eq_comm]

theorem keepRule_atRule {name params : String} {body : List Rule} :
    e.keepRule (.atRule name params body) = some kept ↔
      e.keep body ≠ [] ∧ kept = .atRule name params (e.keep body) := by
  rw [keepRule]
  cases e.keep body with
  | nil => simp
  | cons => simp [eq_comm]

end Rules

mutual

theorem keepRule_keepRule {r kept : Rule} (chars : PlainSelectors [r]) (h : e.keepRule r = some kept) :
    e.keepRule kept = some kept := by
  cases r with
  | rule selector body =>
    obtain ⟨filled, rfl⟩ := keepRule_rule.mp h
    have same := e.matching_matching (chars selector body (.here []))
    rw [keepRule_rule, same]
    exact ⟨filled, rfl⟩
  | atRule name params body =>
    obtain ⟨filled, rfl⟩ := keepRule_atRule.mp h
    have same : e.keep (e.keep body) = e.keep body :=
      keep_keep fun selector inner stands => chars selector inner (.inside name params [] stands)
    rw [keepRule_atRule, same]
    exact ⟨filled, rfl⟩
  | decl prop value => cases h

theorem keep_keep {rules : List Rule} (chars : PlainSelectors rules) : e.keep (e.keep rules) = e.keep rules := by
  cases rules with
  | nil => rfl
  | cons r rest =>
    have later : e.keep (e.keep rest) = e.keep rest :=
      keep_keep fun selector body stands => chars selector body (.later r stands)
    rw [keep]
    cases h : e.keepRule r with
    | none => exact later
    | some kept =>
      have same : e.keepRule kept = some kept :=
        keepRule_keepRule (fun selector body stands => chars selector body (stands.append rest)) h
      show e.keep (kept :: e.keep rest) = kept :: e.keep rest
      rw [keep, same, later]

end

/-- Narrowing the rules of a sheet to an element a second time changes nothing, because the selectors that a
rule has kept are read back from the list they are joined to. -/
theorem keep_idempotent (e : Candidate) :
    (∀ rules, PlainSelectors rules → e.keep (e.keep rules) = e.keep rules) ∧
      ∀ list : String, IsSelectorText list.toList →
        splitSelectors (Text.join ", " (e.matching list)) = e.matching list := by
  constructor
  · intro rules texts
    exact e.keep_keep texts
  · intro list chars
    exact splitSelectors_join chars _

/-- The last selector that is kept leaves a parenthesis open; it takes the comma inside. -/
theorem keep_idempotent_media :
    let e : Candidate := { tag := "b", classes := ["a"] }
    let sheet : List Rule := [.atRule "media" "print" [.rule " .a ,.c, , b.a:not(.x, .y" [], .rule ".d" []]]
    let kept : List Rule := [.atRule "media" "print" [.rule ".a, b.a:not(.x, .y" []]]
    e.keep sheet = kept ∧ e.keep kept = kept ∧
      splitSelectors ".a, b.a:not(.x, .y" = [".a", "b.a:not(.x, .y"] := by
  intro e sheet kept
  have chars : IsSelectorText " .a ,.c, , b.a:not(.x, .y".toList := List.all_eq_true.mp (by decide +kernel)
  have chars' : IsSelectorText ".d".toList := List.all_eq_true.mp (by decide +kernel)
  have matched : e.matching " .a ,.c, , b.a:not(.x, .y" = [".a", "b.a:not(.x, .y"] := by decide +kernel
  have dropped : e.matching ".d" = [] := by decide +kernel
  have narrowed : e.keep sheet = kept := by
    simp only [sheet, keep, keepRule, matched, dropped]
    rfl
  have selectors : PlainSelectors sheet := by
    intro selector body stands
    dsimp only [sheet] at stands
    rcases stands with _ | ⟨_, ⟨⟩⟩ | ⟨_, _, _, _ | ⟨_, _ | ⟨_, ⟨⟩⟩⟩⟩
    · exact chars
    · exact chars'
  obtain ⟨twice, read⟩ := keep_idempotent e
  have same := twice sheet selectors
  have listed := read " .a ,.c, , b.a:not(.x, .y" chars
  rw [narrowed] at same
  rw [matched] at listed
  exact ⟨narrowed, same, listed⟩

end Candidate

end Stencil.Style
