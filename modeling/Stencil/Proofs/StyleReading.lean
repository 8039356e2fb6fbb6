import Stencil.Proofs.StyleGroups

/-! Reading components that are taken alike. The items read from the two bodies are the same, unless a text
among them holds a line feed. -/
namespace Stencil.Style

open Text

namespace Rule

mutual

/-- The texts of a rule and of all that stands in its body. -/
def texts : Rule → List String
  | .rule selector body => selector :: textsAll body
  | .atRule name params body => name :: params :: textsAll body
  | .decl prop value => [prop, value]

def textsAll : List Rule → List String
  | [] => []
  | r :: rest => r.texts ++ textsAll rest

end

@[simp] theorem textsAll_append (a b : List Rule) : textsAll (a ++ b) = textsAll a ++ textsAll b := by
  induction a with
  | nil => rfl
  | cons r a ih => simp [textsAll, ih]

/-- No text holds a line feed. -/
def OneLine (rules : List Rule) : Prop := ∀ s ∈ textsAll rules, '\n' ∉ s.toList

instance (rules : List Rule) : Decidable (OneLine rules) :=
  show Decidable (∀ s ∈ textsAll rules, '\n' ∉ s.toList) from List.decidableBAll _ _

/-- Two lists of rules are the same, or a text of each holds a line feed. -/
def Agree (a b : List Rule) : Prop := b = a ∨ (¬ OneLine a ∧ ¬ OneLine b)

theorem oneLine_append {a b : List Rule} : OneLine (a ++ b) ↔ OneLine a ∧ OneLine b := by
  simp only [OneLine, textsAll_append, List.forall_mem_append]

namespace Agree

variable {a a' b b' : List Rule}

theorem refl (a : List Rule) : Agree a a := .inl rfl

theorem append (h : Agree a a') (h' : Agree b b') : Agree (a ++ b) (a' ++ b') := by
  unfold Agree
  rw [oneLine_append, oneLine_append]
  rcases h with rfl | ⟨ha, ha'⟩
  · rcases h' with rfl | ⟨hb, hb'⟩
    · exact .inl rfl
    · exact .inr ⟨fun h => hb h.2, fun h => hb' h.2⟩
  · exact .inr ⟨fun h => ha h.1, fun h => ha' h.1⟩

theorem eq_of_left (h : Agree a b) (one : OneLine a) : b = a := by
  rcases h with h | ⟨h, -⟩
  · exact h
  · exact absurd one h

theorem eq_of_right (h : Agree a b) (one : OneLine b) : b = a := by
  rcases h with h | ⟨-, h⟩
  · exact h
  · exact absurd one h

theorem decl {prop value value' : String} (h : SameLine value value') :
    Agree [.decl prop value] [.decl prop value'] := by
  rcases h with rfl | ⟨h, h'⟩
  · exact .inl rfl
  · exact .inr ⟨fun one => one value (by simp [textsAll, texts]) h,
      fun one => one value' (by simp [textsAll, texts]) h'⟩

/-- Nodes of one kind agree if their texts and their bodies do. -/
theorem node (mk : String → List Rule → Rule) (own : ∀ s b, s ∈ textsAll [mk s b])
    (inner : ∀ s b, textsAll b ⊆ textsAll [mk s b]) {s s' : String} (h : SameLine s s') (hb : Agree b b') :
    Agree [mk s b] [mk s' b'] := by
  rcases h with rfl | ⟨h, h'⟩
  · rcases hb with rfl | ⟨hb, hb'⟩
    · exact .inl rfl
    · exact .inr ⟨fun one => hb fun t ht => one t (inner _ b ht),
        fun one => hb' fun t ht => one t (inner _ b' ht)⟩
  · exact .inr ⟨fun one => one s (own s b) h, fun one => one s' (own s' b') h'⟩

theorem rule {s s' : String} (h : SameLine s s') (hb : Agree b b') : Agree [.rule s b] [.rule s' b'] :=
  node .rule (by simp [textsAll, texts]) (by simp [textsAll, texts]) h hb

theorem atRule {name p p' : String} (h : SameLine p p') (hb : Agree b b') :
    Agree [.atRule name p b] [.atRule name p' b'] :=
  node (.atRule name) (by simp [textsAll, texts]) (by simp [textsAll, texts]) h hb

end Agree

end Rule

theorem SameLine.isEmpty {s t : String} (h : SameLine s t) : t.isEmpty = s.isEmpty := by
  have filled {u : String} (hu : '\n' ∈ u.toList) : u.isEmpty = false := by
    cases he : u.isEmpty with
    | false => rfl
    | true => rw [String.isEmpty_iff.1 he] at hu; cases hu
  rcases h with rfl | ⟨h, h'⟩
  · rfl
  · rw [filled h, filled h']

namespace ComponentValue

variable {x x' : ComponentValue} {cs cs' : List ComponentValue}

theorem Alike.kind? (h : Alike x x') : x'.kind? = x.kind? := by
  cases h with
  | token h => exact congrArg some h.kind
  | block _ _ => rfl

theorem Alike.isToken (h : Alike x x') (kind : Token.Kind) : x'.isToken kind = x.isToken kind := by
  unfold ComponentValue.isToken; rw [h.kind?]

theorem Alike.isSpace (h : Alike x x') : x'.isSpace = x.isSpace := by
  unfold ComponentValue.isSpace; rw [h.isToken, h.isToken]

theorem Alike.isSemicolon (h : Alike x x') : x'.isSemicolon = x.isSemicolon := h.isToken _

theorem Alike.isCurly (h : Alike x x') : x'.isCurly = x.isCurly := by
  cases h with
  | token _ => rfl
  | @block b _ _ _ _ _ _ _ _ => cases b <;> rfl

theorem Alike.endsPrelude (h : Alike x x') : x'.endsPrelude = x.endsPrelude := by
  unfold ComponentValue.endsPrelude; rw [h.isSemicolon, h.isCurly]

theorem Alike.isBetweenItems (h : Alike x x') : x'.isBetweenItems = x.isBetweenItems := by
  unfold ComponentValue.isBetweenItems; rw [h.isSpace, h.isSemicolon, h.isToken]

/-- What is read of a component that ends the front of a rule. -/
theorem Alike.contents (h : Alike x x') (ends : x.endsPrelude = true) : AlikeAll x.contents x'.contents := by
  cases h with
  | token _ => exact .nil
  | @block b _ _ _ _ _ _ _ inside =>
    cases b with
    | curly => exact inside rfl
    | paren => cases ends
    | square => cases ends

namespace AlikeAll

theorem takeWhile {p : ComponentValue → Bool} (hp : ∀ {x x'}, Alike x x' → p x' = p x)
    (h : AlikeAll cs cs') : AlikeAll (cs.takeWhile p) (cs'.takeWhile p) := by
  induction cs generalizing cs' with
  | nil =>
    cases h with
    | nil => exact .nil
    | @space t kind blank =>
      rw [List.takeWhile_cons]
      split
      · exact .space kind blank
      · exact .nil
  | cons x cs ih =>
    cases h with
    | cons first rest =>
      rw [List.takeWhile_cons, List.takeWhile_cons, hp first]
      split
      · exact .cons first (ih rest)
      · exact .nil

theorem dropWhile {p : ComponentValue → Bool} (hp : ∀ {x x'}, Alike x x' → p x' = p x)
    (h : AlikeAll cs cs') : AlikeAll (cs.dropWhile p) (cs'.dropWhile p) := by
  induction cs generalizing cs' with
  | nil =>
    cases h with
    | nil => exact .nil
    | @space t kind blank =>
      rw [List.dropWhile_cons]
      split
      · exact .nil
      · exact .space kind blank
  | cons x cs ih =>
    cases h with
    | cons first rest =>
      rw [List.dropWhile_cons, List.dropWhile_cons, hp first]
      split
      · exact ih rest
      · exact .cons first rest

/-- What is left when spaces are dropped too: nothing of both, or components that are taken alike. -/
theorem dropWhile_cases {p : ComponentValue → Bool} (hp : ∀ {x x'}, Alike x x' → p x' = p x)
    (spaces : ∀ t : Token, t.kind = .space → p (.token t) = true) (h : AlikeAll cs cs') :
    (cs.dropWhile p = [] ∧ cs'.dropWhile p = []) ∨
      ∃ x r x' r', cs.dropWhile p = x :: r ∧ cs'.dropWhile p = x' :: r' ∧ Alike x x' ∧ AlikeAll r r' := by
  induction cs generalizing cs' with
  | nil =>
    cases h with
    | nil => exact .inl ⟨rfl, rfl⟩
    | space kind _ => exact .inl ⟨rfl, by rw [List.dropWhile_cons_of_pos (spaces _ kind)]; rfl⟩
  | cons x cs ih =>
    cases h with
    | cons first rest =>
      rw [List.dropWhile_cons, List.dropWhile_cons, hp first]
      split
      · exact ih rest
      · exact .inr ⟨_, _, _, _, rfl, rfl, first, rest⟩

theorem source (h : AlikeAll cs cs') : ∃ s blanks, sourceAll cs' = s ++ blanks ∧
    (∀ c ∈ blanks, isBlank c = true) ∧ Reads (sourceAll cs) s := by
  induction cs generalizing cs' with
  | nil =>
    cases h with
    | nil => exact ⟨[], [], rfl, nofun, .refl []⟩
    | @space t kind blank => exact ⟨[], t.source, by simp, blank, .refl []⟩
  | cons x cs ih =>
    cases h with
    | @cons _ x' _ cs' first rest =>
      obtain ⟨s, blanks, hs, blank, reads⟩ := ih rest
      refine ⟨x'.source ++ s, blanks, by rw [sourceAll_cons, hs, List.append_assoc], blank, ?_⟩
      rw [sourceAll_cons]
      exact first.source.append reads

theorem slice (h : AlikeAll cs cs') : SameLine (slice cs) (slice cs') := by
  obtain ⟨s, blanks, hs, blank, reads⟩ := h.source
  unfold ComponentValue.slice
  rw [hs, Chars.trim_append_blank s blanks blank]
  exact reads.trimmed

end AlikeAll

end ComponentValue

open ComponentValue

variable {cs cs' : List ComponentValue}

theorem passes_alike {x x' : ComponentValue} (h : Alike x x') : (!x'.endsPrelude) = !x.endsPrelude := by
  rw [h.endsPrelude]

theorem passes_space (t : Token) (kind : t.kind = .space) :
    (!(ComponentValue.token t).endsPrelude) = true := by
  simp [endsPrelude, isSemicolon, isToken, kind?, kind, isCurly]

theorem AtFront.take_alike (h : AlikeAll cs cs') (line line' : Nat) :
    SameLine (take line cs).params (take line' cs').params ∧
      AlikeAll (take line cs).contents (take line' cs').contents ∧
      AlikeAll (take line cs).rest (take line' cs').rest := by
  have front := (h.takeWhile (p := (!endsPrelude ·)) passes_alike).slice
  rcases h.dropWhile_cases (p := (!endsPrelude ·)) passes_alike passes_space with
    ⟨hx, hx'⟩ | ⟨x, r, x', r', hx, hx', alike, rest⟩
  · simp only [take, hx, hx']
    exact ⟨front, .nil, .nil⟩
  · have ends : x.endsPrelude = true := by simpa using not_of_dropWhile hx
    simp only [take, hx, hx']
    exact ⟨front, alike.contents ends, rest⟩

namespace Item

/-- Two items that are read alike. -/
inductive Alike : Item → Item → Prop
  | decl {prop value value' : String} : SameLine value value' → Alike (.decl prop value) (.decl prop value')
  | rule {s s' : String} {line line' : Nat} {cs cs' : List ComponentValue} :
      SameLine s s' → AlikeAll cs cs' → Alike (.rule s line cs) (.rule s' line' cs')
  | atRule {name p p' : String} {line line' : Nat} {cs cs' : List ComponentValue} :
      SameLine p p' → AlikeAll cs cs' → Alike (.atRule name p line cs) (.atRule name p' line' cs')
  | skipped {line line' : Nat} {s s' : String} : Alike (.skipped line s) (.skipped line' s')

theorem declValue_alike (h : AlikeAll cs cs') :
    (∃ v v', declValue cs = .ok v ∧ declValue cs' = .ok v' ∧ SameLine v v') ∨
      ∃ n n', declValue cs = .error n ∧ declValue cs' = .error n' := by
  have item := h.takeWhile (p := (!·.isSemicolon)) fun h => by rw [h.isSemicolon]
  have spaces (t : Token) (kind : t.kind = .space) : (ComponentValue.token t).isSpace = true := by
    simp [isSpace, isToken, kind?, kind]
  rcases item.dropWhile_cases (p := isSpace) (fun h => h.isSpace) spaces with
    ⟨hx, hx'⟩ | ⟨x, r, x', r', hx, hx', alike, rest⟩
  · simp only [declValue, hx, hx']
    exact .inr ⟨_, _, rfl, rfl⟩
  · simp only [declValue, hx, hx', alike.isToken, rest.slice.isEmpty]
    split
    · split
      · exact .inr ⟨_, _, rfl, rfl⟩
      · exact .inl ⟨_, _, rfl, rfl, rest.slice⟩
    · exact .inr ⟨_, _, rfl, rfl⟩

theorem takeRule_alike (h : AlikeAll cs cs') (line line' : Nat) (blame blame' : Option Nat) :
    Alike (takeRule line blame cs).item (takeRule line' blame' cs').item ∧
      AlikeAll (takeRule line blame cs).rest (takeRule line' blame' cs').rest := by
  have front := (h.takeWhile (p := (!endsPrelude ·)) passes_alike).slice
  rcases h.dropWhile_cases (p := (!endsPrelude ·)) passes_alike passes_space with
    ⟨hx, hx'⟩ | ⟨x, r, x', r', hx, hx', alike, rest⟩
  · simp only [takeRule, hx, hx']
    exact ⟨.skipped, .nil⟩
  · simp only [takeRule, hx, hx', alike.isCurly, front.isEmpty]
    split
    · rename_i curly
      split
      · exact ⟨.skipped, rest⟩
      · exact ⟨.rule front (alike.contents (by simp [endsPrelude, curly])), rest⟩
    · exact ⟨.skipped, rest⟩

theorem take_alike {first first' : ComponentValue} {after after' : List ComponentValue}
    (h : ComponentValue.Alike first first') (h' : AlikeAll after after') (line line' : Nat) :
    Alike (take line first after).item (take line' first' after').item ∧
      AlikeAll (take line first after).rest (take line' first' after').rest := by
  unfold take
  rw [h.kind?]
  split
  · obtain ⟨params, contents, rest⟩ :=
      AtFront.take_alike h' (line + linesIn [first]) (line' + linesIn [first'])
    exact ⟨.atRule params contents, rest⟩
  · rcases declValue_alike h' with ⟨v, v', hv, hv', same⟩ | ⟨n, n', hn, hn'⟩
    · rw [hv, hv']
      exact ⟨.decl same, h'.dropWhile (p := (!·.isSemicolon)) fun h => by rw [h.isSemicolon]⟩
    · rw [hn, hn']
      exact takeRule_alike (.cons h h') _ _ _ _
  · exact takeRule_alike (.cons h h') _ _ _ _

/-- What an item adds to the rules. -/
def read : Item → List Rule
  | .decl prop value => [.decl prop value]
  | .rule selector inside contents => [.rule selector (readBody inside contents).1]
  | .atRule name params inside contents => [.atRule name params (readBody inside contents).1]
  | .skipped _ _ => []

theorem Alike.read {i i' : Item} (h : Alike i i')
    (body : ∀ {cs'}, AlikeAll i.contents cs' → ∀ line line',
      Rule.Agree (readBody line i.contents).1 (readBody line' cs').1) : Rule.Agree i.read i'.read := by
  cases h with
  | decl same => exact .decl same
  | rule same contents => exact .rule same (body contents _ _)
  | atRule same contents => exact .atRule same (body contents _ _)
  | skipped => exact .refl []

end Item

theorem readBody_nil {line : Nat} (h : cs.dropWhile isBetweenItems = []) : (readBody line cs).1 = [] := by
  rw [readBody]
  split
  · rfl
  · rename_i h'; rw [h] at h'; cases h'

theorem readBody_cons (line : Nat) {first : ComponentValue} {after : List ComponentValue}
    (h : cs.dropWhile isBetweenItems = first :: after) :
    ∃ line', (readBody line cs).1 = (Item.take line' first after).item.read ++
      (readBody (Item.take line' first after).line (Item.take line' first after).rest).1 := by
  refine ⟨line + linesIn (cs.takeWhile isBetweenItems), ?_⟩
  rw [readBody]
  split
  · rename_i h'; rw [h] at h'; cases h'
  · rename_i first' after' h'
    rw [h] at h'
    obtain ⟨rfl, rfl⟩ := List.cons.inj h'
    dsimp only
    split <;> rename_i item <;> rw [item] <;> rfl

/-- Induction along a body: on the contents of the first item, and on what follows it. -/
theorem body_induction {P : List ComponentValue → Prop}
    (nil : ∀ cs, cs.dropWhile isBetweenItems = [] → P cs)
    (cons : ∀ cs first after, cs.dropWhile isBetweenItems = first :: after →
      (∀ line, P (Item.take line first after).item.contents) →
      (∀ line, P (Item.take line first after).rest) → P cs)
    (cs : List ComponentValue) : P cs := by
  induction weight : weightAll cs using Nat.strong_induction_on generalizing cs with
  | _ n ih =>
    cases hd : cs.dropWhile isBetweenItems with
    | nil => exact nil cs hd
    | cons first after =>
      have whole := weightAll_dropWhile_le isBetweenItems cs
      rw [hd, weight] at whole
      have lighter (line : Nat) := Item.take_weight line first after
      exact cons cs first after hd (fun line => ih _ (by have := lighter line; omega) _ rfl)
        fun line => ih _ (by have := lighter line; omega) _ rfl

/-- Bodies that are taken alike have the same items, unless a text among them holds a line feed. -/
theorem readBody_alike (h : AlikeAll cs cs') (line line' : Nat) :
    Rule.Agree (readBody line cs).1 (readBody line' cs').1 := by
  have spaces (t : Token) (kind : t.kind = .space) : (ComponentValue.token t).isBetweenItems = true := by
    simp [isBetweenItems, isSpace, isToken, kind?, kind]
  induction cs using body_induction generalizing cs' line line' with
  | nil cs hd =>
    rcases h.dropWhile_cases (p := isBetweenItems) (fun h => h.isBetweenItems) spaces with
      ⟨_, hd'⟩ | ⟨x, r, x', r', hd', -⟩
    · rw [readBody_nil hd, readBody_nil hd']
      exact .refl []
    · rw [hd] at hd'; cases hd'
  | cons cs first after hd inside later =>
    rcases h.dropWhile_cases (p := isBetweenItems) (fun h => h.isBetweenItems) spaces with
      ⟨none, -⟩ | ⟨x, r, x', r', hx, hd', alike, rest⟩
    · rw [hd] at none; cases none
    rw [hd] at hx
    obtain ⟨rfl, rfl⟩ := List.cons.inj hx
    obtain ⟨start, read⟩ := readBody_cons line hd
    obtain ⟨start', read'⟩ := readBody_cons line' hd'
    obtain ⟨item, after⟩ := Item.take_alike alike rest start start'
    rw [read, read']
    exact (item.read fun contents => inside start contents).append (later start after _ _)

end Stencil.Style
