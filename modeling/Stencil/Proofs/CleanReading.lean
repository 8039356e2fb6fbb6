import Stencil.Proofs.StyleCalm
import Stencil.Proofs.StyleFronts

/-! Reading that skips nothing. What stands in the gap before a rule does not matter to it, so such reading
is said of components behind any gap; in a body and at the top level of a sheet a front with its block is
read in the same way. -/
namespace Stencil.Style

open Text ComponentValue
open Token hiding scan

/-- Behind any gap the components are read as these items, and nothing is skipped. -/
def ReadsBody (cs : List ComponentValue) (rules : List Rule) : Prop :=
  ∀ cs' line, cs'.dropWhile isBetweenItems = cs.dropWhile isBetweenItems → readBody line cs' = (rules, [])

/-- Behind any gap the components are read as these rules of a sheet, and nothing is skipped. -/
def ReadsSheet (cs : List ComponentValue) (rules : List Rule) : Prop :=
  ∀ cs' fresh line, cs'.dropWhile isBetweenRules = cs.dropWhile isBetweenRules →
    readRules fresh line cs' = .ok rules

/-- A front whose tokens all stand for themselves. -/
def plainFront (ts : List Token) : List ComponentValue := ts.map .token

section Fronts

variable {ts : List Token}

theorem plainFront_cons (t : Token) (cs : List ComponentValue) :
    plainFront (t :: ts) ++ cs = .token t :: (plainFront ts ++ cs) := rfl

theorem sourceAll_plainFront (ts : List Token) : sourceAll (plainFront ts) = flat ts := by
  induction ts with
  | nil => rfl
  | cons t ts ih => rw [plainFront, List.map_cons, sourceAll_cons, source_token, flat_cons, ← ih, plainFront]

theorem passes_plainFront (quiet : ∀ t ∈ ts, isQuiet t = true) :
    ∀ c ∈ plainFront ts, c.isCurly = false ∧ c.isSemicolon = false := by
  intro c hc
  obtain ⟨t, ht, rfl⟩ := List.mem_map.1 hc
  have other := quiet t ht
  simp only [isQuiet, Bool.and_eq_true, bne_iff_ne] at other
  exact ⟨rfl, by simp [isSemicolon, isToken, kind?, other.2]⟩

theorem endsPrelude_plainFront (quiet : ∀ t ∈ ts, isQuiet t = true) :
    ∀ c ∈ plainFront ts, c.endsPrelude = false := by
  intro c hc
  obtain ⟨blockless, uncut⟩ := passes_plainFront quiet c hc
  simp [endsPrelude, blockless, uncut]

theorem Groups.plainFront (quiet : ∀ t ∈ ts, isQuiet t = true) {b : Option Bracket} {us rest : List Token}
    {cs : List ComponentValue} {c : Option Token} (g : Groups b us cs c rest) :
    Groups b (ts ++ us) (plainFront ts ++ cs) c rest := by
  induction ts with
  | nil => exact g
  | cons t ts ih =>
    rw [List.forall_mem_cons] at quiet
    have plain := quiet.1
    simp only [isQuiet, Bool.and_eq_true, Option.isNone_iff_eq_none] at plain
    exact .token plain.1.1 (fun b _ => by rw [plain.1.2]; simp) (ih quiet.2)

end Fronts

/-- How rules are read in a place: spaces between them do not matter, and a front with its block is read
before what follows. -/
structure Reading (R : List ComponentValue → List Rule → Prop) : Prop where
  space : ∀ {c : ComponentValue} {cs : List ComponentValue} {rules : List Rule}, c.isSpace = true →
    (R (c :: cs) rules ↔ R cs rules)
  rule : ∀ {ts : List Token} {block : ComponentValue} {rest : List ComponentValue} {inside later : List Rule},
    (∀ t ∈ ts, isQuiet t = true) → (slice (plainFront (point :: ts))).isEmpty = false →
    block.isCurly = true → ReadsBody block.contents inside → R rest later →
    R (plainFront (point :: ts) ++ block :: rest) (.rule (slice (plainFront (point :: ts))) inside :: later)
  atRule : ∀ {t : Token} {name : String} {ts : List Token} {mark : ComponentValue}
      {rest : List ComponentValue} {inside later : List Rule},
    t.kind = .atKeyword name → sameIgnoringAsciiCase name "charset" = false →
    (∀ t ∈ ts, isQuiet t = true) → mark.endsPrelude = true → ReadsBody mark.contents inside → R rest later →
    R (.token t :: (plainFront ts ++ mark :: rest)) (.atRule name (slice (plainFront ts)) inside :: later)

section Bodies

variable {cs : List ComponentValue} {rules later : List Rule}

theorem ReadsBody.read (h : ReadsBody cs rules) (line : Nat) : readBody line cs = (rules, []) :=
  h cs line rfl

theorem readsBody_gap {c : ComponentValue} (gap : c.isBetweenItems = true) :
    ReadsBody (c :: cs) rules ↔ ReadsBody cs rules := by
  rw [ReadsBody, ReadsBody, List.dropWhile_cons_of_pos gap]

theorem readsBody_nil : ReadsBody [] [] := by
  intro cs line gap
  rw [readBody]
  split
  · rfl
  · rename_i h
    rw [gap] at h
    cases h

/-- The item is read as this rule, and nothing in it is skipped. -/
def Item.Gives : Item → Rule → Prop
  | .decl prop value, r => r = .decl prop value
  | .rule selector _ contents, r => ∃ inside, ReadsBody contents inside ∧ r = .rule selector inside
  | .atRule name params _ contents, r => ∃ inside, ReadsBody contents inside ∧ r = .atRule name params inside
  | .skipped _ _, _ => False

theorem readsBody_cons {first : ComponentValue} {after : List ComponentValue} {r : Rule}
    (solid : first.isBetweenItems = false)
    (taken : ∀ line, (Item.take line first after).item.Gives r ∧ ReadsBody (Item.take line first after).rest later) :
    ReadsBody (first :: after) (r :: later) := by
  intro cs line gap
  rw [List.dropWhile_cons_of_neg (by simp [solid])] at gap
  rw [readBody]
  split
  · rename_i h
    rw [gap] at h
    cases h
  · rename_i first' after' h
    rw [gap] at h
    obtain ⟨rfl, rfl⟩ := List.cons.inj h
    obtain ⟨gives, rest⟩ := taken (line + linesIn (cs.takeWhile isBetweenItems))
    dsimp only
    rw [rest.read]
    split <;> rename_i item <;> rw [item] at gives
    · rw [gives]
    · obtain ⟨inside, contents, rfl⟩ := gives
      rw [contents.read]
      rfl
    · obtain ⟨inside, contents, rfl⟩ := gives
      rw [contents.read]
      rfl
    · exact gives.elim

theorem reading_body : Reading ReadsBody where
  space := by
    intro c cs rules space
    exact readsBody_gap (by simp [isBetweenItems, space])
  rule := by
    intro ts block rest inside later quiet filled curly contents behind
    rw [plainFront_cons]
    refine readsBody_cons rfl fun line => ?_
    have quiet' : ∀ t ∈ point :: ts, isQuiet t = true := List.forall_mem_cons.2 ⟨rfl, quiet⟩
    obtain ⟨line', line'', taken⟩ := takeRule_front (plainFront (point :: ts)) rest
      (fun c hc => (passes_plainFront quiet' c hc).1) (fun c hc => (passes_plainFront quiet' c hc).2) curly line none
    rw [filled, if_neg (by decide)] at taken
    have item : Item.take line (.token point) (plainFront ts ++ block :: rest) = _ := taken
    rw [item]
    exact ⟨⟨inside, contents, rfl⟩, behind⟩
  atRule := by
    intro t name ts mark rest inside later kind _ quiet ends contents behind
    refine readsBody_cons (by simp [isBetweenItems, isSpace, isSemicolon, isToken, kind?, kind]) fun line => ?_
    obtain ⟨taken, dropped⟩ := cut_front (plainFront ts) rest mark (p := (!endsPrelude ·))
      (fun c hc => by rw [endsPrelude_plainFront quiet c hc]; rfl) (by rw [ends]; rfl)
    have keyword : (ComponentValue.token t).kind? = some (.atKeyword name) := congrArg some kind
    simp only [Item.take, keyword, AtFront.take, taken, dropped]
    exact ⟨⟨inside, contents, rfl⟩, behind⟩

/-- A declaration goes on to its semicolon. -/
theorem readsBody_decl {prop : String} (t colon mark : Token) {ts : List Token} (ident : t.kind = .ident prop)
    (separates : colon.kind = .colon) (quiet : ∀ t ∈ ts, isQuiet t = true)
    (filled : (slice (plainFront ts)).isEmpty = false) (ends : mark.kind = .semicolon)
    (behind : ReadsBody cs later) :
    ReadsBody (.token t :: .token colon :: (plainFront ts ++ .token mark :: cs))
      (.decl prop (slice (plainFront ts)) :: later) := by
  refine readsBody_cons (by simp [isBetweenItems, isSpace, isSemicolon, isToken, kind?, ident]) fun line => ?_
  have name : (ComponentValue.token t).kind? = some (.ident prop) := congrArg some ident
  have semicolon : (ComponentValue.token mark).isSemicolon = true := by simp [isSemicolon, isToken, kind?, ends]
  obtain ⟨taken, dropped⟩ := cut_front (.token colon :: plainFront ts) cs (.token mark) (p := (!isSemicolon ·))
    (by
      rw [List.forall_mem_cons]
      exact ⟨by simp [isSemicolon, isToken, kind?, separates],
        fun c hc => by rw [(passes_plainFront quiet c hc).2]; rfl⟩)
    (by rw [semicolon]; rfl)
  rw [List.cons_append] at taken dropped
  have value : Item.declValue (.token colon :: (plainFront ts ++ .token mark :: cs)) = .ok (slice (plainFront ts)) := by
    have solid : (ComponentValue.token colon).isSpace = false := by simp [isSpace, isToken, kind?, separates]
    unfold Item.declValue
    dsimp only
    rw [taken, List.dropWhile_cons_of_neg (by simp [solid])]
    simp [isToken, kind?, separates, filled]
  simp only [Item.take, name, value, dropped]
  exact ⟨rfl, (readsBody_gap (by simp [isBetweenItems, semicolon])).2 behind⟩

end Bodies

section Sheets

theorem readsSheet_nil : ReadsSheet [] [] := by
  intro cs fresh line gap
  rw [readRules]
  split
  · rfl
  · rename_i h
    rw [gap] at h
    cases h

theorem reading_sheet : Reading ReadsSheet where
  space := by
    intro c cs rules space
    rw [ReadsSheet, ReadsSheet, List.dropWhile_cons_of_pos (by simp [isBetweenRules, space])]
  rule := by
    intro ts block rest inside later quiet filled curly contents behind cs fresh line gap
    have quiet' : ∀ t ∈ point :: ts, isQuiet t = true := List.forall_mem_cons.2 ⟨rfl, quiet⟩
    obtain ⟨taken, dropped⟩ := cut_front (plainFront (point :: ts)) rest block (p := (!isCurly ·))
      (fun c hc => by rw [(passes_plainFront quiet' c hc).1]; rfl) (by rw [curly]; rfl)
    rw [plainFront_cons] at gap taken dropped
    rw [List.dropWhile_cons_of_neg (by decide)] at gap
    rw [readRules]
    split
    · rename_i h
      rw [gap] at h
      cases h
    · rename_i first after h
      rw [gap] at h
      obtain ⟨rfl, rfl⟩ := List.cons.inj h
      dsimp only
      rw [show (ComponentValue.token point).kind? = some (.delim '.') from rfl]
      dsimp only
      split
      · rename_i h
        rw [dropped] at h
        cases h
      · rename_i block' rest' h
        rw [dropped] at h
        obtain ⟨rfl, rfl⟩ := List.cons.inj h
        rw [taken, filled, if_neg (by decide), contents.read, behind _ _ _ rfl]
        rfl
  atRule := by
    intro t name ts mark rest inside later kind other quiet ends contents behind cs fresh line gap
    rw [List.dropWhile_cons_of_neg (by simp [isBetweenRules, isSpace, isToken, kind?, kind])] at gap
    obtain ⟨line', line'', read⟩ :=
      readRules_atRule fresh line kind other (endsPrelude_plainFront quiet) ends gap
    rw [read, contents.read, behind _ _ _ rfl]
    rfl

end Sheets

end Stencil.Style
