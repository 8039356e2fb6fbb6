import Stencil.Proofs.StyleInk

/-! Sheets of plain rules. At the top level such a sheet is a row of fronts, each with its block. Read as a
body, it has the same rules just if no front is cut by a semicolon or a closing brace and none starts
like a declaration. -/
namespace Stencil.Style

open Text ComponentValue

/-- What reading at the top level can come to behind the first rule: nothing is left, or a rule is read. -/
theorem readRules_cases {line : Nat} {cs : List ComponentValue} {rules : List Rule}
    (h : (readRules false line cs).outcome = .ok rules) :
    (cs.dropWhile isBetweenRules = [] ∧ rules = []) ∨
      ∃ first after, cs.dropWhile isBetweenRules = first :: after ∧
        ((∃ name line' line'' rest, first.kind? = some (.atKeyword name) ∧
            rules = .atRule name (AtFront.take line' after).params
              (readBody (AtFront.take line' after).inside (AtFront.take line' after).contents).1 :: rest ∧
            (readRules false line'' (AtFront.take line' after).rest).outcome = .ok rest) ∨
          ∃ block rest line' line'' rules', (∀ name, first.kind? ≠ some (.atKeyword name)) ∧
            (first :: after).dropWhile (!·.isCurly) = block :: rest ∧
            (slice ((first :: after).takeWhile (!·.isCurly))).isEmpty = false ∧
            rules = .rule (slice ((first :: after).takeWhile (!·.isCurly)))
              (readBody line' block.contents).1 :: rules' ∧
            (readRules false line'' rest).outcome = .ok rules') := by
  have mapped {x : Except SyntaxError (List Rule)} {r : Rule} (h : x.map (r :: ·) = .ok rules) :
      ∃ rest, rules = r :: rest ∧ x = .ok rest := by
    cases x with
    | error e => cases h
    | ok rest => exact ⟨rest, (Except.ok.inj h).symm, rfl⟩
  rw [readRules] at h
  split at h
  · rename_i hd
    exact .inl ⟨hd, (Except.ok.inj h).symm⟩
  · rename_i first after hd
    refine .inr ⟨first, after, hd, ?_⟩
    dsimp only at h
    split at h
    · rename_i name kind
      obtain ⟨rest, rfl, hrest⟩ := mapped h
      exact .inl ⟨name, _, _, rest, kind, rfl, hrest⟩
    · rename_i other
      split at h
      · cases h
      · rename_i block rest hb
        split at h
        · cases h
        · rename_i filled
          obtain ⟨rules', rfl, hrest⟩ := mapped h
          exact .inr ⟨block, rest, _, _, rules', fun name kind => other name kind, hb,
            Bool.eq_false_iff.2 filled, rfl, hrest⟩

/-- Only a first rule that names the character set is read in another way than later ones. -/
theorem readRules_fresh {line : Nat} {cs : List ComponentValue} {rules : List Rule}
    (h : (readRules true line cs).outcome = .ok rules) :
    (readRules false line cs).outcome = .ok rules ∨
      ∃ first after name line', cs.dropWhile isBetweenRules = first :: after ∧
        first.kind? = some (.atKeyword name) ∧
        (readRules false line' (skipCharset after).2).outcome = .ok rules := by
  rw [readRules] at h ⊢
  split at h
  · exact .inl h
  · rename_i first after hd
    dsimp only at h ⊢
    split at h
    · rename_i name kind
      split at h
      · exact .inr ⟨first, after, name, _, hd, kind, h⟩
      · rw [Bool.false_and, if_neg (by decide)]
        exact .inl h
    · exact .inl h

theorem readRules_eq_nil_iff (line : Nat) {cs : List ComponentValue} :
    (readRules false line cs).outcome = .ok [] ↔ ∀ c ∈ cs, c.isBetweenRules = true := by
  constructor
  · intro h
    rcases readRules_cases h with ⟨hd, -⟩ | ⟨first, after, hd, ⟨_, _, _, _, _, none, -⟩ |
      ⟨_, _, _, _, _, _, _, _, none, -⟩⟩
    · exact List.dropWhile_eq_nil_iff.1 hd
    · cases none
    · cases none
  · intro between
    have hd := List.dropWhile_eq_nil_iff.2 between
    rw [readRules]
    split
    · rfl
    · rename_i hd'
      rw [hd] at hd'
      cases hd'

/-- The front of a plain rule: what stands before its block. -/
structure IsFront (front : List ComponentValue) : Prop where
  start : ∃ first after, front = first :: after ∧ first.isBetweenRules = false ∧
    ∀ name, first.kind? ≠ some (.atKeyword name)
  blockless : ∀ c ∈ front, c.isCurly = false
  text : (slice front).isEmpty = false

/-- The components of a sheet of plain rules: fronts with their blocks, and what stands between them. -/
inductive Sheet (gap : ComponentValue → Bool) :
    List ComponentValue → List (List ComponentValue) → List Rule → Prop
  | done {cs : List ComponentValue} : (∀ c ∈ cs, gap c = true) → Sheet gap cs [] []
  | rule {before front rest : List ComponentValue} {block : ComponentValue}
      {fronts : List (List ComponentValue)} {rules : List Rule} (line : Nat) :
      (∀ c ∈ before, gap c = true) → IsFront front → block.isCurly = true → Sheet gap rest fronts rules →
      Sheet gap (before ++ (front ++ block :: rest)) (front :: fronts)
        (.rule (slice front) (readBody line block.contents).1 :: rules)

/-- A sheet that is read as plain rules is a row of fronts with their blocks. -/
theorem sheet_of_readRules {line : Nat} {cs : List ComponentValue} {rules : List Rule}
    (h : (readRules false line cs).outcome = .ok rules) (plain : ∀ r ∈ rules, r.selector?.isSome = true) :
    ∃ fronts, Sheet isBetweenRules cs fronts rules := by
  induction rules generalizing cs line with
  | nil => exact ⟨[], .done ((readRules_eq_nil_iff line).1 h)⟩
  | cons r rules ih =>
    obtain ⟨here, later⟩ := List.forall_mem_cons.1 plain
    rcases readRules_cases h with ⟨-, none⟩ | ⟨first, after, hd, ⟨_, _, _, _, _, same, -⟩ |
      ⟨block, rest, line', line'', rules', kind, hb, filled, same, hrest⟩⟩
    · cases none
    · obtain ⟨rfl, -⟩ := List.cons.inj same
      cases here
    · obtain ⟨rfl, rfl⟩ := List.cons.inj same
      obtain ⟨fronts, sheet⟩ := ih hrest later
      have between : first.isBetweenRules = false := not_of_dropWhile hd
      have curly : block.isCurly = true := by simpa using not_of_dropWhile hb
      have blockless (c : ComponentValue) (hc : c ∈ (first :: after).takeWhile (!·.isCurly)) :
          c.isCurly = false := by
        simpa using List.mem_takeWhile_imp hc
      have start : first.isCurly = false := by
        cases hf : first.isCurly with
        | false => rfl
        | true =>
          rw [List.takeWhile_cons_of_neg (by simp [hf])] at filled
          cases filled
      refine ⟨(first :: after).takeWhile (!·.isCurly) :: fronts, ?_⟩
      have split : cs = cs.takeWhile isBetweenRules ++
          ((first :: after).takeWhile (!·.isCurly) ++ block :: rest) := by
        rw [← hb, List.takeWhile_append_dropWhile, ← hd, List.takeWhile_append_dropWhile]
      rw [split]
      refine .rule line' (fun c hc => List.mem_takeWhile_imp hc)
        ⟨⟨first, after.takeWhile (!·.isCurly), ?_, between, kind⟩, blockless, filled⟩ curly sheet
      exact List.takeWhile_cons_of_pos (by simp [start])

def startsDecl : List ComponentValue → Bool
  | .token ⟨.ident _, _⟩ :: after => (after.dropWhile isSpace).head?.any (·.isToken .colon)
  | _ => false

theorem startsDecl_ident {first : ComponentValue} {prop : String} (h : first.kind? = some (.ident prop))
    (after : List ComponentValue) :
    startsDecl (first :: after) = (after.dropWhile isSpace).head?.any (·.isToken .colon) := by
  cases first with
  | block b o cs c => cases h
  | token t =>
    obtain ⟨kind, source⟩ := t
    obtain rfl : kind = .ident prop := Option.some.inj h
    rfl

theorem kind?_of_startsDecl {first : ComponentValue} {after : List ComponentValue}
    (h : startsDecl (first :: after) = true) : ∃ prop, first.kind? = some (.ident prop) := by
  unfold startsDecl at h
  split at h
  · rename_i heq
    rw [(List.cons.inj heq).1]
    exact ⟨_, rfl⟩
  · cases h

/-- A front that is read in a body as it is at the top level. -/
def nests (front : List ComponentValue) : Bool :=
  front.all (fun c => !c.isSemicolon && !c.isToken (.closing .curly)) && !startsDecl front

theorem open_of_nests {front : List ComponentValue} (h : nests front = true) :
    ∀ c ∈ front, c.isToken (.closing .curly) = false := by
  simp only [nests, Bool.and_eq_true, List.all_eq_true, Bool.not_eq_true'] at h
  exact fun c hc => (h.1 c hc).2

theorem isSemicolon_of_isCurly {x : ComponentValue} (h : x.isCurly = true) : x.isSemicolon = false := by
  cases x with
  | token t => cases h
  | block b o cs c => rfl

theorem isToken_of_isCurly {x : ComponentValue} (h : x.isCurly = true) (kind : Token.Kind) :
    x.isToken kind = false := by
  cases x with
  | token t => cases h
  | block b o cs c => rfl

section

variable {front rest : List ComponentValue} {block : ComponentValue}

theorem cut_front (front rest : List ComponentValue) (block : ComponentValue) {p : ComponentValue → Bool}
    (passes : ∀ c ∈ front, p c = true) (stop : p block = false) :
    (front ++ block :: rest).takeWhile p = front ∧ (front ++ block :: rest).dropWhile p = block :: rest := by
  rw [List.takeWhile_append_of_pos passes, List.dropWhile_append_of_pos passes,
    List.takeWhile_cons_of_neg (by simp [stop]), List.dropWhile_cons_of_neg (by simp [stop]),
    List.append_nil]
  exact ⟨rfl, rfl⟩

/-- An at-rule comes first, behind any gap, and does not name the character set. -/
theorem readRules_atRule (fresh : Bool) (line : Nat) {cs : List ComponentValue} {t : Token} {name : String}
    (kind : t.kind = .atKeyword name) (other : sameIgnoringAsciiCase name "charset" = false)
    (passes : ∀ c ∈ front, c.endsPrelude = false) {mark : ComponentValue} (ends : mark.endsPrelude = true)
    (start : cs.dropWhile isBetweenRules = .token t :: (front ++ mark :: rest)) :
    ∃ line' line'', readRules fresh line cs =
      ⟨(readBody line' mark.contents).2 ++ (readRules false line'' rest).notices,
        (readRules false line'' rest).outcome.map
          (.atRule name (slice front) (readBody line' mark.contents).1 :: ·)⟩ := by
  obtain ⟨taken, dropped⟩ := cut_front front rest mark (p := (!endsPrelude ·))
    (fun c hc => by rw [passes c hc]; rfl) (by rw [ends]; rfl)
  rw [readRules]
  split
  · rename_i none
    rw [start] at none
    cases none
  · rename_i first after hd
    rw [start] at hd
    obtain ⟨rfl, rfl⟩ := List.cons.inj hd
    dsimp only
    rw [show (ComponentValue.token t).kind? = some (.atKeyword name) from congrArg some kind]
    simp only [other, Bool.and_false, AtFront.take, taken, dropped]
    exact ⟨_, _, rfl⟩

theorem takeRule_front (front rest : List ComponentValue) (blockless : ∀ c ∈ front, c.isCurly = false)
    (uncut : ∀ c ∈ front, c.isSemicolon = false) (curly : block.isCurly = true) (line : Nat)
    (blame : Option Nat) :
    ∃ line' line'', Item.takeRule line blame (front ++ block :: rest) =
      if (slice front).isEmpty then
        ⟨.skipped (blame.getD line') (sliceToBlock front), line'', rest⟩
      else ⟨.rule (slice front) line' block.contents, line'', rest⟩ := by
  obtain ⟨taken, dropped⟩ := cut_front front rest block (p := (!endsPrelude ·))
    (fun c hc => by simp [endsPrelude, blockless c hc, uncut c hc]) (by simp [endsPrelude, curly])
  refine ⟨line + linesIn front, line + linesIn front + linesIn [block], ?_⟩
  simp only [Item.takeRule, taken, dropped, curly, if_true]

theorem takeWhile_block (rest : List ComponentValue) (curly : block.isCurly = true)
    (uncut : ∀ c ∈ front, c.isSemicolon = false) :
    (front ++ block :: rest).takeWhile (!·.isSemicolon) =
      front ++ block :: rest.takeWhile (!·.isSemicolon) := by
  rw [List.takeWhile_append_of_pos fun c hc => by simp [uncut c hc],
    List.takeWhile_cons_of_pos (by simp [isSemicolon_of_isCurly curly])]

/-- What follows an identifier is no declaration if it does not start with a colon. -/
theorem declValue_error (curly : block.isCurly = true) (uncut : ∀ c ∈ front, c.isSemicolon = false)
    (apart : (front.dropWhile isSpace).head?.any (·.isToken .colon) = false) :
    Item.declValue (front ++ block :: rest) = .error 0 := by
  have solid : block.isSpace = false := by
    simp [isSpace, isToken_of_isCurly curly]
  unfold Item.declValue
  dsimp only
  rw [takeWhile_block rest curly uncut]
  cases hd : front.dropWhile isSpace with
  | nil =>
    rw [List.dropWhile_append_of_pos (List.dropWhile_eq_nil_iff.1 hd),
      List.dropWhile_cons_of_neg (by simp [solid])]
    dsimp only
    rw [isToken_of_isCurly curly, if_neg (by decide)]
  | cons c after =>
    rw [hd] at apart
    have apart : c.isToken .colon = false := apart
    rw [List.dropWhile_append, hd]
    simp [apart]

theorem take_front (rest : List ComponentValue) {first : ComponentValue} {after : List ComponentValue}
    (h : IsFront (first :: after)) (nest : nests (first :: after) = true) (curly : block.isCurly = true) (line : Nat) :
    ∃ line' line'', Item.take line first (after ++ block :: rest) =
      ⟨.rule (slice (first :: after)) line' block.contents, line'', rest⟩ := by
  simp only [nests, Bool.and_eq_true, List.all_eq_true, Bool.not_eq_true'] at nest
  obtain ⟨uncut, undeclared⟩ := nest
  have rule (blame : Option Nat) : ∃ line' line'', Item.takeRule line blame (first :: (after ++ block :: rest)) =
      ⟨.rule (slice (first :: after)) line' block.contents, line'', rest⟩ := by
    obtain ⟨line', line'', taken⟩ :=
      takeRule_front _ rest h.blockless (fun c hc => (uncut c hc).1) curly line blame
    rw [h.text, if_neg (by decide)] at taken
    exact ⟨line', line'', taken⟩
  obtain ⟨_, _, heq, -, kind⟩ := h.start
  obtain ⟨rfl, rfl⟩ := List.cons.inj heq
  unfold Item.take
  split
  · rename_i name atKeyword; exact absurd atKeyword (kind name)
  · rename_i prop ident
    rw [startsDecl_ident ident] at undeclared
    rw [declValue_error curly (fun c hc => (uncut c (List.mem_cons_of_mem _ hc)).1) undeclared]
    exact rule _
  · exact rule none

end

theorem isBetweenItems_of_isSpace {c : ComponentValue} (h : c.isSpace = true) : c.isBetweenItems = true := by
  simp [isBetweenItems, h]

/-- A sheet whose fronts nest is read as a body to the same rules. -/
theorem agree_readBody {cs : List ComponentValue} {fronts : List (List ComponentValue)} {rules : List Rule}
    (sheet : Sheet isSpace cs fronts rules) (nest : ∀ front ∈ fronts, nests front = true) (line : Nat) :
    Rule.Agree rules (readBody line cs).1 := by
  induction sheet generalizing line with
  | done spaces =>
    rw [readBody_nil (List.dropWhile_eq_nil_iff.2 fun c hc => isBetweenItems_of_isSpace (spaces c hc))]
    exact .refl []
  | @rule before front rest block fronts rules line' spaces isFront curly _ ih =>
    obtain ⟨here, later⟩ := List.forall_mem_cons.1 nest
    obtain ⟨first, after, rfl, between, -⟩ := isFront.start
    have solid : first.isBetweenItems = false := by
      simp only [nests, Bool.and_eq_true, List.all_cons, Bool.not_eq_true'] at here
      simp only [isBetweenRules, Bool.or_eq_false_iff] at between
      simp only [isBetweenItems, between.1.1, here.1.1, Bool.or_false]
    have dropped : (before ++ (first :: after ++ block :: rest)).dropWhile isBetweenItems =
        first :: (after ++ block :: rest) := by
      rw [List.dropWhile_append_of_pos fun c hc => isBetweenItems_of_isSpace (spaces c hc),
        List.cons_append, List.dropWhile_cons_of_neg (by simp [solid])]
    obtain ⟨start, read⟩ := readBody_cons line dropped
    obtain ⟨inside, next, taken⟩ := take_front rest isFront here curly start
    rw [read, taken]
    exact (Rule.Agree.rule (.inl rfl) (readBody_alike (.refl _) _ _)).append (ih later _)

/-- An item that adds no at-rule and no declaration is taken as a rule is. -/
theorem take_of_plain {line : Nat} {first : ComponentValue} {after : List ComponentValue}
    (plain : ∀ r ∈ (Item.take line first after).item.read, r.selector?.isSome = true) :
    (∀ prop, first.kind? = some (.ident prop) → ∃ n, Item.declValue after = .error n) ∧
      ∃ blame, Item.take line first after = Item.takeRule line blame (first :: after) := by
  unfold Item.take at plain ⊢
  split at plain
  · cases plain _ List.mem_cons_self
  · rename_i prop ident
    cases hv : Item.declValue after with
    | ok value =>
      rw [hv] at plain
      cases plain _ List.mem_cons_self
    | error n => exact ⟨fun _ _ => ⟨n, rfl⟩, _, rfl⟩
  · rename_i other
    exact ⟨fun prop ident => absurd ident (other prop), none, rfl⟩

/-- Every rule that is read takes a block of its own. -/
theorem count_takeRule (line : Nat) (blame : Option Nat) (cs : List ComponentValue) :
    (Item.takeRule line blame cs).item.read.length + (Item.takeRule line blame cs).rest.countP isCurly ≤
      cs.countP isCurly := by
  have cut : (cs.dropWhile (!endsPrelude ·)).countP isCurly ≤ cs.countP isCurly :=
    (List.dropWhile_sublist _).countP_le
  unfold Item.takeRule
  dsimp only
  split
  · exact Nat.zero_le _
  · rename_i c rest hd
    rw [hd, List.countP_cons] at cut
    split
    · rename_i curly
      rw [if_pos curly] at cut
      split
      · exact Nat.le_trans (by simp [Item.read]) cut
      · exact Nat.le_trans (by simp [Item.read]; omega) cut
    · exact Nat.le_trans (by simp [Item.read]) cut

theorem length_readBody_le {cs : List ComponentValue} {line : Nat}
    (plain : ∀ r ∈ (readBody line cs).1, r.selector?.isSome = true) :
    (readBody line cs).1.length ≤ cs.countP isCurly := by
  induction cs using body_induction generalizing line with
  | nil cs hd => rw [readBody_nil hd]; exact Nat.zero_le _
  | cons cs first after hd _ later =>
    obtain ⟨start, read⟩ := readBody_cons line hd
    have cut : (first :: after).countP isCurly ≤ cs.countP isCurly :=
      hd ▸ (List.dropWhile_sublist _).countP_le
    rw [read, List.forall_mem_append] at plain
    have tail := later start plain.2
    obtain ⟨-, blame, taken⟩ := take_of_plain plain.1
    have item := count_takeRule start blame (first :: after)
    rw [← taken] at item
    rw [read, List.length_append]
    omega

theorem slice_filled {cs : List ComponentValue} (h : Solid (sourceAll cs)) : (slice cs).isEmpty = false := by
  cases he : (slice cs).isEmpty with
  | false => rfl
  | true =>
    obtain ⟨before, after, split, blank, blank'⟩ := Chars.trim_split (sourceAll cs)
    have none : Chars.trim (sourceAll cs) = [] := by
      rw [← String.toList_ofList (l := Chars.trim (sourceAll cs))]
      exact congrArg String.toList (String.isEmpty_iff.1 he)
    rw [split, none, List.append_nil] at h
    exact absurd h (not_solid_of_blank (List.forall_mem_append.2 ⟨blank, blank'⟩))

section

variable {front rest : List ComponentValue} {block : ComponentValue}

/-- A semicolon ends the item before it, and reading goes on behind it. -/
theorem takeRule_semicolon (rest : List ComponentValue) {mark : ComponentValue}
    (blockless : ∀ c ∈ front, c.isCurly = false) (uncut : ∀ c ∈ front, c.isSemicolon = false)
    (semicolon : mark.isSemicolon = true) (line : Nat) (blame : Option Nat) :
    (Item.takeRule line blame (front ++ mark :: rest)).item.read = [] ∧
      (Item.takeRule line blame (front ++ mark :: rest)).rest = rest := by
  obtain ⟨taken, dropped⟩ := cut_front front rest mark (p := (!endsPrelude ·))
    (fun c hc => by simp [endsPrelude, blockless c hc, uncut c hc]) (by simp [endsPrelude, semicolon])
  have open_ : mark.isCurly = false := by
    cases h : mark.isCurly with
    | false => rfl
    | true => rw [isSemicolon_of_isCurly h] at semicolon; cases semicolon
  simp [Item.takeRule, dropped, open_, Item.read]

/-- What follows an identifier is a declaration if it starts with a colon, since the block behind it gives
it a value. -/
theorem declValue_ok (genuine : Genuine block) (curly : block.isCurly = true)
    (uncut : ∀ c ∈ front, c.isSemicolon = false)
    (colon : (front.dropWhile isSpace).head?.any (·.isToken .colon) = true) (n : Nat) :
    Item.declValue (front ++ block :: rest) ≠ .error n := by
  cases hd : front.dropWhile isSpace with
  | nil => rw [hd] at colon; cases colon
  | cons c after =>
    rw [hd] at colon
    have colon : c.isToken .colon = true := colon
    have filled : (slice (after ++ block :: rest.takeWhile (!·.isSemicolon))).isEmpty = false := by
      apply slice_filled
      obtain ⟨closing, source⟩ := genuine.source_curly curly
      rw [sourceAll_append, sourceAll_cons, source]
      exact ⟨'\x7b', by simp, by decide⟩
    have value : (front ++ block :: rest.takeWhile (!·.isSemicolon)).dropWhile isSpace =
        c :: (after ++ block :: rest.takeWhile (!·.isSemicolon)) := by
      rw [List.dropWhile_append, hd]
      rfl
    unfold Item.declValue
    dsimp only
    rw [takeWhile_block rest curly uncut, value]
    dsimp only
    rw [if_pos colon, filled, if_neg (by decide)]
    exact nofun

theorem length_readBody_block {cs : List ComponentValue} (curly : block.isCurly = true)
    (dropped : cs.dropWhile isBetweenItems = block :: rest) {line : Nat}
    (plain : ∀ r ∈ (readBody line cs).1, r.selector?.isSome = true) :
    (readBody line cs).1.length ≤ rest.countP isCurly := by
  obtain ⟨start, read⟩ := readBody_cons line dropped
  rw [read, List.forall_mem_append] at plain
  obtain ⟨-, blame, taken⟩ := take_of_plain plain.1
  obtain ⟨_, _, skipped⟩ := takeRule_front [] rest (by simp) (by simp) curly start blame
  have skipped : Item.take start block rest = _ := (taken.trans skipped).trans (if_pos rfl)
  rw [skipped] at read plain
  rw [read]
  exact length_readBody_le plain.2

theorem readBody_semicolon {cs after tail : List ComponentValue} {first mark : ComponentValue}
    (dropped : cs.dropWhile isBetweenItems = first :: after) (split : front ++ mark :: tail = first :: after)
    (blockless : ∀ c ∈ front, c.isCurly = false) (uncut : ∀ c ∈ front, c.isSemicolon = false)
    (semicolon : mark.isSemicolon = true) {line : Nat}
    (plain : ∀ r ∈ (readBody line cs).1, r.selector?.isSome = true) :
    ∃ line', (readBody line cs).1 = (readBody line' tail).1 := by
  obtain ⟨start, read⟩ := readBody_cons line dropped
  rw [read, List.forall_mem_append] at plain
  obtain ⟨-, blame, taken⟩ := take_of_plain plain.1
  obtain ⟨none, left⟩ := takeRule_semicolon tail blockless uncut semicolon start blame
  rw [split, ← taken] at none left
  rw [none, left] at read
  exact ⟨_, read⟩

/-- A front without a semicolon is the selector of its block, which is lost if there is no text in it. -/
theorem readBody_front {cs after : List ComponentValue} {first : ComponentValue} (genuine : Genuine block)
    (curly : block.isCurly = true) (dropped : cs.dropWhile isBetweenItems = first :: (after ++ block :: rest))
    (blockless : ∀ c ∈ first :: after, c.isCurly = false)
    (uncut : ∀ c ∈ first :: after, c.isSemicolon = false) {line : Nat}
    (plain : ∀ r ∈ (readBody line cs).1, r.selector?.isSome = true) :
    (startsDecl (first :: after) = false ∧ ∃ body line', (readBody line cs).1 =
      .rule (slice (first :: after)) body :: (readBody line' rest).1) ∨
      (readBody line cs).1.length ≤ rest.countP isCurly := by
  obtain ⟨start, read⟩ := readBody_cons line dropped
  rw [read, List.forall_mem_append] at plain
  obtain ⟨undeclared, blame, taken⟩ := take_of_plain plain.1
  obtain ⟨inside, next, rule⟩ := takeRule_front _ rest blockless uncut curly start blame
  rw [List.cons_append, ← taken] at rule
  rw [rule] at read plain
  rw [read]
  split
  · rename_i empty
    rw [if_pos empty] at plain
    exact .inr (length_readBody_le plain.2)
  · refine .inl ⟨?_, _, _, rfl⟩
    cases decl : startsDecl (first :: after) with
    | false => rfl
    | true =>
      obtain ⟨prop, ident⟩ := kind?_of_startsDecl decl
      obtain ⟨n, error⟩ := undeclared prop ident
      rw [startsDecl_ident ident] at decl
      exact absurd error (declValue_ok genuine curly
        (fun c hc => uncut c (List.mem_cons_of_mem first hc)) decl n)

/-- The rule that is read at a block has the end of the front as its selector, from the last semicolon on;
if there is none, the block is lost. -/
theorem rule_at_block (genuine : Genuine block) (curly : block.isCurly = true)
    (blockless : ∀ c ∈ front, c.isCurly = false) {line : Nat}
    (plain : ∀ r ∈ (readBody line (front ++ block :: rest)).1, r.selector?.isSome = true) :
    (∃ before first after, front = before ++ first :: after ∧ first.isBetweenItems = false ∧
      (∀ c ∈ first :: after, c.isSemicolon = false) ∧ startsDecl (first :: after) = false ∧
      ∃ body line', (readBody line (front ++ block :: rest)).1 =
        .rule (slice (first :: after)) body :: (readBody line' rest).1) ∨
      (readBody line (front ++ block :: rest)).1.length ≤ rest.countP isCurly := by
  induction len : front.length using Nat.strong_induction_on generalizing front line with
  | _ n ih =>
    have whole := List.takeWhile_append_dropWhile (p := isBetweenItems) (l := front)
    cases hd : front.dropWhile isBetweenItems with
    | nil =>
      refine .inr (length_readBody_block curly ?_ plain)
      have solid : block.isBetweenItems = false := by
        simp [isBetweenItems, isSpace, isToken_of_isCurly curly, isSemicolon_of_isCurly curly]
      rw [List.dropWhile_append_of_pos (List.dropWhile_eq_nil_iff.1 hd),
        List.dropWhile_cons_of_neg (by simp [solid])]
    | cons first after =>
      have dropped : (front ++ block :: rest).dropWhile isBetweenItems = first :: (after ++ block :: rest) := by
        rw [List.dropWhile_append, hd]
        rfl
      rw [hd] at whole
      have inFront : ∀ c ∈ first :: after, c.isCurly = false := fun c hc =>
        blockless c (whole ▸ List.mem_append_right _ hc)
      have parts := List.takeWhile_append_dropWhile (p := (!·.isSemicolon)) (l := first :: after)
      cases hm : (first :: after).dropWhile (!·.isSemicolon) with
      | nil =>
        have uncut : ∀ c ∈ first :: after, c.isSemicolon = false := fun c hc => by
          simpa using List.dropWhile_eq_nil_iff.1 hm c hc
        rcases readBody_front genuine curly dropped inFront uncut plain with ⟨undeclared, read⟩ | lost
        · exact .inl ⟨_, first, after, whole.symm, not_of_dropWhile hd, uncut, undeclared, read⟩
        · exact .inr lost
      | cons mark later =>
        rw [hm] at parts
        have uncut (c : ComponentValue) (hc : c ∈ (first :: after).takeWhile (!·.isSemicolon)) :
            c.isSemicolon = false := by
          simpa using List.mem_takeWhile_imp hc
        rw [← parts, List.forall_mem_append, List.forall_mem_cons] at inFront
        have split : (first :: after).takeWhile (!·.isSemicolon) ++ mark :: (later ++ block :: rest) =
            first :: (after ++ block :: rest) := by
          rw [← List.cons_append, ← List.append_assoc, parts, List.cons_append]
        obtain ⟨line', read⟩ := readBody_semicolon dropped split inFront.1 uncut
          (by simpa using not_of_dropWhile hm) plain
        rw [read] at plain ⊢
        have lengths := congrArg List.length whole
        have lengths' := congrArg List.length parts
        simp only [List.length_append, List.length_cons] at lengths lengths'
        rcases ih _ (by omega) inFront.2.2 plain rfl with ⟨before, first', after', rfl, found⟩ | lost
        · refine .inl ⟨front.takeWhile isBetweenItems ++ ((first :: after).takeWhile (!·.isSemicolon) ++
            mark :: before), first', after', ?_, found⟩
          rw [List.append_assoc, List.append_assoc, List.cons_append, parts, whole]
        · exact .inr lost

end

theorem Sheet.count {gap : ComponentValue → Bool} (open_ : ∀ c, gap c = true → c.isCurly = false)
    {cs : List ComponentValue} {fronts : List (List ComponentValue)} {rules : List Rule}
    (sheet : Sheet gap cs fronts rules) : cs.countP isCurly = rules.length := by
  have none {ds : List ComponentValue} (h : ∀ c ∈ ds, c.isCurly = false) : ds.countP isCurly = 0 :=
    List.countP_eq_zero.2 fun c hc => by simp [h c hc]
  induction sheet with
  | done gaps => exact none fun c hc => open_ c (gaps c hc)
  | rule _ gaps isFront curly _ ih =>
    rw [List.countP_append, List.countP_append, List.countP_cons, none fun c hc => open_ c (gaps c hc),
      none isFront.blockless, ih, if_pos curly]
    simp

theorem Sheet.plain {gap : ComponentValue → Bool} {cs : List ComponentValue}
    {fronts : List (List ComponentValue)} {rules : List Rule} (sheet : Sheet gap cs fronts rules) :
    ∀ r ∈ rules, r.selector?.isSome = true := by
  induction sheet with
  | done _ => simp
  | rule _ _ _ _ _ ih => exact List.forall_mem_cons.2 ⟨rfl, ih⟩

theorem eq_nil_of_trim {a q s : List Char} (whole : a ++ q = s ++ [' ']) (trimmed : Chars.trim q = s)
    (filled : s ≠ []) : a = [] := by
  have lengths := congrArg List.length whole
  have shorter := Chars.trim_length_le q
  simp only [List.length_append, List.length_singleton] at lengths
  rw [trimmed] at shorter
  by_cases none : a.length = 0
  · exact List.eq_nil_of_length_eq_zero none
  · obtain ⟨before, after, split, -, -⟩ := Chars.trim_split q
    have cut := congrArg List.length split
    rw [trimmed] at split cut
    simp only [List.length_append] at cut
    obtain rfl : before = [] := List.eq_nil_of_length_eq_zero (by omega)
    obtain rfl : after = [] := List.eq_nil_of_length_eq_zero (by omega)
    rw [List.nil_append, List.append_nil] at split
    subst split
    -- The end is the whole text then, and the text would end in the space behind it.
    rcases List.eq_nil_or_concat q with rfl | ⟨r, c, rfl⟩
    · exact absurd rfl filled
    · rw [List.concat_eq_append] at whole trimmed
      rw [← List.append_assoc] at whole
      have last := (List.cons.inj (List.append_inj_right' whole rfl)).1
      subst last
      cases Chars.isBlank_of_trim_eq_last trimmed

/-- A front that is written with one space behind its text is known by that text: nothing else that ends
where it ends, and starts where an item can start, has the same. -/
theorem front_eq_of_slice {before front before' after : List ComponentValue} {first : ComponentValue}
    (isFront : IsFront front) (tight : sourceAll front = (slice front).toList ++ [' '])
    (genuine : ∀ x ∈ front, Genuine x) (spaces : ∀ c ∈ before, c.isSpace = true)
    (solid : first.isBetweenItems = false) (split : before ++ front = before' ++ first :: after)
    (same : slice front = slice (first :: after)) : front = first :: after := by
  rcases List.append_eq_append_iff.1 split with ⟨a, -, rfl⟩ | ⟨a, hbefore, hfront⟩
  · rw [sourceAll_append] at tight
    have none : sourceAll a = [] := by
      refine eq_nil_of_trim tight ?_ fun empty => ?_
      · rw [same, slice, String.toList_ofList]
      · have text := isFront.text
        rw [String.toList_eq_nil_iff.1 empty] at text
        cases text
    cases a with
    | nil => rfl
    | cons x a =>
      rw [sourceAll_cons] at none
      exact absurd (List.append_eq_nil_iff.1 none).1 (genuine x List.mem_cons_self).source_ne_nil
  · cases a with
    | nil => exact hfront.symm
    | cons x a =>
      obtain ⟨rfl, -⟩ := List.cons.inj hfront
      have space := spaces first (hbefore ▸ List.mem_append_right _ List.mem_cons_self)
      rw [isBetweenItems_of_isSpace space] at solid
      cases solid

/-- Read as a body, a sheet has the same rules only if its fronts nest. -/
theorem nests_of_readBody {cs : List ComponentValue} {fronts : List (List ComponentValue)} {rules : List Rule}
    (sheet : Sheet isSpace cs fronts rules) (genuine : ∀ x ∈ cs, Genuine x)
    (tight : ∀ front ∈ fronts, sourceAll front = (slice front).toList ++ [' '])
    (unclosed : ∀ front ∈ fronts, ∀ c ∈ front, c.isToken (.closing .curly) = false) {line : Nat}
    (h : (readBody line cs).1 = rules) : ∀ front ∈ fronts, nests front = true := by
  have open_ (c : ComponentValue) (h : c.isSpace = true) : c.isCurly = false := by
    cases hc : c.isCurly with
    | false => rfl
    | true => simp [isSpace, isToken_of_isCurly hc] at h
  induction sheet generalizing line with
  | done _ => simp
  | @rule before front rest block fronts rules line' spaces isFront curly later ih =>
    have blockless : ∀ c ∈ before ++ front, c.isCurly = false := by
      rw [List.forall_mem_append]
      exact ⟨fun c hc => open_ c (spaces c hc), isFront.blockless⟩
    rw [List.forall_mem_append, List.forall_mem_append, List.forall_mem_cons] at genuine
    obtain ⟨-, inFront, inBlock, inRest⟩ := genuine
    rw [List.forall_mem_cons] at tight unclosed
    rw [← List.append_assoc] at h
    have all := (Sheet.rule line' spaces isFront curly later).plain
    rw [← h] at all
    rcases rule_at_block inBlock curly blockless all with
      ⟨before', first, after, split, solid, uncut, undeclared, body, line'', read⟩ | lost
    · rw [h] at read
      obtain ⟨same, others⟩ := List.cons.inj read
      obtain rfl := front_eq_of_slice isFront tight.1 inFront spaces solid split (Rule.rule.inj same).1
      rw [List.forall_mem_cons]
      refine ⟨?_, ih inRest tight.2 unclosed.2 others.symm⟩
      simp only [nests, undeclared, Bool.not_false, Bool.and_true, List.all_eq_true]
      intro c hc
      rw [uncut c hc, unclosed.1 c hc]
      rfl
    · rw [h, later.count open_] at lost
      exact absurd lost (Nat.not_succ_le_self _)

end Stencil.Style
