import Stencil.Proofs.StyleLayout

/-! Nothing is read that is not written. The ink of a text counts its characters without spaces, semicolons
and closing braces, which a reader may skip and which the printed form adds. What is read of some
components has no more ink than they do; so where a printed sheet is read back, every character with
ink in it is part of what is read. -/
namespace Stencil.Style

open Text

def isInk (c : Char) : Bool := !(isAsciiBlank c || c == ';' || c == '\x7d')

def ink (s : List Char) : Nat := s.countP isInk

@[simp] theorem ink_nil : ink [] = 0 := rfl

@[simp] theorem ink_append (s t : List Char) : ink (s ++ t) = ink s + ink t := List.countP_append ..

theorem ink_cons (c : Char) (s : List Char) : ink (c :: s) = (if isInk c then 1 else 0) + ink s := by
  rw [ink, List.countP_cons, Nat.add_comm]; rfl

@[simp] theorem isInk_space : isInk ' ' = false := rfl

@[simp] theorem isInk_newline : isInk '\n' = false := rfl

@[simp] theorem isInk_semicolon : isInk ';' = false := rfl

@[simp] theorem isInk_colon : isInk ':' = true := rfl

@[simp] theorem isInk_at : isInk '@' = true := rfl

@[simp] theorem isInk_brace : isInk '\x7b' = true := rfl

theorem ink_trim_le (s : List Char) : ink (Chars.trim s) ≤ ink s := by
  obtain ⟨before, after, split, -, -⟩ := Chars.trim_split s
  have := congrArg ink split
  rw [ink_append, ink_append] at this
  omega

namespace Rule

mutual

/-- The ink of a printed rule. -/
def ink : Rule → Nat
  | .rule selector body => Style.ink selector.toList + 1 + inkAll body
  | .atRule name params body =>
    1 + Style.ink name.toList + Style.ink params.toList + (if body.isEmpty then 0 else 1) + inkAll body
  | .decl prop value => Style.ink prop.toList + 1 + Style.ink value.toList

def inkAll : List Rule → Nat
  | [] => 0
  | r :: rest => r.ink + inkAll rest

end

@[simp] theorem inkAll_append (a b : List Rule) : inkAll (a ++ b) = inkAll a + inkAll b := by
  induction a with
  | nil => simp [inkAll]
  | cons r a ih => rw [List.cons_append, inkAll, inkAll, ih, Nat.add_assoc]

theorem ink_atHead (name params : String) :
    Style.ink (atHead name params).toList = 1 + Style.ink name.toList + Style.ink params.toList := by
  unfold atHead
  split
  · rename_i none
    rw [String.isEmpty_iff.1 none]
    simp [ink_cons]
  · simp [ink_cons, Nat.add_assoc]

theorem ink_unlines_indented (ls : List (List Char)) :
    Style.ink (unlines (ls.map ([' ', ' '] ++ ·))) = Style.ink (unlines ls) := by
  induction ls with
  | nil => rfl
  | cons l ls ih =>
    simp only [List.map_cons, unlines_cons, ink_append, ink_cons, ih]
    simp

theorem ink_block (front : List Char) (ls : List (List Char)) :
    Style.ink (unlines ((front ++ [' ', '\x7b']) :: (ls.map ([' ', ' '] ++ ·) ++ [['\x7d']]))) =
      Style.ink front + 1 + Style.ink (unlines ls) := by
  rw [unlines_block]
  simp only [ink_append, ink_unlines_indented]
  rfl

mutual

theorem ink_lines (r : Rule) : Style.ink (unlines r.lines) = r.ink := by
  cases r with
  | decl prop value =>
    rw [lines, ink]
    simp [ink_cons, Nat.add_assoc]
  | rule selector body => rw [lines, ink, ink_block, ink_linesAll body]
  | atRule name params body =>
    rw [lines, ink]
    split
    · rename_i none
      rw [List.isEmpty_iff.1 none]
      simp [ink_cons, ink_atHead, inkAll]
    · rw [ink_block, ink_atHead, ink_linesAll body]

theorem ink_linesAll (rules : List Rule) : Style.ink (unlines (linesAll rules)) = inkAll rules := by
  cases rules with
  | nil => rfl
  | cons r rest => rw [linesAll, unlines_append, ink_append, ink_lines r, ink_linesAll rest, inkAll]

end

end Rule

namespace Token

/-- A token as it is read from a text. -/
def Scanned (t : Token) : Prop := ∃ c s, t = (next c s).1

theorem scanned_of_mem {s : List Char} {t : Token} (h : t ∈ scan s) : t.Scanned := by
  fun_induction scan s with
  | case1 => cases h
  | case2 c r ih =>
    rcases List.mem_cons.1 h with rfl | h
    · exact ⟨c, r, rfl⟩
    · exact ih h

theorem Scanned.written {t : Token} (h : t.Scanned) : Written t := by
  obtain ⟨c, s, rfl⟩ := h
  exact next_written c s

theorem Scanned.head {t : Token} (h : t.Scanned) :
    ∃ c r, t.source = c :: r ∧ (isAsciiBlank c = true → t.kind = .space) := by
  obtain ⟨c, s, rfl⟩ := h
  obtain ⟨r, hr⟩ := List.head?_eq_some_iff.1 (next_source_head c s)
  exact ⟨c, r, hr, fun blank => by rw [next_blank blank]⟩

/-- An escape has at least the ink of what it stands for. -/
theorem ink_name_le (s : List Char) : ink (name s).value ≤ ink (name s).source := by
  fun_induction name s with
  | case1 => exact Nat.le_refl _
  | case2 c r _ n ih => rw [ink_cons, ink_cons]; exact Nat.add_le_add_left ih _
  | case3 c r _ hz n ih =>
    obtain rfl := beq_iff_eq.1 hz
    rw [ink_cons, ink_cons, show isInk replacement = true from rfl, show isInk '\x00' = true from rfl]
    exact Nat.add_le_add_left ih 1
  | case4 c r _ _ hs e n ih =>
    simp only [Bool.and_eq_true, beq_iff_eq] at hs
    obtain ⟨rfl, -⟩ := hs
    show ink (e.value :: n.value) ≤ ink ('\\' :: (e.source ++ n.source))
    rw [ink_cons, ink_cons, ink_append, show isInk '\\' = true from rfl, if_pos rfl]
    have tail : ink n.value ≤ ink n.source := ih
    split <;> omega
  | case5 => exact Nat.le_refl _

variable {t : Token}

theorem Scanned.ink_ident (h : t.Scanned) {n : String} (kind : t.kind = .ident n) :
    ink n.toList ≤ ink t.source := by
  have written := h.written
  unfold Written at written
  rw [kind] at written
  obtain ⟨s, rfl, source⟩ := written
  rw [source, String.toList_ofList]
  exact ink_name_le s

theorem Scanned.ink_atKeyword (h : t.Scanned) {n : String} (kind : t.kind = .atKeyword n) :
    1 + ink n.toList ≤ ink t.source := by
  have written := h.written
  unfold Written at written
  rw [kind] at written
  obtain ⟨s, rfl, source⟩ := written
  rw [source, String.toList_ofList, ink_cons, isInk_at, if_pos rfl]
  exact Nat.add_le_add_left (ink_name_le s) 1

theorem Scanned.source_colon (h : t.Scanned) (kind : t.kind = .colon) : t.source = [':'] := by
  have written := h.written
  unfold Written at written
  rwa [kind] at written

theorem Scanned.source_curly (h : t.Scanned) (opens : t.opens? = some .curly) : t.source = ['\x7b'] := by
  have written := h.written
  unfold Written at written
  unfold Token.opens? at opens
  split at opens
  · rename_i b kind
    obtain rfl := Option.some.inj opens
    rwa [kind] at written
  · cases opens
  · cases opens

end Token

namespace ComponentValue

/-- A component as it is gathered from the tokens of a text. -/
inductive Genuine : ComponentValue → Prop
  | token {t : Token} : t.Scanned → Genuine (.token t)
  | block {b : Bracket} {o : Token} {cs : List ComponentValue} {c : Option Token} :
      o.Scanned → o.opens? = some b → (∀ x ∈ cs, Genuine x) → Genuine (.block b o cs c)

theorem Genuine.contents {x : ComponentValue} (h : Genuine x) : ∀ y ∈ x.contents, Genuine y := by
  cases h with
  | token _ => exact nofun
  | block _ _ inside => exact inside

theorem genuine_scan (s : List Char) : ∀ x ∈ scan s, Genuine x := by
  have gathered {b : Option Bracket} {ts rest : List Token} {cs : List ComponentValue} {c : Option Token}
      (g : Groups b ts cs c rest) (h : ∀ t ∈ ts, t.Scanned) : ∀ x ∈ cs, Genuine x := by
    induction g with
    | ended => exact nofun
    | closed _ => exact nofun
    | token _ _ _ ih =>
      rw [List.forall_mem_cons] at h ⊢
      exact ⟨.token h.1, ih h.2⟩
    | block opens g _ ih ih' =>
      rw [List.forall_mem_cons] at h ⊢
      exact ⟨.block h.1 opens (ih h.2), ih' fun t ht => h.2 t (g.rest_suffix.subset ht)⟩
  exact gathered (Groups.scan s) fun t ht => Token.scanned_of_mem ht

variable {x : ComponentValue} {cs : List ComponentValue}

theorem ink_slice_le (cs : List ComponentValue) : ink (slice cs).toList ≤ ink (sourceAll cs) := by
  rw [slice, String.toList_ofList]
  exact ink_trim_le _

/-- A component that is no space does not start with one. -/
theorem Genuine.head (h : Genuine x) :
    ∃ c r, x.source = c :: r ∧ (isAsciiBlank c = true → x.isSpace = true) := by
  cases h with
  | token scanned =>
    obtain ⟨c, r, source, blank⟩ := scanned.head
    exact ⟨c, r, by rw [source_token, source], fun h => by simp [isSpace, isToken, kind?, blank h]⟩
  | block scanned opens _ =>
    obtain ⟨c, r, source, blank⟩ := scanned.head
    refine ⟨c, _, by rw [source_block, source]; rfl, fun h => ?_⟩
    unfold Token.opens? at opens
    rw [blank h] at opens
    cases opens

theorem Genuine.source_ne_nil (h : Genuine x) : x.source ≠ [] := by
  obtain ⟨c, r, source, -⟩ := h.head
  rw [source]
  exact List.cons_ne_nil c r

theorem Genuine.source_curly (h : Genuine x) (curly : x.isCurly = true) :
    ∃ closing, x.source = '\x7b' :: (sourceAll x.contents ++ closing) := by
  cases h with
  | token _ => cases curly
  | @block b o cs c scanned opens _ =>
    cases b with
    | curly => exact ⟨_, by rw [source_block, scanned.source_curly opens, List.append_assoc]; rfl⟩
    | paren => cases curly
    | square => cases curly

/-- A block in braces has the ink of its opening brace and of its contents. -/
theorem Genuine.ink_curly (h : Genuine x) (curly : x.isCurly = true) :
    1 + ink (sourceAll x.contents) ≤ ink x.source := by
  obtain ⟨closing, source⟩ := h.source_curly curly
  rw [source, ink_cons, ink_append, isInk_brace, if_pos rfl]
  omega

end ComponentValue

open ComponentValue

/-- The ink of a list of components, cut in two. -/
theorem ink_cut (p : ComponentValue → Bool) (cs : List ComponentValue) :
    ink (sourceAll (cs.takeWhile p)) + ink (sourceAll (cs.dropWhile p)) = ink (sourceAll cs) := by
  rw [← ink_append, ← sourceAll_append, List.takeWhile_append_dropWhile]

theorem genuine_dropWhile {p : ComponentValue → Bool} {c : ComponentValue} {cs rest : List ComponentValue}
    (genuine : ∀ x ∈ cs, Genuine x) (hd : cs.dropWhile p = c :: rest) :
    Genuine c ∧ ∀ x ∈ rest, Genuine x := by
  rw [← List.forall_mem_cons, ← hd]
  exact fun x hx => genuine x ((List.dropWhile_suffix _).subset hx)

theorem AtFront.ink_take {cs : List ComponentValue} (genuine : ∀ x ∈ cs, Genuine x) (line : Nat) :
    ink (take line cs).params.toList +
        (if (take line cs).contents.isEmpty then 0 else 1 + ink (sourceAll (take line cs).contents)) +
        ink (sourceAll (take line cs).rest) ≤
      ink (sourceAll cs) := by
  have cut := ink_cut (!endsPrelude ·) cs
  have front := ink_slice_le (cs.takeWhile (!endsPrelude ·))
  unfold take
  dsimp only
  split
  · simp only [List.isEmpty_nil, if_true, sourceAll_nil, ink_nil]
    omega
  · rename_i c rest hd
    have here : Genuine c := (genuine_dropWhile genuine hd).1
    rw [hd, sourceAll_cons, ink_append] at cut
    dsimp only
    split
    · omega
    · rename_i filled
      have curly : c.isCurly = true := by
        have ends := not_of_dropWhile hd
        cases c with
        | token t => exact absurd rfl filled
        | block b o inner closing => simpa [endsPrelude, isSemicolon, isToken, kind?] using ends
      have block := here.ink_curly curly
      omega

namespace Item

/-- The least ink an item is written with, if its block is not read yet. -/
def ink : Item → Nat
  | .decl prop value => Style.ink prop.toList + 1 + Style.ink value.toList
  | .rule selector _ contents => Style.ink selector.toList + 1 + Style.ink (sourceAll contents)
  | .atRule name params _ contents =>
    1 + Style.ink name.toList + Style.ink params.toList +
      (if contents.isEmpty then 0 else 1 + Style.ink (sourceAll contents))
  | .skipped _ _ => 0

variable {cs : List ComponentValue}

theorem ink_takeRule (genuine : ∀ x ∈ cs, Genuine x) (line : Nat) (blame : Option Nat) :
    (takeRule line blame cs).item.ink + Style.ink (sourceAll (takeRule line blame cs).rest) ≤
      Style.ink (sourceAll cs) := by
  have cut := ink_cut (!endsPrelude ·) cs
  have front := ink_slice_le (cs.takeWhile (!endsPrelude ·))
  unfold takeRule
  dsimp only
  split
  · rename_i hd
    rw [hd] at cut
    simp only [ink, sourceAll_nil, ink_nil] at cut ⊢
    omega
  · rename_i c rest hd
    have here : Genuine c := (genuine_dropWhile genuine hd).1
    rw [hd, sourceAll_cons, ink_append] at cut
    split
    · rename_i curly
      have block := here.ink_curly curly
      split
      · simp only [ink]; omega
      · simp only [ink]; omega
    · simp only [ink]; omega

theorem declValue_ink {after : List ComponentValue} (genuine : ∀ x ∈ after, Genuine x) {value : String}
    (h : declValue after = .ok value) :
    1 + Style.ink value.toList + Style.ink (sourceAll (after.dropWhile (!·.isSemicolon))) ≤
      Style.ink (sourceAll after) := by
  have cut := ink_cut (!·.isSemicolon) after
  have inner := ink_cut isSpace (after.takeWhile (!·.isSemicolon))
  unfold declValue at h
  dsimp only at h
  split at h
  · cases h
  · rename_i c rest hd
    have here : Genuine c := genuine c ((List.takeWhile_prefix _).subset
      ((List.dropWhile_suffix _).subset (hd ▸ List.mem_cons_self)))
    rw [hd, sourceAll_cons, ink_append] at inner
    split at h
    · rename_i colon
      split at h
      · cases h
      · obtain rfl := Except.ok.inj h
        have slice := ink_slice_le rest
        have mark : Style.ink c.source = 1 := by
          cases here with
          | token scanned =>
            have kind := Option.some.inj (beq_iff_eq.1 colon)
            rw [source_token, scanned.source_colon kind]
            rfl
          | block _ _ _ => cases colon
        omega
    · cases h

theorem ink_take {first : ComponentValue} {after : List ComponentValue}
    (genuine : ∀ x ∈ first :: after, Genuine x) (line : Nat) :
    (take line first after).item.ink + Style.ink (sourceAll (take line first after).rest) ≤
      Style.ink (sourceAll (first :: after)) := by
  obtain ⟨here, later⟩ := List.forall_mem_cons.1 genuine
  have token {kind : Token.Kind} (h : first.kind? = some kind) :
      ∃ t, first = .token t ∧ t.kind = kind ∧ t.Scanned := by
    cases here with
    | token scanned => exact ⟨_, rfl, Option.some.inj h, scanned⟩
    | block _ _ _ => cases h
  unfold take
  rw [sourceAll_cons, ink_append]
  split
  · rename_i name kind
    obtain ⟨t, rfl, kind, scanned⟩ := token kind
    have mark := scanned.ink_atKeyword kind
    have bound := AtFront.ink_take later (line + linesIn [.token t])
    rw [source_token]
    simp only [ink]
    omega
  · rename_i prop kind
    split
    · rename_i value hv
      obtain ⟨t, rfl, kind, scanned⟩ := token kind
      have mark := scanned.ink_ident kind
      have bound := declValue_ink later hv
      rw [source_token]
      simp only [ink]
      omega
    · have bound := ink_takeRule genuine line
      rw [sourceAll_cons, ink_append] at bound
      exact bound _
  · have bound := ink_takeRule genuine line
    rw [sourceAll_cons, ink_append] at bound
    exact bound _

theorem genuine_takeRule (genuine : ∀ x ∈ cs, Genuine x) (line : Nat) (blame : Option Nat) :
    (∀ x ∈ (takeRule line blame cs).item.contents, Genuine x) ∧
      ∀ x ∈ (takeRule line blame cs).rest, Genuine x := by
  unfold takeRule
  dsimp only
  split
  · exact ⟨nofun, nofun⟩
  · rename_i hd
    obtain ⟨here, later⟩ := genuine_dropWhile genuine hd
    split
    · split
      · exact ⟨nofun, later⟩
      · exact ⟨here.contents, later⟩
    · exact ⟨nofun, later⟩

theorem genuine_atFront (genuine : ∀ x ∈ cs, Genuine x) (line : Nat) :
    (∀ x ∈ (AtFront.take line cs).contents, Genuine x) ∧
      ∀ x ∈ (AtFront.take line cs).rest, Genuine x := by
  unfold AtFront.take
  dsimp only
  split
  · exact ⟨nofun, nofun⟩
  · rename_i hd
    obtain ⟨here, later⟩ := genuine_dropWhile genuine hd
    exact ⟨here.contents, later⟩

theorem genuine_take {first : ComponentValue} {after : List ComponentValue}
    (genuine : ∀ x ∈ first :: after, Genuine x) (line : Nat) :
    (∀ x ∈ (take line first after).item.contents, Genuine x) ∧
      ∀ x ∈ (take line first after).rest, Genuine x := by
  obtain ⟨-, later⟩ := List.forall_mem_cons.1 genuine
  unfold take
  split
  · exact genuine_atFront later _
  · split
    · exact ⟨nofun, fun x hx => later x ((List.dropWhile_suffix _).subset hx)⟩
    · exact genuine_takeRule genuine _ _
  · exact genuine_takeRule genuine _ _

/-- An item is read with no more ink than it is written with, if its contents are. -/
theorem ink_read_le {i : Item}
    (body : ∀ line, Rule.inkAll (readBody line i.contents).1 ≤ Style.ink (sourceAll i.contents)) :
    Rule.inkAll i.read ≤ i.ink := by
  cases i with
  | decl prop value => exact Nat.le_refl _
  | rule selector line contents => exact Nat.add_le_add_left (body line) _
  | atRule name params line contents =>
    have body : Rule.inkAll (readBody line contents).1 ≤ Style.ink (sourceAll contents) := body line
    show Rule.ink (.atRule name params (readBody line contents).1) + 0 ≤ _
    rw [Rule.ink, ink]
    cases contents with
    | nil => rw [readBody_nil rfl]; exact Nat.le_refl _
    | cons x contents =>
      simp only [List.isEmpty_cons, Bool.false_eq_true, if_false]
      split <;> omega
  | skipped line snippet => exact Nat.zero_le _

end Item

/-- What is read of a body has no more ink than the body. -/
theorem ink_readBody_le {cs : List ComponentValue} (genuine : ∀ x ∈ cs, Genuine x) (line : Nat) :
    Rule.inkAll (readBody line cs).1 ≤ ink (sourceAll cs) := by
  induction cs using body_induction generalizing line with
  | nil cs hd => rw [readBody_nil hd]; exact Nat.zero_le _
  | cons cs first after hd inside later =>
    obtain ⟨start, read⟩ := readBody_cons line hd
    have genuine' : ∀ x ∈ first :: after, Genuine x := List.forall_mem_cons.2 (genuine_dropWhile genuine hd)
    obtain ⟨contents, rest⟩ := Item.genuine_take genuine' start
    have cut := ink_cut isBetweenItems cs
    have bound := Item.ink_take genuine' start
    have item := Item.ink_read_le (inside start contents)
    have tail := later start rest (Item.take start first after).line
    rw [hd] at cut
    rw [read, Rule.inkAll_append]
    omega

end Stencil.Style
