import Stencil.Style.Reader
import Stencil.Proofs.StyleAlike

/-! How tokens are gathered into blocks, said without the stack of open ones: a block runs from its opening
token to the first token that closes it, or to the end. What the stack gathers is just that; so a block
depends on its own tokens only, and tokens that read alike are gathered alike. -/
namespace Stencil.Style

open Text

/-- Behind a token that opens `b`, or outside of all blocks, the tokens give some components up to the one
that closes the block, if there is one, and a rest. -/
inductive Groups :
    Option Bracket → List Token → List ComponentValue → Option Token → List Token → Prop
  | ended {b : Option Bracket} : Groups b [] [] none []
  | closed {b : Bracket} {t : Token} {ts : List Token} :
      t.closes? = some b → Groups (some b) (t :: ts) [] (some t) ts
  | token {b : Option Bracket} {t : Token} {ts : List Token} {cs : List ComponentValue} {c : Option Token}
      {rest : List Token} :
      t.opens? = none → (∀ b', b = some b' → t.closes? ≠ some b') → Groups b ts cs c rest →
      Groups b (t :: ts) (.token t :: cs) c rest
  | block {b : Option Bracket} {b' : Bracket} {t : Token} {ts mid rest : List Token}
      {inner cs : List ComponentValue} {c c' : Option Token} :
      t.opens? = some b' → Groups (some b') ts inner c mid → Groups b mid cs c' rest →
      Groups b (t :: ts) (.block b' t inner c :: cs) c' rest

/-- Outside of blocks every token that opens none stands for itself. -/
theorem Groups.outer {t : Token} {ts : List Token} {cs : List ComponentValue} {c : Option Token}
    {rest : List Token} (plain : t.opens? = none) (later : Groups none ts cs c rest) :
    Groups none (t :: ts) (.token t :: cs) c rest :=
  .token plain (by simp) later

namespace Nesting

/-- The innermost open bracket. -/
def top (n : Nesting) : Option Bracket := n.opened.head?.map (·.1)

def addAll (n : Nesting) (cs : List ComponentValue) : Nesting := cs.foldl add n

/-- The components are added, and the block is closed if there is a token for it. -/
def settle (n : Nesting) (cs : List ComponentValue) (closing : Option Token) : Nesting :=
  match closing with
  | none => n.addAll cs
  | some t => (n.addAll cs).closeInner (some t)

theorem add_nil {n : Nesting} (h : n.opened = []) (c : ComponentValue) :
    n.add c = { n with outside := c :: n.outside } := by
  unfold add
  rw [h]

theorem add_cons {n : Nesting} {b : Bracket} {t : Token} {cs : List ComponentValue}
    {outer : List (Bracket × Token × List ComponentValue)} (h : n.opened = (b, t, cs) :: outer)
    (c : ComponentValue) : n.add c = { n with opened := (b, t, c :: cs) :: outer } := by
  unfold add
  rw [h]

theorem length_opened_add (n : Nesting) (c : ComponentValue) :
    (n.add c).opened.length = n.opened.length := by
  cases h : n.opened with
  | nil => rw [add_nil h, h]
  | cons first outer => rw [add_cons h]; rfl

theorem top_add (n : Nesting) (c : ComponentValue) : (n.add c).top = n.top := by
  cases h : n.opened with
  | nil => rw [add_nil h]; rfl
  | cons first outer => rw [add_cons h, top, top, h]; rfl

theorem addAll_opened (cs : List ComponentValue) {n : Nesting} {b : Bracket} {t : Token}
    {before : List ComponentValue} {outer : List (Bracket × Token × List ComponentValue)}
    (h : n.opened = (b, t, before) :: outer) :
    n.addAll cs = { n with opened := (b, t, cs.reverse ++ before) :: outer } := by
  induction cs generalizing n before with
  | nil => rw [← List.nil_append before] at h; exact congrArg (Nesting.mk · n.outside) h
  | cons c cs ih =>
    show (n.add c).addAll cs = _
    rw [add_cons h, ih rfl]
    simp

theorem addAll_outside (cs : List ComponentValue) {n : Nesting} (h : n.opened = []) :
    n.addAll cs = { n with outside := cs.reverse ++ n.outside } := by
  induction cs generalizing n with
  | nil => rfl
  | cons c cs ih =>
    show (n.add c).addAll cs = _
    rw [add_nil h, ih (n := { n with outside := c :: n.outside }) h]
    simp

/-- The end of the text closes the innermost block first. -/
theorem finish_closeInner {n : Nesting} {b : Bracket} {t : Token} {cs : List ComponentValue}
    {outer : List (Bracket × Token × List ComponentValue)} (h : n.opened = (b, t, cs) :: outer) :
    (n.closeInner none).finish = n.finish := by
  have shorter : (n.closeInner none).opened.length = outer.length := by
    unfold closeInner
    rw [h]
    exact length_opened_add _ _
  unfold finish
  rw [shorter, h]
  rfl

/-- A block that was opened and whose components are added, as one component. -/
theorem settle_opened (n : Nesting) (b : Bracket) (t : Token) (cs : List ComponentValue) (c : Token) :
    { n with opened := (b, t, []) :: n.opened : Nesting }.settle cs (some c) =
      n.add (.block b t cs (some c)) := by
  unfold settle
  dsimp only
  rw [addAll_opened cs rfl]
  simp [closeInner]

theorem finish_opened (n : Nesting) (b : Bracket) (t : Token) (cs : List ComponentValue) :
    ({ n with opened := (b, t, []) :: n.opened : Nesting }.settle cs none).finish =
      (n.add (.block b t cs none)).finish := by
  unfold settle
  dsimp only
  rw [addAll_opened cs rfl, ← finish_closeInner rfl]
  simp [closeInner]

theorem step_opens {n : Nesting} {t : Token} {b : Bracket} (h : t.opens? = some b) :
    n.step t = { n with opened := (b, t, []) :: n.opened } := by
  unfold step
  rw [h]

theorem step_closes {n : Nesting} {t : Token} {b : Bracket} (opens : t.opens? = none)
    (closes : t.closes? = some b) (h : n.top = some b) : n.step t = n.closeInner (some t) := by
  unfold top at h
  cases hn : n.opened with
  | nil => rw [hn] at h; cases h
  | cons first outer =>
    rw [hn] at h
    obtain rfl := Option.some.inj h
    unfold step
    rw [opens, closes, hn]
    exact if_pos rfl

theorem step_token {n : Nesting} {t : Token} (opens : t.opens? = none)
    (closes : ∀ b, n.top = some b → t.closes? ≠ some b) : n.step t = n.add (.token t) := by
  unfold top at closes
  cases hn : n.opened with
  | nil =>
    unfold step
    rw [opens, hn]
    cases t.closes? <;> rfl
  | cons first outer =>
    have other := closes first.1 (by rw [hn]; rfl)
    unfold step
    rw [opens, hn]
    cases ht : t.closes? with
    | none => rfl
    | some b =>
      rw [ht] at other
      exact if_neg fun same => other (congrArg some same)

end Nesting

theorem Token.opens?_of_closes {t : Token} {b : Bracket} (h : t.closes? = some b) : t.opens? = none := by
  unfold closes? at h
  unfold opens?
  split at h
  · rename_i kind; rw [kind]
  · cases h

namespace Groups

variable {b : Option Bracket} {ts rest : List Token} {cs : List ComponentValue} {c : Option Token}

theorem rest_suffix (g : Groups b ts cs c rest) : rest <:+ ts := by
  induction g with
  | ended => exact List.suffix_refl _
  | closed _ => exact List.suffix_cons _ _
  | token _ _ _ ih => exact ih.trans (List.suffix_cons _ _)
  | block _ _ _ ih ih' => exact (ih'.trans ih).trans (List.suffix_cons _ _)

/-- A block that nothing closes goes on to the end. -/
theorem rest_eq_nil (g : Groups b ts cs none rest) : rest = [] := by
  generalize open_ : none = c at g
  induction g with
  | ended => rfl
  | closed _ => cases open_
  | token _ _ _ ih => exact ih open_
  | block _ _ _ _ ih => exact ih open_

theorem nil_left (g : Groups b [] cs c rest) : cs = [] ∧ c = none ∧ rest = [] := by
  cases g; exact ⟨rfl, rfl, rfl⟩

theorem outside (g : Groups none ts cs c rest) : c = none ∧ rest = [] := by
  generalize top : none = b at g
  induction g with
  | ended => exact ⟨rfl, rfl⟩
  | closed _ => cases top
  | token _ _ _ ih => exact ih top
  | block _ _ _ _ ih => exact ih top

theorem total (b : Option Bracket) (ts : List Token) : ∃ cs c rest, Groups b ts cs c rest := by
  induction len : ts.length using Nat.strong_induction_on generalizing b ts with
  | _ n ih =>
    cases ts with
    | nil => exact ⟨[], none, [], .ended⟩
    | cons t ts =>
      have here : ts.length < n := by rw [← len]; exact Nat.lt_succ_self _
      cases opens : t.opens? with
      | some b' =>
        obtain ⟨inner, c, mid, g⟩ := ih _ here (some b') ts rfl
        obtain ⟨cs, c', rest, g'⟩ := ih _ (Nat.lt_of_le_of_lt g.rest_suffix.length_le here) b mid rfl
        exact ⟨_, _, _, .block opens g g'⟩
      | none =>
        by_cases closes : ∃ b', b = some b' ∧ t.closes? = some b'
        · obtain ⟨b', rfl, closes⟩ := closes
          exact ⟨_, _, _, .closed closes⟩
        · obtain ⟨cs, c, rest, g⟩ := ih _ here b ts rfl
          exact ⟨_, _, _, .token opens (fun b' hb hc => closes ⟨b', hb, hc⟩) g⟩

/-- The stack gathers the same components. -/
theorem finish_foldl (g : Groups b ts cs c rest) (n : Nesting) (top : n.top = b) :
    (ts.foldl Nesting.step n).finish = (rest.foldl Nesting.step (n.settle cs c)).finish := by
  induction g generalizing n with
  | ended => rfl
  | closed closes =>
    rw [List.foldl_cons, Nesting.step_closes (Token.opens?_of_closes closes) closes top]
    rfl
  | @token b t ts cs c rest opens closes _ ih =>
    rw [List.foldl_cons, Nesting.step_token opens (fun b' hb => closes b' (top ▸ hb)),
      ih _ ((n.top_add _).trans top)]
    rfl
  | @block b b' t ts mid rest inner cs c c' opens g g' ih ih' =>
    rw [List.foldl_cons, Nesting.step_opens opens, ih _ rfl]
    have gathered : (mid.foldl Nesting.step
        ({ n with opened := (b', t, []) :: n.opened : Nesting }.settle inner c)).finish =
        (mid.foldl Nesting.step (n.add (.block b' t inner c))).finish := by
      cases c with
      | none => rw [g.rest_eq_nil]; exact n.finish_opened b' t inner
      | some t' => rw [n.settle_opened b' t inner t']
    rw [gathered, ih' _ ((n.top_add _).trans top)]
    rfl

theorem ofTokens_eq (g : Groups none ts cs c rest) : ComponentValue.ofTokens ts = cs := by
  obtain ⟨rfl, rfl⟩ := g.outside
  unfold ComponentValue.ofTokens
  rw [g.finish_foldl {} rfl]
  show (Nesting.addAll {} cs).finish = cs
  rw [Nesting.addAll_outside cs rfl]
  simp [Nesting.finish, Nesting.closeInners]

/-- The components of a text, gathered from its tokens. -/
theorem scan (s : List Char) : Groups none (Token.scan s) (ComponentValue.scan s) none [] := by
  obtain ⟨cs, c, rest, g⟩ := total none (Token.scan s)
  obtain ⟨rfl, rfl⟩ := g.outside
  rwa [ComponentValue.scan, g.ofTokens_eq]

theorem source (g : Groups b ts cs c rest) :
    Token.flat ts = ComponentValue.sourceAll cs ++ ((c.map (·.source)).getD [] ++ Token.flat rest) := by
  induction g with
  | ended => rfl
  | closed _ => rfl
  | token _ _ _ ih => rw [Token.flat_cons, ih]; simp
  | block _ _ _ ih ih' => rw [Token.flat_cons, ih, ih']; simp

/-- What closes a block, and the tokens up to it, do not depend on what follows. -/
theorem closed_front (g : Groups b ts cs c rest) (closing : c ≠ none) :
    ∃ front, ts = front ++ rest ∧ ∀ rest', Groups b (front ++ rest') cs c rest' := by
  induction g with
  | ended => exact absurd rfl closing
  | @closed b t ts closes => exact ⟨[t], rfl, fun rest' => .closed closes⟩
  | @token b t ts cs c rest opens closes _ ih =>
    obtain ⟨front, rfl, regroup⟩ := ih closing
    exact ⟨t :: front, rfl, fun rest' => .token opens closes (regroup rest')⟩
  | @block b b' t ts mid rest inner cs c c' opens g g' ih ih' =>
    have closing' : c ≠ none := by
      rintro rfl
      rw [g.rest_eq_nil] at g'
      exact closing g'.nil_left.2.1
    obtain ⟨front, rfl, regroup⟩ := ih closing'
    obtain ⟨front', rfl, regroup'⟩ := ih' closing
    refine ⟨t :: (front ++ front'), by simp, fun rest' => ?_⟩
    rw [List.cons_append, List.append_assoc]
    exact .block opens (regroup _) (regroup' rest')

/-- No token outside of all blocks closes `b`. -/
def Unclosed (b : Option Bracket) (cs : List ComponentValue) : Prop :=
  ∀ t, .token t ∈ cs → ∀ b', b = some b' → t.closes? ≠ some b'

theorem Unclosed.tail {x : ComponentValue} (h : Unclosed b (x :: cs)) : Unclosed b cs :=
  fun t ht => h t (List.mem_cons_of_mem x ht)

/-- Components with more behind them are gathered from tokens of their own, and in the same way in front of
anything else, also inside a block that none of them closes. -/
theorem split {before after : List ComponentValue} {x : ComponentValue}
    (g : Groups none ts (before ++ x :: after) c rest) :
    ∃ front back, ts = front ++ back ∧ Groups none back (x :: after) c rest ∧
      ∀ b ts' cs' c' rest', Unclosed b before → Groups b ts' cs' c' rest' →
        Groups b (front ++ ts') (before ++ cs') c' rest' := by
  induction before generalizing ts with
  | nil => exact ⟨[], ts, rfl, g, fun b ts' cs' c' rest' _ g' => g'⟩
  | cons y before ih =>
    rw [List.cons_append] at g
    cases g with
    | @token _ t ts _ _ _ opens _ g =>
      obtain ⟨front, back, rfl, g', regroup⟩ := ih g
      refine ⟨t :: front, back, rfl, g', fun b ts' cs' c' rest' apart g' => ?_⟩
      exact .token opens (apart t List.mem_cons_self) (regroup b _ _ _ _ apart.tail g')
    | @block _ b' t ts mid _ inner _ closing _ opens g g' =>
      have closing' : closing ≠ none := by
        rintro rfl
        rw [g.rest_eq_nil] at g'
        have := g'.nil_left.1
        exact absurd this (by simp)
      obtain ⟨front, rfl, inside⟩ := g.closed_front closing'
      obtain ⟨front', back, rfl, g'', regroup⟩ := ih g'
      refine ⟨t :: (front ++ front'), back, by simp, g'', fun b ts' cs' c' rest' apart g' => ?_⟩
      rw [List.cons_append, List.append_assoc]
      exact .block opens (inside _) (regroup b _ _ _ _ apart.tail g')

/-- Components none of which closes `b` are gathered in the same way inside a block that `b` opens. -/
theorem inside {b : Bracket} (g : Groups none ts cs c rest) (apart : Unclosed (some b) cs) :
    Groups (some b) ts cs none [] := by
  generalize outer : none = b' at g
  induction g with
  | ended => exact .ended
  | closed _ => cases outer
  | token opens _ _ ih => exact .token opens (apart _ List.mem_cons_self) (ih apart.tail outer)
  | block opens g _ _ ih => exact .block opens g (ih apart.tail outer)

end Groups

namespace Token

theorem Alike.opens? {t t' : Token} (h : Alike t t') : t'.opens? = t.opens? := by
  unfold Token.opens?; rw [h.kind]

theorem Alike.closes? {t t' : Token} (h : Alike t t') : t'.closes? = t.closes? := by
  unfold Token.closes?; rw [h.kind]

theorem anchored_of_opens {t : Token} {b : Bracket} (written : Written t) (h : t.opens? = some b) :
    Anchored t.source := by
  unfold Token.opens? at h
  unfold Written at written
  split at h
  · rename_i b' kind
    rw [kind] at written
    have source : t.source = [opener b'] := written
    rw [source]
    exact ⟨opener b', List.mem_singleton_self _, by cases b' <;> decide, by cases b' <;> decide⟩
  · rename_i kind
    rw [kind] at written
    exact ⟨'(', written, by decide, by decide⟩
  · cases h

end Token

mutual

/-- Two components that a reader takes alike: of one kind, with texts that read alike, and with contents
that are taken alike if these are read. -/
inductive ComponentValue.Alike : ComponentValue → ComponentValue → Prop
  | token {t t' : Token} : Token.Alike t t' → Alike (.token t) (.token t')
  | block {b : Bracket} {o o' : Token} {cs cs' : List ComponentValue} {c c' : Option Token} :
      Reads (ComponentValue.block b o cs c).source (ComponentValue.block b o' cs' c').source →
      (b = .curly → AlikeAll cs cs') → Alike (.block b o cs c) (.block b o' cs' c')

/-- Components that are taken alike one by one, where the second ones may end with a space more. -/
inductive ComponentValue.AlikeAll : List ComponentValue → List ComponentValue → Prop
  | nil : AlikeAll [] []
  | space {t : Token} : t.kind = .space → (∀ c ∈ t.source, isBlank c = true) → AlikeAll [] [.token t]
  | cons {x x' : ComponentValue} {cs cs' : List ComponentValue} :
      Alike x x' → AlikeAll cs cs' → AlikeAll (x :: cs) (x' :: cs')

end

mutual

theorem ComponentValue.Alike.refl (x : ComponentValue) : ComponentValue.Alike x x := by
  cases x with
  | token t => exact .token ⟨rfl, .refl _⟩
  | block b o cs c => exact .block (.refl _) fun _ => AlikeAll.refl cs

theorem ComponentValue.AlikeAll.refl (cs : List ComponentValue) : ComponentValue.AlikeAll cs cs := by
  cases cs with
  | nil => exact .nil
  | cons x cs => exact .cons (Alike.refl x) (AlikeAll.refl cs)

end

namespace ComponentValue

theorem Alike.source {x x' : ComponentValue} (h : Alike x x') : Reads x.source x'.source := by
  cases h with
  | token h => simpa using h.source
  | block h _ => exact h

theorem reads_of_alike {cs cs' : List ComponentValue} (h : List.Forall₂ Alike cs cs') :
    Reads (sourceAll cs) (sourceAll cs') := by
  induction h with
  | nil => exact .refl []
  | cons first _ ih => rw [sourceAll_cons, sourceAll_cons]; exact first.source.append ih

@[simp] theorem sourceAll_append (cs ds : List ComponentValue) :
    sourceAll (cs ++ ds) = sourceAll cs ++ sourceAll ds := by
  induction cs with
  | nil => rfl
  | cons c cs ih => simp [ih]

/-- The space that ends a text behind its last brace. -/
def lastSpace : Token := ⟨.space, ['\n']⟩

theorem alikeAll_append {cs cs' extra : List ComponentValue} (h : List.Forall₂ Alike cs cs')
    (trailing : extra = [] ∨ extra = [.token lastSpace]) : AlikeAll cs (cs' ++ extra) := by
  induction h with
  | nil =>
    rcases trailing with rfl | rfl
    · exact .nil
    · exact .space rfl (List.all_eq_true.1 rfl)
  | cons first _ ih => exact .cons first ih

end ComponentValue

namespace Groups

open ComponentValue

variable {b : Option Bracket} {ts rest : List Token} {cs : List ComponentValue} {c : Option Token}

/-- Gathering tokens that read alike. A block that is closed stays closed; one that runs to the end may end
with the brace and the space that are put there. -/
structure Followed (b : Option Bracket) (cs : List ComponentValue) (c : Option Token) (rest : List Token)
    (ts' : List Token) : Prop where
  closed : ∀ t, c = some t → ∃ cs' t' rest', Groups b ts' cs' (some t') rest' ∧
    List.Forall₂ Alike cs cs' ∧ Token.Alike t t' ∧ Token.Follows rest rest'
  ended : c = none → ∃ cs' extra c' rest', Groups b ts' (cs' ++ extra) c' rest' ∧
    List.Forall₂ Alike cs cs' ∧ (b = some .curly → extra = [] ∨ extra = [.token lastSpace]) ∧
    (rest' = [] ∨ rest' = [lastSpace])

/-- One more component in front of those that read alike. -/
theorem Followed.cons {us' : List Token} {x x' : ComponentValue} (here : Alike x x')
    (adds : ∀ {cs' c' rest'}, Groups b ts' cs' c' rest' → Groups b us' (x' :: cs') c' rest')
    (later : Followed b cs c rest ts') : Followed b (x :: cs) c rest us' where
  closed t ht := by
    obtain ⟨cs', t', rest', g, all, last, follows⟩ := later.closed t ht
    exact ⟨_, t', rest', adds g, .cons here all, last, follows⟩
  ended hc := by
    obtain ⟨cs', extra, c', rest', g, all, trailing, rest_eq⟩ := later.ended hc
    exact ⟨x' :: cs', extra, c', rest', adds g, .cons here all, trailing, rest_eq⟩

theorem alike_of_closed {b : Bracket} {t t' u u' : Token} {cs' : List ComponentValue} (alike : Token.Alike t t')
    (all : List.Forall₂ Alike cs cs') (last : Token.Alike u u') :
    Alike (.block b t cs (some u)) (.block b t' cs' (some u')) := by
  refine .block ?_ fun _ => ?_
  · rw [source_block, source_block]
    exact (alike.source.append (reads_of_alike all)).append last.source
  · simpa using alikeAll_append all (.inl rfl)

/-- A block that runs to the end of the text has a line end in its middle, whatever is put behind it. -/
theorem alike_of_unclosed {whole : List Char} {b : Bracket} {t t' : Token} {cs' extra : List ComponentValue}
    (g : Groups (some b) ts cs none rest) (opens : t.opens? = some b) (written : Token.Written t)
    (part : Token.flat (t :: ts) <:+ whole) (closed : EndsClosed whole) (alike : Token.Alike t t')
    (all : List.Forall₂ Alike cs cs') (trailing : b = .curly → extra = [] ∨ extra = [.token lastSpace])
    (c' : Option Token) : Alike (.block b t cs none) (.block b t' (cs' ++ extra) c') := by
  refine .block ?_ fun curly => alikeAll_append all (trailing curly)
  obtain rfl := g.rest_eq_nil
  have covered : Token.flat ts = sourceAll cs := by rw [g.source]; simp
  rw [Token.flat_cons, covered] at part
  have broken : Broken (t.source ++ sourceAll cs) := by
    obtain ⟨d, hd, solid⟩ := Token.anchored_of_opens written opens
    exact broken_of_suffix closed part ⟨d, List.mem_append_left _ hd, solid⟩
  have broken' := (alike.source.append (reads_of_alike all)).broken broken
  rw [source_block, source_block, sourceAll_append, ← List.append_assoc]
  exact .inr ⟨broken.append_left _, (broken'.append_left _).append_left _⟩

theorem follow {whole : List Char} (g : Groups b ts cs c rest) (written : ∀ t ∈ ts, Token.Written t)
    (part : Token.flat ts <:+ whole) (closed : EndsClosed whole) {ts' : List Token}
    (h : Token.Follows ts ts') : Followed b cs c rest ts' := by
  induction g generalizing ts' with
  | @ended b =>
    refine ⟨nofun, fun _ => ?_⟩
    cases h with
    | ended => exact ⟨[], [], none, [], .ended, .nil, fun _ => .inl rfl, .inl rfl⟩
    | closed =>
      by_cases curly : b = some .curly
      · subst curly
        exact ⟨[], [], _, _, .closed rfl, .nil, fun _ => .inl rfl, .inr rfl⟩
      · refine ⟨[], _, none, [], .token rfl ?_ (.token rfl (by simp [Token.closes?]) .ended), .nil,
          fun hb => absurd hb curly, .inl rfl⟩
        rintro b' rfl hb
        exact curly (congrArg some (Option.some.inj hb).symm)
  | @closed b t ts closes =>
    refine ⟨fun u hu => ?_, nofun⟩
    obtain rfl := Option.some.inj hu
    cases h with
    | cons alike follows => exact ⟨[], _, _, .closed (alike.closes?.trans closes), .nil, alike, follows⟩
  | @token b t ts cs c rest opens closes g ih =>
    cases h with
    | @cons _ t' _ ts' alike follows =>
      have closes' (b' : Bracket) (hb : b = some b') : t'.closes? ≠ some b' :=
        alike.closes? ▸ closes b' hb
      have later := ih (fun u hu => written u (List.mem_cons_of_mem t hu))
        ((List.suffix_append _ _).trans part) follows
      exact later.cons (.token alike) (.token (alike.opens?.trans opens) closes')
  | @block b b' t ts mid rest inner cs c c' opens g g' ih ih' =>
    cases h with
    | @cons _ t' _ ts' alike follows =>
      have opens' := alike.opens?.trans opens
      have written' : ∀ u ∈ ts, Token.Written u := fun u hu => written u (List.mem_cons_of_mem t hu)
      have part' : Token.flat ts <:+ whole := (List.suffix_append _ _).trans part
      obtain ⟨innerClosed, innerEnded⟩ := ih written' part' follows
      cases c with
      | some u =>
        obtain ⟨inner', u', mid', gi, all, last, follows'⟩ := innerClosed u rfl
        have midPart : Token.flat mid <:+ whole := by
          obtain ⟨front, hf⟩ := g.rest_suffix
          rw [← hf, Token.flat_append] at part'
          exact (List.suffix_append _ _).trans part'
        have later := ih' (fun v hv => written' v (g.rest_suffix.subset hv)) midPart follows'
        exact later.cons (alike_of_closed alike all last) (.block opens' gi)
      | none =>
        obtain rfl := g.rest_eq_nil
        obtain ⟨rfl, rfl, rfl⟩ := g'.nil_left
        obtain ⟨inner', extra, u', mid', gi, all, trailing, mid_eq⟩ := innerEnded rfl
        have here := g.alike_of_unclosed opens (written t List.mem_cons_self) part closed alike all
          (fun curly => trailing (congrArg some curly)) u'
        refine ⟨nofun, fun _ => ?_⟩
        rcases mid_eq with rfl | rfl
        · exact ⟨[.block b' t' (inner' ++ extra) u'], [], none, [], .block opens' gi .ended,
            .cons here .nil, fun _ => .inl rfl, .inl rfl⟩
        · exact ⟨[.block b' t' (inner' ++ extra) u'], [.token lastSpace], none, [],
            .block opens' gi (.token rfl (by simp [Token.closes?, lastSpace]) .ended),
            .cons here .nil, fun _ => .inr rfl, .inl rfl⟩

end Groups

end Stencil.Style
