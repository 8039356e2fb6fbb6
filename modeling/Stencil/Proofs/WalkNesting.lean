import Stencil.Proofs.WalkSteps

/-! Nesting in what a walk tells a format. Elements and conditions are closed in the opposite order of
their opening, so at the end no condition is open, none is closed that was not opened, and a section of
a Mustache template ends under the key it began with. -/
namespace Stencil

open Markup (Node Element)
open Walk (Step)

namespace LogicLess

mutual

def Mustache.spellStep : Step → String
  | .element o name inside =>
    "<" ++ o.tag ++ Text.concat (o.attributes.map fun a => Mustache.spellAll (attributePieces a)) ++
      if o.selfClosing then "/>" else ">" ++ Mustache.spellSteps inside ++ "</" ++ name ++ ">"
  | .text text => text
  | .value key _ => Mustache.rawValue key
  | .condition c inside =>
    Mustache.openSection c.key ++ Mustache.spellSteps inside ++ Mustache.closeSection c.key

/-- The text of steps in Mustache. A condition is a section, opened and closed under its key. -/
def Mustache.spellSteps : List Step → String
  | [] => ""
  | step :: rest => Mustache.spellStep step ++ Mustache.spellSteps rest

end

theorem Mustache.spellSteps_append (first second : List Step) :
    Mustache.spellSteps (first ++ second) = Mustache.spellSteps first ++ Mustache.spellSteps second := by
  induction first with
  | nil => simp [Mustache.spellSteps]
  | cons step rest ih => simp [Mustache.spellSteps, ih, String.append_assoc]

/-- After these steps the same conditions are open as before, and a Mustache template has their text. -/
structure Draft.Writes (d : Draft) (steps : List Step) (d' : Draft) : Prop where
  dialect : d'.dialect = d.dialect
  conditions : d'.conditions = d.conditions
  written : d.dialect = .mustache → d'.written = d.written ++ Mustache.spellSteps steps

theorem Draft.Writes.trans {d d' d'' : Draft} {first second : List Step} (here : d.Writes first d')
    (later : d'.Writes second d'') : d.Writes (first ++ second) d'' where
  dialect := later.dialect.trans here.dialect
  conditions := later.conditions.trans here.conditions
  written mustache := by
    rw [later.written (here.dialect.trans mustache), here.written mustache, Mustache.spellSteps_append,
      String.append_assoc]

end LogicLess

namespace Draft

/-- The keys of the conditions that are open; a component has its own brackets for them. -/
def conditions : Draft → List String
  | logicLess d => d.conditions
  | component _ => []

/-- Steps that lead from one draft to another, of the same kind. -/
inductive Writes : Draft → List Step → Draft → Prop where
  | logicLess {d steps d'} : d.Writes steps d' → Writes (.logicLess d) steps (.logicLess d')
  | component {d steps d'} : Writes (.component d) steps (.component d')

theorem Writes.trans {s t u : Draft} {first second : List Step} (here : Writes s first t)
    (later : Writes t second u) : Writes s (first ++ second) u := by
  cases here with
  | logicLess here =>
    cases later with
    | logicLess later => exact .logicLess (here.trans later)
  | component =>
    cases later with
    | component => exact .component

theorem Writes.refl (s : Draft) : Writes s [] s := by
  cases s with
  | logicLess d => exact .logicLess ⟨rfl, rfl, fun _ => by simp [LogicLess.Mustache.spellSteps]⟩
  | component d => exact .component

theorem Writes.conditions {s u : Draft} {steps : List Step} (writes : Writes s steps u) :
    u.conditions = s.conditions := by
  cases writes with
  | logicLess writes => exact writes.conditions
  | component => rfl

theorem writes_withRegistry (r : Registry) (s : Draft) : Writes s [] (s.withRegistry r) := by
  cases s with
  | logicLess d => exact .logicLess ⟨rfl, rfl, fun _ => by simp [LogicLess.Mustache.spellSteps]⟩
  | component d => exact .component

theorem writes_addText (text : String) (s : Draft) : Writes s [.text text] (s.addText text) := by
  cases s with
  | logicLess d =>
    refine .logicLess ⟨rfl, rfl, fun _ => ?_⟩
    simp [LogicLess.Mustache.spellSteps, LogicLess.Mustache.spellStep, LogicLess.Draft.addText,
      LogicLess.Draft.append]
  | component d => exact .component

theorem writes_addVariable (key default : String) (s : Draft) :
    Writes s [.value key default] (s.addVariable key default) := by
  cases s with
  | logicLess d =>
    refine .logicLess ?_
    unfold LogicLess.Draft.addVariable
    split
    · refine ⟨rfl, rfl, fun _ => ?_⟩
      simp [LogicLess.Mustache.spellSteps, LogicLess.Mustache.spellStep, LogicLess.Draft.append]
    · rename_i dialect
      refine ⟨rfl, rfl, fun mustache => ?_⟩
      rw [dialect] at mustache
      cases mustache
  | component d => exact .component

/-- What is written inside a condition is closed as it was opened. -/
theorem writes_condition {c : Condition} {s t v : Draft} {inside : List Step}
    (opened : s.openCondition c = .ok t) (writes : Writes t inside v) :
    Writes s [.condition c inside] v.closeCondition.2 := by
  rcases openCondition_eq_ok opened with ⟨d, text, rfl, spelled, rfl⟩ | ⟨d, rfl, rfl⟩
  · cases writes with
    | @logicLess _ _ after writes =>
      refine .logicLess ?_
      have top : after.conditions = c.key :: d.conditions := writes.conditions
      unfold LogicLess.Draft.closeCondition
      rw [top]
      refine ⟨writes.dialect, rfl, fun mustache => ?_⟩
      have same : after.dialect = .mustache := writes.dialect.trans mustache
      have within := writes.written mustache
      unfold LogicLess.Draft.opening at spelled
      rw [mustache] at spelled
      cases comparison : c.comparison with
      | none =>
        rw [comparison] at spelled
        cases spelled
        simp only [LogicLess.Draft.append] at within ⊢
        rw [within, same]
        simp [LogicLess.Mustache.spellSteps, LogicLess.Mustache.spellStep, String.append_assoc]
      | some test =>
        rw [comparison] at spelled
        cases spelled
  · cases writes with
    | component => exact .component

/-- Opening an element keeps the kind of a draft; a logic-less one has the tag as it was given. -/
theorem openElement_eq_ok {o : Opening} {s t : Draft} {name : String}
    (opened : (s.openElement o).outcome = .ok (name, t)) :
    (∃ d, s = .logicLess d ∧ name = o.tag ∧
        t = .logicLess (d.openElement o.tag o.attributes o.selfClosing)) ∨
      ∃ d d', s = .component d ∧ t = .component d' := by
  cases s with
  | logicLess d =>
    cases opened
    exact Or.inl ⟨d, rfl, rfl, rfl⟩
  | component d =>
    obtain ⟨⟨shown, after⟩, -, opened⟩ := Reported.bind_eq_ok opened
    cases opened
    exact Or.inr ⟨d, after, rfl, rfl⟩

theorem writes_leaf {o : Opening} {s t : Draft} {name : String} (leaf : o.selfClosing = true)
    (opened : (s.openElement o).outcome = .ok (name, t)) : Writes s [.element o name []] t := by
  rcases openElement_eq_ok opened with ⟨d, rfl, rfl, rfl⟩ | ⟨d, d', rfl, rfl⟩
  · refine .logicLess ⟨rfl, rfl, fun mustache => ?_⟩
    simp [LogicLess.Mustache.spellSteps, LogicLess.Mustache.spellStep, LogicLess.Draft.openElement,
      LogicLess.Draft.append, Dialect.spellAll, mustache, leaf, String.append_assoc]
  · exact .component

theorem writes_parent {o : Opening} {s t v : Draft} {name : String} {inside : List Step}
    (parent : o.selfClosing = false) (opened : (s.openElement o).outcome = .ok (name, t))
    (writes : Writes t inside v) : Writes s [.element o name inside] (v.closeElement name) := by
  rcases openElement_eq_ok opened with ⟨d, rfl, rfl, rfl⟩ | ⟨d, d', rfl, rfl⟩
  · cases writes with
    | logicLess writes =>
      refine .logicLess ⟨writes.dialect, writes.conditions, fun mustache => ?_⟩
      have within := writes.written mustache
      simp only [LogicLess.Draft.closeElement, LogicLess.Draft.append] at within ⊢
      rw [within]
      simp [LogicLess.Mustache.spellSteps, LogicLess.Mustache.spellStep, LogicLess.Draft.openElement,
        LogicLess.Draft.append, Dialect.spellAll, mustache, parent, String.append_assoc]
  · cases writes with
    | component => exact .component

end Draft

namespace Walk

/-- A walk writes its steps. -/
theorem Walks.writes {c : Context Draft} (target : c.target = Draft.target) {nodes : List Node}
    {s u : Draft} {steps : List Step} (walks : Walks c nodes s steps u) : s.Writes steps u := by
  obtain ⟨_, template, rules⟩ := c
  cases target
  induction walks with
  | nil => exact Draft.Writes.refl _
  | text _ ih => exact (Draft.writes_addText _ _).trans ih
  | comment _ ih => exact ih
  | value _ _ _ _ ih =>
    exact (Draft.writes_withRegistry _ _).trans ((Draft.writes_addVariable _ _ _).trans ih)
  | condition _ _ _ opened _ _ inner ih =>
    exact (Draft.writes_withRegistry _ _).trans ((Draft.writes_condition opened inner).trans ih)
  | leaf _ _ leaf _ opened _ ih =>
    exact (Draft.writes_withRegistry _ _).trans ((Draft.writes_leaf leaf opened).trans ih)
  | parent _ _ leaf _ opened _ _ inner ih =>
    exact (Draft.writes_withRegistry _ _).trans ((Draft.writes_parent leaf opened inner).trans ih)

end Walk

/-- No notice says that a condition was closed which was not open. -/
def Silent (notices : List Notice) : Prop := ∀ format, Notice.conditionNotOpen format ∉ notices

theorem silent_nil : Silent [] := by simp [Silent]

theorem silent_append {first second : List Notice} (here : Silent first) (later : Silent second) :
    Silent (first ++ second) := by
  intro format member
  rcases List.mem_append.mp member with early | late
  · exact here format early
  · exact later format late

theorem Reported.silent_bind {ε α β : Type} {x : Reported ε α} {f : α → Reported ε β}
    (first : Silent x.notices) (rest : ∀ a, x.outcome = .ok a → Silent (f a).notices) :
    Silent (x >>= f).notices := by
  change Silent (Reported.bind x f).notices
  unfold Reported.bind
  split
  · exact first
  · rename_i a ended
    exact silent_append first (rest a ended)

namespace Style

theorem silent_readBody (line : Nat) (cs : List ComponentValue) : Silent (readBody line cs).2 := by
  fun_induction readBody line cs with
  | case1 => exact silent_nil
  | case2 =>
    rename_i later
    exact later
  | case3 | case4 =>
    rename_i later inner
    exact silent_append inner later
  | case5 =>
    rename_i later
    intro format member
    rcases List.mem_cons.mp member with told | inside
    · cases told
    · exact later format inside

theorem silent_readRules (fresh : Bool) (line : Nat) (cs : List ComponentValue) :
    Silent (readRules fresh line cs).notices := by
  fun_induction readRules fresh line cs with
  | case1 | case4 | case5 => exact silent_nil
  | case2 =>
    rename_i later
    exact later
  | case3 | case6 =>
    rename_i later
    exact silent_append (silent_readBody _ _) later

theorem silent_parse (css : String) : Silent (parse css).notices := silent_readRules _ _ _

end Style

namespace Attribute

variable {σ α β ε : Type}

/-- A computation that adds no notice about a condition, however it ends. -/
def StaysSilent (x : CompileM σ α) : Prop := ∀ s, Silent s.notices → Silent (x s).2.notices

theorem staysSilent_pure (a : α) : StaysSilent (pure a : CompileM σ α) := fun _ silent => silent

theorem staysSilent_bind {x : CompileM σ α} {f : α → CompileM σ β} (first : StaysSilent x)
    (rest : ∀ a, StaysSilent (f a)) : StaysSilent (x >>= f) := by
  intro s silent
  have here := first s silent
  rw [bind_apply]
  rcases ended : x s with ⟨e | a, t⟩ <;> rw [ended] at here
  · exact here
  · exact rest a t here

theorem staysSilent_onNode (x : Markup.AccessM σ α) : StaysSilent (onNode x) := by
  intro s silent
  unfold onNode
  split <;> exact silent

theorem staysSilent_onRegistry (wrap : ε → AttributeError) (f : Registry → Except ε (α × Registry)) :
    StaysSilent (onRegistry wrap f : CompileM σ α) := by
  intro s silent
  unfold onRegistry
  split <;> exact silent

theorem stepwise_staysSilent : Stepwise (StaysSilent (σ := σ)) where
  pure := staysSilent_pure
  bind := staysSilent_bind
  node := staysSilent_onNode
  value _ _ _ _ := staysSilent_onRegistry _ _
  unusable _ _ := fun _ silent => silent
  share _ _ := staysSilent_onRegistry _ _

theorem staysSilent_withDefaults (tag : String) (attributes : List Attribute) :
    StaysSilent (withDefaults tag attributes : CompileM σ (List Attribute)) := by
  intro s silent
  have told : Silent (Default.notices tag attributes) := by
    unfold Default.notices Silent
    dsimp only
    split <;> simp
  unfold withDefaults
  split
  · exact silent
  · exact silent_append silent told

theorem silent_compile (a : Markup.Access σ) (tag template : String) (node : σ) (r : Registry) :
    Silent (compile a tag template { node, registry := r }).2.notices := by
  have all : StaysSilent (compileAll a (Text.toLowerAscii tag)) := by
    refine staysSilent_bind (staysSilent_onNode _) fun names => ?_
    refine staysSilent_bind (stepwise_staysSilent.authored a _ _) fun authored => ?_
    refine staysSilent_bind (stepwise_staysSilent.bindIds _ _ authored) fun bound => ?_
    refine staysSilent_bind (staysSilent_withDefaults _ bound) fun full => ?_
    split
    · exact fun s silent => silent
    · exact staysSilent_pure _
  have silent := all { node, registry := r } silent_nil
  unfold compile
  split <;> rename_i ended <;> rw [ended] at silent <;> exact silent

end Attribute

theorem Component.Draft.silent_openElement (d : Draft) (tag : String) (attributes : List Attribute)
    (rules : List Style.Rule) (selfClosing : Bool) :
    Silent (d.openElement tag attributes rules selfClosing).notices := by
  refine Reported.silent_bind silent_nil fun handled _ => ?_
  intro format member
  obtain ⟨a, -, told⟩ := List.mem_flatMap.mp member
  unfold attributeNotices at told
  split at told <;> simp at told

theorem Draft.silent_openElement (o : Opening) (s : Draft) : Silent (s.openElement o).notices := by
  cases s with
  | logicLess d => exact silent_nil
  | component d =>
    exact Reported.silent_bind (d.silent_openElement _ _ _ _) fun _ _ => silent_nil

namespace Walk

theorem silent_bind {τ α β : Type} {x : WalkM τ α} {f : α → WalkM τ β} {s : τ}
    (first : Silent (x s).notices)
    (rest : ∀ a t, (x s).outcome = .ok (a, t) → Silent (f a t).notices) :
    Silent ((x >>= f) s).notices :=
  Reported.silent_bind first fun result ended => rest result.1 result.2 ended

variable {c : Context Draft}

theorem silent_share (name : String) (type : KeyType) (s : Draft) :
    Silent (share c name type s).notices := by
  unfold share
  split <;> exact silent_nil

theorem silent_requiredKey (e : Element) (s : Draft) : Silent (requiredKey c e s).notices := by
  unfold requiredKey
  split <;> exact silent_nil

theorem silent_addVariable (e : Element) (children : List Node) (s : Draft) :
    Silent (addVariable c e children s).notices := by
  unfold addVariable
  apply silent_bind (silent_requiredKey e s)
  intro name t _
  apply silent_bind (silent_share name .node t)
  intro key u _
  exact silent_nil

theorem silent_openCondition (e : Element) (s : Draft) : Silent (openCondition c e s).notices := by
  unfold openCondition
  apply silent_bind (silent_requiredKey e s)
  intro expression t _
  cases Condition.parse? expression with
  | none => exact silent_nil
  | some condition =>
    apply silent_bind (silent_share condition.key .string t)
    intro key u _
    split <;> exact silent_nil

theorem silent_openElement (target : c.target = Draft.target) (e : Element) (s : Draft) :
    Silent (openElement c e s).notices := by
  unfold openElement
  apply silent_bind
  · have silent := Attribute.silent_compile Markup.Access.ofElement e.tag c.template e
      (c.target.registry s)
    unfold attributes
    split
    rename_i ended
    rw [ended] at silent
    split <;> exact silent
  · intro attributes t _
    change Silent (c.target.openElement _ t).notices
    rw [target]
    exact Draft.silent_openElement _ t

/-- A condition that was opened is there to be closed after what stands inside. -/
theorem silent_closeCondition (target : c.target = Draft.target) {e : Element} {inner : List Node}
    {s t v : Draft} (opened : (openCondition c e s).outcome = .ok ((), t))
    (walked : (walk c inner t).outcome = .ok ((), v)) : Silent (closeCondition c v).notices := by
  obtain ⟨condition, key, r, -, -, opened⟩ := openCondition_iff.mp opened
  obtain ⟨steps, walks⟩ := Walks.of_walk inner walked
  have kept := walks.writes target
  change Silent (c.target.closeCondition v).1
  rw [target] at opened ⊢
  rcases Draft.openCondition_eq_ok opened with ⟨d, text, -, -, rfl⟩ | ⟨d, -, rfl⟩
  · cases kept with
    | @logicLess _ _ after writes =>
      have top : after.conditions = key :: d.conditions := writes.conditions
      change Silent after.closeCondition.1
      unfold LogicLess.Draft.closeCondition
      rw [top]
      exact silent_nil
  · cases kept with
    | component => exact silent_nil

mutual

theorem silent_walkNode (target : c.target = Draft.target) : (n : Node) → (s : Draft) →
    Silent (walkNode c n s).notices
  | .text _, _ => silent_nil
  | .comment _, _ => silent_nil
  | .element e children, s => by
    unfold walkNode
    split
    · exact silent_addVariable e children s
    · split
      · apply silent_bind (silent_openCondition e s)
        intro _ t opened
        apply silent_bind (silent_walk target children t)
        intro _ v walked
        exact silent_closeCondition target opened walked
      · apply silent_bind (silent_openElement target e s)
        intro name t _
        split
        · apply silent_bind (silent_walk target children t)
          intro _ v _
          exact silent_nil
        · exact silent_nil

/-- Whether it ends well or not, a walk closes no condition that is not open. -/
theorem silent_walk (target : c.target = Draft.target) : (nodes : List Node) → (s : Draft) →
    Silent (walk c nodes s).notices
  | [], _ => silent_nil
  | n :: rest, s => by
    unfold walk
    apply silent_bind (silent_walkNode target n s)
    intro _ t _
    exact silent_walk target rest t

end

end Walk

namespace Template

theorem silent_compileEach (t : Template) (options : Option ComponentOptions) (roots : List Node)
    (rules : List Style.Rule) (formats : List Format) :
    Silent (t.compileEach options roots rules formats).notices := by
  induction formats with
  | nil => exact silent_nil
  | cons format rest ih =>
    unfold compileEach
    apply Reported.silent_bind
    · rw [compileTo_eq]
      apply Reported.silent_bind (Walk.silent_walk rfl roots _)
      intro _ _
      exact silent_nil
    · intro files _
      apply Reported.silent_bind ih
      intro _ _
      exact silent_nil

theorem silent_compile (t : Template) (formats : List Format) (options : Option ComponentOptions) :
    Silent (t.compile formats options).notices := by
  unfold compile
  apply Reported.silent_bind silent_nil
  intro roots _
  apply Reported.silent_bind
  · exact Style.silent_parse t.css
  · intro rules _
    exact silent_compileEach t options roots rules formats

theorem start_conditions (t : Template) (options : Option ComponentOptions) (roots : List Node)
    (format : Format) : (t.start options roots format).conditions = [] := by
  unfold start Draft.start
  cases format.kind <;> rfl

theorem written_of_start {t : Template} {options : Option ComponentOptions} {roots : List Node}
    {format : Format} {d : LogicLess.Draft} (begun : t.start options roots format = .logicLess d) :
    d.written = "" := by
  unfold start Draft.start at begun
  cases kind : format.kind <;> rw [kind] at begun <;> cases begun
  rfl

/-- The walk of a format that ends well tells it the calls of some tree of steps: what is opened last is
closed first, and every element that is not self-closing is closed once, under the name that its opening
answered. So no condition is open in the end, and a Mustache template is the text of the steps, with each
condition a section under one key. Nor is there ever, also in a compilation that fails, a notice that a
condition was closed which was not open. -/
theorem walk_is_nested (t : Template) (options : Option ComponentOptions) :
    (∀ roots rules format files, (t.compileTo options roots rules format).outcome = .ok files →
      ∃ draft steps,
        (Walk.walk (t.context rules) roots (t.start options roots format)).outcome = .ok ((), draft) ∧
        files = draft.files t.css (hasMultipleRoots roots) ∧
        (Walk.walk (t.context rules).recorded roots (t.start options roots format, [])).outcome =
          .ok ((), draft, Walk.callsOf steps) ∧
        draft.conditions = [] ∧
        ∀ d, draft = .logicLess d → d.dialect = .mustache →
          d.written = LogicLess.Mustache.spellSteps steps) ∧
    ∀ formats name, Notice.conditionNotOpen name ∉ (t.compile formats options).notices := by
  constructor
  · intro roots rules format files done
    rw [compileTo_eq] at done
    obtain ⟨⟨_, draft⟩, walked, done⟩ := Reported.bind_eq_ok done
    cases done
    obtain ⟨steps, walks⟩ := Walk.Walks.of_walk roots walked
    have writes := walks.writes rfl
    refine ⟨draft, steps, walked, rfl, (walks.recorded []).walk_eq_ok, ?_, ?_⟩
    · exact writes.conditions.trans (start_conditions t options roots format)
    · rintro d rfl mustache
      generalize begun : t.start options roots format = begin at writes
      cases writes with
      | logicLess writes =>
        have written := writes.written (writes.dialect ▸ mustache)
        rw [written_of_start begun] at written
        simpa using written
  · intro formats name
    exact silent_compile t formats options name

/-- A condition around an element around a condition. -/
theorem walk_is_nested_sections :
    let t : Template := { id := "box", html := "" }
    let inner : Node := .element { tag := conditionTag, attrs := [⟨"key", "size"⟩] }
      [.element { tag := "br", selfClosing := true } []]
    let roots : List Node := [.element { tag := conditionTag, attrs := [⟨"key", " open "⟩] }
      [.element { tag := "p" } [inner], .text "!"]]
    let page := "\x7b\x7b#open\x7d\x7d<p>\x7b\x7b#size\x7d\x7d<br/>\x7b\x7b/size\x7d\x7d</p>!\x7b\x7b/open\x7d\x7d"
    (t.compileTo none roots [] .mustache).outcome = .ok [("mustache/box.mustache", page)] ∧
      ∃ draft steps, [("mustache/box.mustache", page)] = draft.files "" false ∧
        (Walk.walk (t.context []).recorded roots (t.start none roots .mustache, [])).outcome =
          .ok ((), draft, Walk.callsOf steps) ∧ draft.conditions = [] := by
  intro t inner roots page
  have compiled : (t.compileTo none roots [] .mustache).outcome = .ok [("mustache/box.mustache", page)] :=
    ok_of_toOption (by decide +kernel)
  obtain ⟨draft, steps, -, files, recorded, closed, -⟩ :=
    (walk_is_nested t none).1 roots [] .mustache _ compiled
  exact ⟨compiled, draft, steps, files, recorded, closed⟩

end Template

end Stencil
