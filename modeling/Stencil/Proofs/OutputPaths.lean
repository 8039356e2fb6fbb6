import Stencil.Proofs.WalkSteps

/-! Where the files of a template and of an index go. A path tells the directory, the stem and the ending it
was made of, so files of one build that have the same path have the same place. A walk changes nothing that
the places of a draft's files depend on. -/
namespace Stencil

open Markup (Node)

/-- The ending of what a format writes, without the point. -/
def Format.extension (options : Option ComponentOptions) (f : Format) : String :=
  match f.kind with
  | .logicLess dialect => ({ format := f, dialect, template := "" } : LogicLess.Draft).fileExtension
  | .component defaults => (options.getD defaults).language.fileExtension

theorem Format.extension_mem (options : Option ComponentOptions) (f : Format) :
    f.extension options ∈ ["mustache", "twig", "ss", "tsx", "js"] := by
  unfold Format.extension
  split
  · unfold LogicLess.Draft.fileExtension
    split <;> decide
  · rename_i defaults _
    cases (options.getD defaults).language <;> decide

theorem Format.name_injective : Function.Injective Format.name := by
  intro f g same
  cases f <;> cases g <;> first | rfl | exact absurd same (by decide)

theorem Format.name_ne_css (f : Format) : f.name ≠ "css" := by cases f <;> decide

theorem Format.slash_name (f : Format) : '/' ∉ f.name.toList := by cases f <;> decide

/-- A place for a file: the page or component of a format, a table of options, or a stylesheet. -/
inductive Place where
  | page (format : Format) (stem : String)
  | lookup (format : Format) (stem : String)
  | sheet (stem : String)
  deriving DecidableEq

namespace Place

def directory : Place → String
  | page f _ => f.name
  | lookup f _ => f.name
  | sheet _ => "css"

def stem : Place → String
  | page _ s => s
  | lookup _ s => s
  | sheet s => s

def ending (options : Option ComponentOptions) : Place → String
  | page f _ => "." ++ f.extension options
  | lookup _ _ => ".lookup.json"
  | sheet _ => ".css"

def path (options : Option ComponentOptions) (p : Place) : String :=
  p.directory ++ "/" ++ p.stem ++ p.ending options

theorem slash_directory (p : Place) : '/' ∉ p.directory.toList := by
  cases p with
  | page f s => exact f.slash_name
  | lookup f s => exact f.slash_name
  | sheet s => exact (by decide : '/' ∉ "css".toList)

/-- No page ends like a table of options. -/
theorem last_extension (options : Option ComponentOptions) (f : Format) :
    ∃ c, ("." ++ f.extension options).toList.getLast? = some c ∧ c ≠ 'n' := by
  have ends : (["mustache", "twig", "ss", "tsx", "js"].all fun e =>
      ("." ++ e).toList.getLast?.any (· != 'n')) = true := by decide
  obtain ⟨c, last, other⟩ := (Option.any_eq_true _ _).1 (List.all_eq_true.1 ends _ (f.extension_mem options))
  exact ⟨c, last, by simpa using other⟩

theorem parts_of_path {options : Option ComponentOptions} {p q : Place}
    (same : p.path options = q.path options) : p.directory = q.directory ∧
      p.stem.toList ++ (p.ending options).toList = q.stem.toList ++ (q.ending options).toList := by
  have split (r : Place) : Text.Chars.splitOnce? ['/'] (r.path options).toList =
      some (r.directory.toList, r.stem.toList ++ (r.ending options).toList) := by
    have whole : (r.path options).toList =
        r.directory.toList ++ '/' :: ([] ++ (r.stem.toList ++ (r.ending options).toList)) := by
      simp [path]
    rw [whole]
    exact Text.Chars.splitOnce?_append '/' [] _ _ r.slash_directory
  have parts := split p
  rw [same, split q] at parts
  obtain ⟨directory, rest⟩ := Prod.mk.inj (Option.some.inj parts)
  exact ⟨(String.toList_inj.mp directory).symm, rest.symm⟩

theorem path_injective (options : Option ComponentOptions) : Function.Injective (path options) := by
  have apart (f : Format) (s s' : String) : s.toList ++ ("." ++ f.extension options).toList ≠
      s'.toList ++ ".lookup.json".toList := by
    intro rest
    obtain ⟨c, last, other⟩ := last_extension options f
    have ends := congrArg List.getLast? rest
    rw [List.getLast?_append, List.getLast?_append, last] at ends
    exact other (Option.some.inj ends)
  intro p q same
  obtain ⟨directory, rest⟩ := parts_of_path same
  cases p with
  | page f s =>
    cases q with
    | page g s' =>
      obtain rfl := Format.name_injective directory
      exact congrArg (page f) (String.toList_inj.mp (List.append_cancel_right rest))
    | lookup g s' => exact absurd rest (apart f s s')
    | sheet s' => exact absurd directory (Format.name_ne_css f)
  | lookup f s =>
    cases q with
    | page g s' => exact absurd rest.symm (apart g s' s)
    | lookup g s' =>
      obtain rfl := Format.name_injective directory
      exact congrArg (lookup f) (String.toList_inj.mp (List.append_cancel_right rest))
    | sheet s' => exact absurd directory (Format.name_ne_css f)
  | sheet s =>
    cases q with
    | page g s' => exact absurd directory.symm (Format.name_ne_css g)
    | lookup g s' => exact absurd directory.symm (Format.name_ne_css g)
    | sheet s' => exact congrArg sheet (String.toList_inj.mp (List.append_cancel_right rest))

end Place

/-- A file that is new to some files is added to them. -/
theorem FileMap.mem_insert {files : FileMap} {path : String} (fresh : ∀ f ∈ files, f.1 ≠ path) (content : String)
    (file : String × String) : file ∈ files.insert path content ↔ file = (path, content) ∨ file ∈ files := by
  induction files with
  | nil => simp [FileMap.insert]
  | cons f rest ih =>
    rw [List.forall_mem_cons] at fresh
    unfold FileMap.insert
    split
    · rw [List.mem_cons]
    · rw [if_neg (by simpa using fresh.1), List.mem_cons, List.mem_cons, ih fresh.2]
      exact or_left_comm

theorem Place.mem_insert_two {options : Option ComponentOptions} {p q : Place} (other : p ≠ q) {c e : String}
    {file : String × String} :
    file ∈ (FileMap.insert [] (p.path options) c).insert (q.path options) e ↔
      file = (p.path options, c) ∨ file = (q.path options, e) := by
  have fresh : ∀ f ∈ FileMap.insert [] (p.path options) c, f.1 ≠ q.path options := by
    intro f member same
    obtain rfl := List.mem_singleton.1 member
    exact other (path_injective options same)
  rw [FileMap.mem_insert fresh, FileMap.mem_insert (by simp), or_comm]
  simp

/-- What none of the steps of a target changes. -/
structure Target.Keeps {τ α : Type} (t : Target τ) (view : τ → α) : Prop where
  withRegistry : ∀ r s, view (t.withRegistry r s) = view s
  openElement : ∀ {o s name u}, (t.openElement o s).outcome = .ok (name, u) → view u = view s
  closeElement : ∀ name s, view (t.closeElement name s) = view s
  addText : ∀ text s, view (t.addText text s) = view s
  addVariable : ∀ key default s, view (t.addVariable key default s) = view s
  openCondition : ∀ {c s u}, t.openCondition c s = .ok u → view u = view s
  closeCondition : ∀ s, view (t.closeCondition s).2 = view s

theorem Walk.Walks.keeps {τ α : Type} {c : Context τ} {view : τ → α} (keeps : c.target.Keeps view)
    {nodes : List Node} {s u : τ} {steps : List Step} (walks : Walks c nodes s steps u) : view u = view s := by
  induction walks with
  | nil => rfl
  | text _ ih => rw [ih, keeps.addText]
  | comment _ ih => exact ih
  | value _ _ _ _ ih => rw [ih, keeps.addVariable, keeps.withRegistry]
  | condition _ _ _ opened _ _ inner ih =>
    rw [ih, keeps.closeCondition, inner, keeps.openCondition opened, keeps.withRegistry]
  | leaf _ _ _ _ opened _ ih => rw [ih, keeps.openElement opened, keeps.withRegistry]
  | parent _ _ _ _ opened _ _ inner ih =>
    rw [ih, keeps.closeElement, inner, keeps.openElement opened, keeps.withRegistry]

namespace Draft

/-- What the places of a draft's files depend on: its format, its template, and the options of a component. -/
def filing : Draft → Format × String × Option ComponentOptions
  | logicLess d => (d.format, d.template, none)
  | component d => (d.format, d.template, some d.options)

theorem filing_openElement {o : Opening} {s u : Draft} {name : String}
    (opened : (s.openElement o).outcome = .ok (name, u)) : u.filing = s.filing := by
  cases s with
  | logicLess d =>
    cases opened
    rfl
  | component d =>
    obtain ⟨⟨shown, after⟩, inner, done⟩ := Reported.bind_eq_ok opened
    cases done
    obtain ⟨added, registry, props, styled, -, named, rfl⟩ := Component.Draft.styled_of_openElement inner
    have same := congrArg (fun r => filing (.component r.2)) named
    rw [Component.Draft.styleElement] at same
    split at same <;> exact same.symm

theorem keeps_filing : Draft.target.Keeps filing where
  withRegistry r s := by cases s <;> rfl
  openElement := filing_openElement
  closeElement name s := by cases s <;> rfl
  addText text s := by cases s <;> rfl
  addVariable key default s := by
    cases s with
    | logicLess d =>
      change filing (.logicLess (d.addVariable key)) = _
      unfold LogicLess.Draft.addVariable
      split <;> rfl
    | component d =>
      change filing (.component (d.addVariable key default)) = _
      unfold Component.Draft.addVariable
      split <;> rfl
  openCondition {c s u} opened := by
    rcases openCondition_eq_ok opened with ⟨d, text, rfl, -, rfl⟩ | ⟨d, rfl, rfl⟩ <;> rfl
  closeCondition s := by
    cases s with
    | logicLess d =>
      change filing (.logicLess d.closeCondition.2) = _
      unfold LogicLess.Draft.closeCondition
      split <;> rfl
    | component d => rfl

/-- What a finished draft has for each place. -/
def contents (css : String) (multipleRoots : Bool) : Draft → List (Place × String)
  | logicLess d =>
    let note := if d.dialect = .mustache ∧ d.unescaped ≠ [] then LogicLess.Draft.unescapedNote d.unescaped else ""
    (.page d.format d.template, Text.trim (note ++ d.written)) ::
      if d.lookup.isEmpty then []
      else [(.lookup d.format d.template, (LogicLess.Lookup.toJson d.lookup).pretty)]
  | component d =>
    (.page d.format d.template, d.program css multipleRoots) ::
      if d.options.css = .importCss ∧ Text.allBlank css = false then [(.sheet d.template, css)] else []

theorem start_logicLess {format : Format} {dialect : Dialect} (kind : format.kind = .logicLess dialect)
    (template : String) (options : Option ComponentOptions) :
    start format template options = .logicLess { format, dialect, template } := by
  unfold start
  rw [kind]

theorem start_component {format : Format} {defaults : ComponentOptions} (kind : format.kind = .component defaults)
    (template : String) (options : Option ComponentOptions) :
    start format template options = .component { format, options := options.getD defaults, template } := by
  unfold start
  rw [kind]

/-- The ending of a draft's page, without the point. -/
def extension : Draft → String
  | logicLess d => d.fileExtension
  | component d => d.options.language.fileExtension

theorem extension_eq {format : Format} {template : String} {options : Option ComponentOptions} {d : Draft}
    (filed : d.filing = (start format template options).filing) : d.extension = d.format.extension options := by
  cases kind : format.kind with
  | logicLess dialect =>
    rw [start_logicLess kind] at filed
    cases d with
    | logicLess d =>
      obtain ⟨rfl, -⟩ := Prod.mk.inj filed
      show d.fileExtension = d.format.extension options
      unfold Format.extension
      rw [kind]
      rfl
    | component d => cases (Prod.mk.inj (Prod.mk.inj filed).2).2
  | component defaults =>
    rw [start_component kind] at filed
    cases d with
    | logicLess d => cases (Prod.mk.inj (Prod.mk.inj filed).2).2
    | component d =>
      obtain ⟨rfl, rest⟩ := Prod.mk.inj filed
      have given := Option.some.inj (Prod.mk.inj rest).2
      show d.options.language.fileExtension = d.format.extension options
      unfold Format.extension
      rw [kind, given]

/-- The page of a draft and perhaps a second file, which has a place of its own. -/
theorem mem_files {format : Format} {template : String} {options : Option ComponentOptions} {d : Draft}
    (filed : d.filing = (start format template options).filing) (css : String) (multipleRoots : Bool)
    (file : String × String) :
    file ∈ d.files css multipleRoots ↔ ∃ p ∈ d.contents css multipleRoots, file = (p.1.path options, p.2) := by
  have ending := extension_eq filed
  cases d with
  | logicLess d =>
    have page : d.format.name ++ "/" ++ d.template ++ "." ++ d.fileExtension =
        (Place.page d.format d.template).path options := by
      rw [show d.fileExtension = d.format.extension options from ending, String.append_assoc]
      rfl
    have table : d.format.name ++ "/" ++ d.template ++ ".lookup.json" =
        (Place.lookup d.format d.template).path options := rfl
    simp only [files, LogicLess.Draft.files, contents, page, table]
    split
    · simp [FileMap.insert]
    · rw [Place.mem_insert_two (by simp)]
      simp
  | component d =>
    have page : d.format.name ++ "/" ++ d.template ++ "." ++ d.options.language.fileExtension =
        (Place.page d.format d.template).path options := by
      rw [show d.options.language.fileExtension = d.format.extension options from ending, String.append_assoc]
      rfl
    have sheet : d.cssPath = (Place.sheet d.template).path options := rfl
    simp only [files, Component.Draft.files, contents, page, sheet]
    split
    · rw [Place.mem_insert_two (by simp)]
      simp
    · simp [FileMap.insert]

end Draft

end Stencil
