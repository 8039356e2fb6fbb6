import Stencil.Proofs.FormatIndependence
import Stencil.Proofs.OutputPaths

/-! The files of a build. Templates of different names never write to the same place in different ways, and
an index only replaces what stands where it goes: the component of a template with the name of an index. -/
namespace Stencil

open Markup (Node)

variable {t : Template} {options : Option ComponentOptions} {f : Format}

/-- A file of a build: one of a template that compiles, in some of the formats, or one of the index of a
format over the paths listed for it. -/
inductive Produced (templates : List Template) (formats : List Format) (options : Option ComponentOptions)
    (listed : Format → List String) (file : String × String) : Prop
  | template {t : Template} {chosen : List Format} {outputs : List (Format × FileMap)} {f : Format}
      {files : FileMap} : t ∈ templates → (∀ g ∈ chosen, g ∈ formats) →
      (t.compile chosen options).outcome = .ok outputs → (f, files) ∈ outputs → file ∈ files →
      Produced templates formats options listed file
  | index {f : Format} {files : FileMap} : f ∈ formats → f.indexFiles (listed f) options = .ok files →
      file ∈ files → Produced templates formats options listed file

namespace Template

/-- A template comes to this draft in a format, from several roots or not. -/
def Drafted (t : Template) (options : Option ComponentOptions) (f : Format) (d : Draft) (multipleRoots : Bool) :
    Prop :=
  ∃ roots rules, Markup.parse t.html = .ok roots ∧ (Style.parse t.css).outcome = .ok rules ∧
    (Walk.walk (t.context rules) roots (t.start options roots f)).outcome = .ok ((), d) ∧
    multipleRoots = hasMultipleRoots roots

theorem Drafted.unique {d d' : Draft} {multipleRoots multipleRoots' : Bool}
    (h : t.Drafted options f d multipleRoots) (h' : t.Drafted options f d' multipleRoots') :
    d = d' ∧ multipleRoots = multipleRoots' := by
  obtain ⟨roots, rules, parsed, styled, walked, rfl⟩ := h
  obtain ⟨roots', rules', parsed', styled', walked', rfl⟩ := h'
  rw [parsed] at parsed'
  cases parsed'
  rw [styled] at styled'
  cases styled'
  rw [walked] at walked'
  cases walked'
  exact ⟨rfl, rfl⟩

/-- The places of its files are those of an empty draft. -/
theorem Drafted.filing {d : Draft} {multipleRoots : Bool} (h : t.Drafted options f d multipleRoots) :
    d.filing = (Draft.start f t.id options).filing := by
  obtain ⟨roots, rules, -, -, walked, -⟩ := h
  obtain ⟨steps, walks⟩ := Walk.Walks.of_walk roots walked
  rw [walks.keeps Draft.keeps_filing]
  exact Draft.keeps_filing.withRegistry _ _

theorem drafted_of_compileTo {roots : List Node} {rules : List Style.Rule} {files : FileMap}
    (parsed : Markup.parse t.html = .ok roots) (styled : (Style.parse t.css).outcome = .ok rules)
    (done : (t.compileTo options roots rules f).outcome = .ok files) :
    ∃ d multipleRoots, t.Drafted options f d multipleRoots ∧ files = d.files t.css multipleRoots := by
  rw [outcome_compileTo] at done
  obtain ⟨⟨_, d⟩, walked, done⟩ := bind_eq_ok done
  cases done
  exact ⟨d, _, ⟨roots, rules, parsed, styled, walked, rfl⟩, rfl⟩

theorem compileTo_of_mem {roots : List Node} {rules : List Style.Rule} {chosen : List Format}
    {outputs : List (Format × FileMap)} {files : FileMap}
    (done : (t.compileEach options roots rules chosen).outcome = .ok outputs) (member : (f, files) ∈ outputs) :
    f ∈ chosen ∧ (t.compileTo options roots rules f).outcome = .ok files := by
  induction chosen generalizing outputs with
  | nil =>
    cases done
    cases member
  | cons g rest ih =>
    unfold compileEach at done
    obtain ⟨first, compiled, done⟩ := Reported.bind_eq_ok done
    obtain ⟨later, others, done⟩ := Reported.bind_eq_ok done
    cases done
    rcases List.mem_cons.mp member with same | member
    · cases same
      exact ⟨List.mem_cons_self, compiled⟩
    · obtain ⟨known, compiled⟩ := ih others member
      exact ⟨List.mem_cons_of_mem _ known, compiled⟩

theorem drafted_of_compile {chosen : List Format} {outputs : List (Format × FileMap)} {files : FileMap}
    (done : (t.compile chosen options).outcome = .ok outputs) (member : (f, files) ∈ outputs) :
    f ∈ chosen ∧ ∃ d multipleRoots, t.Drafted options f d multipleRoots ∧ files = d.files t.css multipleRoots := by
  unfold compile at done
  obtain ⟨roots, parsed, done⟩ := Reported.bind_eq_ok done
  obtain ⟨rules, styled, done⟩ := Reported.bind_eq_ok done
  obtain ⟨known, compiled⟩ := compileTo_of_mem done member
  exact ⟨known, drafted_of_compileTo (mapError_eq_ok parsed) (Reported.mapError_eq_ok styled) compiled⟩

/-- A template compiles to one format just if it comes to a draft in it. -/
theorem compile_single_iff {outputs : List (Format × FileMap)} :
    (t.compile [f] options).outcome = .ok outputs ↔
      ∃ d multipleRoots, t.Drafted options f d multipleRoots ∧ outputs = [(f, d.files t.css multipleRoots)] := by
  rw [outcome_compile_single]
  constructor
  · intro done
    obtain ⟨roots, parsed, done⟩ := bind_eq_ok done
    obtain ⟨rules, styled, done⟩ := bind_eq_ok done
    obtain ⟨files, compiled, done⟩ := bind_eq_ok done
    obtain ⟨d, multipleRoots, drafted, rfl⟩ :=
      drafted_of_compileTo (mapError_eq_ok parsed) (mapError_eq_ok styled) compiled
    cases done
    exact ⟨d, multipleRoots, drafted, rfl⟩
  · rintro ⟨d, multipleRoots, ⟨roots, rules, parsed, styled, walked, rfl⟩, rfl⟩
    rw [parsed, styled]
    change (t.compileTo options roots rules f).outcome >>= (fun files => pure [(f, files)]) = _
    rw [outcome_compileTo, walked]
    rfl

end Template

namespace Draft

variable {d : Draft} {css : String} {multipleRoots : Bool} {p : Place}

/-- What a draft holds is named after its template, and stands in the directory of the format unless it is
the stylesheet. -/
theorem place_of_mem {template content : String} (filed : d.filing = (start f template options).filing)
    (member : (p, content) ∈ d.contents css multipleRoots) :
    p.stem = template ∧ (p.directory = f.name ∨ p = .sheet template ∧ content = css) := by
  have named : d.filing.1 = f ∧ d.filing.2.1 = template := by
    rw [filed]
    cases kind : f.kind with
    | logicLess dialect =>
      rw [start_logicLess kind]
      exact ⟨rfl, rfl⟩
    | component defaults =>
      rw [start_component kind]
      exact ⟨rfl, rfl⟩
  obtain ⟨rfl, rfl⟩ := named
  cases d with
  | logicLess d =>
    unfold contents at member
    rcases List.mem_cons.mp member with same | member
    · cases same
      exact ⟨rfl, .inl rfl⟩
    · split at member
      · cases member
      · cases List.mem_singleton.mp member
        exact ⟨rfl, .inl rfl⟩
  | component d =>
    unfold contents at member
    rcases List.mem_cons.mp member with same | member
    · cases same
      exact ⟨rfl, .inl rfl⟩
    · split at member
      · cases List.mem_singleton.mp member
        exact ⟨rfl, .inr ⟨rfl, rfl⟩⟩
      · cases member

theorem component_mem_contents {template : String} {defaults : ComponentOptions}
    (kind : f.kind = .component defaults) (filed : d.filing = (start f template options).filing) (css : String)
    (multipleRoots : Bool) :
    ∃ c : Component.Draft, (.page f template, c.program css multipleRoots) ∈ d.contents css multipleRoots := by
  rw [start_component kind] at filed
  cases d with
  | logicLess d => cases (Prod.mk.inj (Prod.mk.inj filed).2).2
  | component d =>
    obtain ⟨rfl, rest⟩ := Prod.mk.inj filed
    obtain ⟨rfl, -⟩ := Prod.mk.inj rest
    exact ⟨d, List.mem_cons_self⟩

theorem nodup_contents (css : String) (multipleRoots : Bool) (d : Draft) :
    ((d.contents css multipleRoots).map (·.1)).Nodup := by
  cases d with
  | logicLess d => by_cases empty : d.lookup.isEmpty = true <;> simp [contents, empty]
  | component d =>
    simp only [contents]
    split <;> simp

theorem content_unique {content content' : String} (h : (p, content) ∈ d.contents css multipleRoots)
    (h' : (p, content') ∈ d.contents css multipleRoots) : content = content' :=
  (Prod.mk.inj (List.inj_on_of_nodup_map (nodup_contents css multipleRoots d) h h' rfl)).2

end Draft

namespace Component

theorem head_import : "import React from 'react';\n".toList.head? = some 'i' := by decide

theorem head_program (d : Draft) (css : String) (multipleRoots : Bool) :
    (d.program css multipleRoots).toList.head? = some 'i' := by
  have imports : ∃ rest, d.program css multipleRoots = "import React from 'react';\n" ++ rest := by
    unfold Draft.program Draft.imports
    simp only [String.append_assoc]
    exact ⟨_, rfl⟩
  obtain ⟨rest, whole⟩ := imports
  rw [whole, String.toList_append, List.head?_append, head_import]
  rfl

theorem head_lazyNote : lazyNote.toList.head? = some '/' := by decide +kernel

theorem head_eagerNote : eagerNote.toList.head? = some '/' := by decide +kernel

/-- A component starts with its imports, an index with a note. -/
theorem program_ne_note (d : Draft) (css : String) (multipleRoots : Bool) {note : String}
    (starts : note.toList.head? = some '/') (rest : String) : d.program css multipleRoots ≠ note ++ rest := by
  intro same
  have first := head_program d css multipleRoots
  rw [same, String.toList_append, List.head?_append, starts] at first
  cases first

end Component

section Index

variable {paths : List String} {files : FileMap}

theorem mem_indexFiles {defaults : ComponentOptions} (kind : f.kind = .component defaults)
    (done : f.indexFiles paths options = .ok files) :
    ∃ lazy eager, ∀ file, file ∈ files ↔
      file = ((Place.page f "index").path options, Component.lazyNote ++ lazy) ∨
        file = ((Place.page f "indexNotLazy").path options, Component.eagerNote ++ eager) := by
  unfold Format.indexFiles at done
  rw [kind] at done
  obtain ⟨stems, -, done⟩ := bind_eq_ok done
  cases done
  have ending : f.extension options = (options.getD defaults).language.fileExtension := by
    unfold Format.extension
    rw [kind]
  have path (stem : String) : (Place.page f stem).path options =
      f.name ++ ("/" ++ stem) ++ ("." ++ (options.getD defaults).language.fileExtension) := by
    rw [← ending]
    exact congrArg (· ++ ("." ++ f.extension options)) String.append_assoc
  refine ⟨Text.concat ((stems.filter (!Component.isIndex ·)).map Component.lazyExport),
    Text.concat ((stems.filter (!Component.isIndex ·)).map Component.eagerExport), fun file => ?_⟩
  rw [← Place.mem_insert_two (by simp), path, path]
  rfl

theorem component_of_mem_indexFiles (done : f.indexFiles paths options = .ok files) {file : String × String}
    (member : file ∈ files) : ∃ defaults, f.kind = .component defaults := by
  cases kind : f.kind with
  | logicLess dialect =>
    unfold Format.indexFiles at done
    rw [kind] at done
    cases done
    cases member
  | component defaults => exact ⟨defaults, rfl⟩

/-- A file of an index goes where the component of a template with its name would go. -/
theorem place_of_mem_indexFiles (done : f.indexFiles paths options = .ok files) {path content : String}
    (member : (path, content) ∈ files) :
    ∃ stem, Component.isIndex stem = true ∧ path = (Place.page f stem).path options := by
  obtain ⟨defaults, kind⟩ := component_of_mem_indexFiles done member
  obtain ⟨lazy, eager, all⟩ := mem_indexFiles kind done
  rcases (all _).mp member with same | same
  · exact ⟨"index", rfl, (Prod.mk.inj same).1⟩
  · exact ⟨"indexNotLazy", rfl, (Prod.mk.inj same).1⟩

theorem index_content_unique (done : f.indexFiles paths options = .ok files) {path a b : String}
    (h : (path, a) ∈ files) (h' : (path, b) ∈ files) : a = b := by
  obtain ⟨defaults, kind⟩ := component_of_mem_indexFiles done h
  obtain ⟨lazy, eager, all⟩ := mem_indexFiles kind done
  have apart : (Place.page f "index").path options ≠ (Place.page f "indexNotLazy").path options := by
    intro same
    exact absurd (Place.page.inj (Place.path_injective options same)).2 (by decide)
  rcases (all _).mp h with same | same <;> rcases (all _).mp h' with same' | same' <;> cases same
  · exact (Prod.mk.inj same').2.symm
  · exact (apart (Prod.mk.inj same').1).elim
  · exact (apart (Prod.mk.inj same').1.symm).elim
  · exact (Prod.mk.inj same').2.symm

/-- An index has a file for each of its names, which starts with a note. -/
theorem exists_mem_indexFiles {defaults : ComponentOptions} (kind : f.kind = .component defaults)
    (done : f.indexFiles paths options = .ok files) {stem : String} (index : Component.isIndex stem = true) :
    ∃ note rest, note.toList.head? = some '/' ∧ ((Place.page f stem).path options, note ++ rest) ∈ files := by
  obtain ⟨lazy, eager, all⟩ := mem_indexFiles kind done
  rw [Component.isIndex, Bool.or_eq_true, beq_iff_eq, beq_iff_eq] at index
  rcases index with rfl | rfl
  · exact ⟨_, lazy, Component.head_lazyNote, (all _).mpr (.inl rfl)⟩
  · exact ⟨_, eager, Component.head_eagerNote, (all _).mpr (.inr rfl)⟩

end Index

section Agreement

variable {templates : List Template} {formats : List Format} {listed : Format → List String}

theorem Produced.cases {file : String × String} (h : Produced templates formats options listed file) :
    (∃ t ∈ templates, ∃ f ∈ formats, ∃ d multipleRoots, t.Drafted options f d multipleRoots ∧
      ∃ p ∈ d.contents t.css multipleRoots, file = (p.1.path options, p.2)) ∨
    ∃ f ∈ formats, ∃ files, f.indexFiles (listed f) options = .ok files ∧ file ∈ files := by
  cases h with
  | @template t chosen outputs f files known within done output member =>
    obtain ⟨selected, d, multipleRoots, drafted, rfl⟩ := Template.drafted_of_compile done output
    exact .inl ⟨t, known, f, within f selected, d, multipleRoots, drafted,
      (Draft.mem_files drafted.filing _ _ _).mp member⟩
  | index known done member => exact .inr ⟨_, known, _, done, member⟩

/-- Files of templates with the same place come from one template; only a stylesheet may come from several
formats. -/
theorem contents_agree (apart : (templates.map (·.id)).Nodup) {t t' : Template} (known : t ∈ templates)
    (known' : t' ∈ templates) {f f' : Format} {d d' : Draft} {multipleRoots multipleRoots' : Bool}
    (drafted : t.Drafted options f d multipleRoots) (drafted' : t'.Drafted options f' d' multipleRoots')
    {p : Place} {c c' : String} (h : (p, c) ∈ d.contents t.css multipleRoots)
    (h' : (p, c') ∈ d'.contents t'.css multipleRoots') : c = c' := by
  obtain ⟨stem, place⟩ := Draft.place_of_mem drafted.filing h
  obtain ⟨stem', place'⟩ := Draft.place_of_mem drafted'.filing h'
  obtain rfl : t = t' := List.inj_on_of_nodup_map apart known known' (stem.symm.trans stem')
  have sheet {g : Format} {s : String} (inside : p.directory = g.name) (same : p = .sheet s) : False := by
    rw [same] at inside
    exact g.name_ne_css inside.symm
  rcases place with inside | ⟨outside, rfl⟩
  · rcases place' with inside' | ⟨outside', rfl⟩
    · obtain rfl := Format.name_injective (inside.symm.trans inside')
      obtain ⟨rfl, rfl⟩ := drafted.unique drafted'
      exact Draft.content_unique h h'
    · exact (sheet inside outside').elim
  · rcases place' with inside' | ⟨-, rfl⟩
    · exact (sheet inside' outside).elim
    · rfl

/-- A file of an index has the path of a file of a template only if the template has its name. -/
theorem clash_of_path {t : Template} {f f' : Format} {d : Draft} {multipleRoots : Bool}
    (drafted : t.Drafted options f d multipleRoots) {p : Place} {c : String}
    (h : (p, c) ∈ d.contents t.css multipleRoots) {paths : List String} {files : FileMap}
    (done : f'.indexFiles paths options = .ok files) {path content : String} (member : (path, content) ∈ files)
    (same : path = p.path options) : f' = f ∧ Component.isIndex t.id = true := by
  obtain ⟨stem, index, place⟩ := place_of_mem_indexFiles done member
  obtain rfl : p = .page f' stem := Place.path_injective options (same.symm.trans place)
  obtain ⟨rfl, inside | ⟨sheet, -⟩⟩ := Draft.place_of_mem drafted.filing h
  · exact ⟨Format.name_injective inside, index⟩
  · cases sheet

end Agreement

/-- Files of one path in a build have one content just if no template named like an index compiles to a
component format whose index is made as well. -/
theorem files_agree_iff {templates : List Template} (apart : (templates.map (·.id)).Nodup)
    (formats : List Format) (options : Option ComponentOptions) (listed : Format → List String) :
    (∀ path a b, Produced templates formats options listed (path, a) →
      Produced templates formats options listed (path, b) → a = b) ↔
    ∀ t ∈ templates, ∀ f ∈ formats, ∀ defaults, f.kind = .component defaults →
      Component.isIndex t.id = true → (∃ outputs, (t.compile [f] options).outcome = .ok outputs) →
        ∀ files, f.indexFiles (listed f) options ≠ .ok files := by
  constructor
  · rintro agree t known f selected defaults kind index ⟨outputs, compiled⟩ files done
    obtain ⟨d, multipleRoots, drafted, rfl⟩ := Template.compile_single_iff.mp compiled
    obtain ⟨note, rest, starts, member⟩ := exists_mem_indexFiles kind done index
    obtain ⟨c, page⟩ := Draft.component_mem_contents kind drafted.filing t.css multipleRoots
    have component := (Draft.mem_files drafted.filing _ _ _).mpr ⟨_, page, rfl⟩
    exact Component.program_ne_note c _ _ starts rest (agree _ _ _
      (.template known (by simpa using selected) compiled (List.mem_singleton_self _) component)
      (.index selected done member))
  · intro clear path a b first second
    -- A file of a template and one of an index never meet.
    have disjoint {t : Template} (known : t ∈ templates) {f f' : Format} (selected : f ∈ formats) {d : Draft}
        {multipleRoots : Bool} (drafted : t.Drafted options f d multipleRoots) {p : Place × String}
        (h : p ∈ d.contents t.css multipleRoots) {c c' : String} (place : (path, c) = (p.1.path options, p.2))
        {files : FileMap} (done : f'.indexFiles (listed f') options = .ok files) (member : (path, c') ∈ files) :
        False := by
      obtain ⟨rfl, index⟩ := clash_of_path drafted h done member (Prod.mk.inj place).1
      obtain ⟨defaults, kind⟩ := component_of_mem_indexFiles done member
      exact clear t known f' selected defaults kind index
        ⟨_, Template.compile_single_iff.mpr ⟨d, multipleRoots, drafted, rfl⟩⟩ files done
    rcases first.cases with ⟨t, known, f, selected, d, multipleRoots, drafted, p, h, place⟩ |
      ⟨f, selected, files, done, member⟩
    · rcases second.cases with ⟨t', known', f', -, d', multipleRoots', drafted', p', h', place'⟩ |
        ⟨f', -, files', done', member'⟩
      · obtain ⟨samePath, rfl⟩ := Prod.mk.inj place
        obtain ⟨samePath', rfl⟩ := Prod.mk.inj place'
        have same : p.1 = p'.1 := Place.path_injective options (samePath.symm.trans samePath')
        exact contents_agree apart known known' drafted drafted' h (same ▸ h')
      · exact (disjoint known selected drafted h place done' member').elim
    · rcases second.cases with ⟨t', known', f', selected', d', multipleRoots', drafted', p', h', place'⟩ |
        ⟨f', -, files', done', member'⟩
      · exact (disjoint known' selected' drafted' h' place' done member).elim
      · obtain ⟨stem, -, place⟩ := place_of_mem_indexFiles done member
        obtain ⟨stem', -, place'⟩ := place_of_mem_indexFiles done' member'
        obtain ⟨rfl, -⟩ := Place.page.inj (Place.path_injective options (place.symm.trans place'))
        rw [done] at done'
        cases done'
        exact index_content_unique done member member'

/-- One card in every format: no file is written over another. -/
theorem files_agree_card :
    let templates : List Template := [⟨"card", "<p>Hi</p>", ".card \x7b color: red \x7d"⟩]
    let listed (f : Format) := [f.name ++ "/card.tsx"]
    ∀ path a b, Produced templates Format.all none listed (path, a) →
      Produced templates Format.all none listed (path, b) → a = b := by
  intro templates listed
  refine (files_agree_iff (by simp [templates]) Format.all none listed).2 ?_
  intro t known f _ _ _ index
  obtain rfl := List.mem_singleton.1 known
  exact absurd index (by decide)

/-- The index replaces the component of a template that is named like it. -/
theorem index_replaces_component :
    let t : Template := ⟨"index", "<p>Hi</p>", ""⟩
    let component := "import React from 'react';\n\nconst Index = (\x7b\x7d) => (\n  <p>Hi</p>\n);\n\n" ++
      "export default Index;\n"
    component ≠ Component.lazyNote ∧
      Produced [t] [.reactJs] none (fun _ => []) ("react-js/index.js", component) ∧
      Produced [t] [.reactJs] none (fun _ => []) ("react-js/index.js", Component.lazyNote) := by
  intro t component
  have compiled : (t.compile [.reactJs] none).outcome = .ok [(.reactJs, [("react-js/index.js", component)])] :=
    ok_of_toOption (by decide +kernel)
  have indexed : Format.reactJs.indexFiles [] none = .ok [("react-js/index.js", Component.lazyNote),
      ("react-js/indexNotLazy.js", Component.eagerNote)] := ok_of_toOption (by decide +kernel)
  exact ⟨by decide +kernel,
    .template (List.mem_singleton_self _) (fun _ member => member) compiled (List.mem_singleton_self _)
      (List.mem_singleton_self _),
    .index (List.mem_singleton_self _) indexed List.mem_cons_self⟩

end Stencil
