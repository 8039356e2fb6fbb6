import Stencil.Attribute.Compile
import Stencil.Proofs.MarkerScan
import Stencil.Proofs.RegistryGrants

/-! Reading a value, all of it or nothing. Whatever is wrong with a value shows before its first marker is
registered, and no registry refuses a marker that was read; so the markers can as well be registered in
place, one by one, and a value that is refused leaves no key behind. -/
namespace Stencil

open Registry (Grant Grants)

/-- A step on the registry at hand, which a failure leaves as it was. -/
def inPlace {ε α : Type} (f : Registry → Except ε (α × Registry)) : ExceptT ε (StateM Registry) α := fun r =>
  match f r with
  | .ok (a, r') => (.ok a, r')
  | .error e => (.error e, r)

theorem inPlace_of_ok {ε α : Type} {f : Registry → Except ε (α × Registry)} {r r' : Registry} {a : α}
    (done : f r = .ok (a, r')) : inPlace f r = (.ok a, r') := by
  simp only [inPlace, done]

theorem inPlace_of_error {ε α : Type} {f : Registry → Except ε (α × Registry)} {r : Registry} {e : ε}
    (failed : f r = .error e) : inPlace f r = (.error e, r) := by
  simp only [inPlace, failed]

theorem inPlace_eq_error_iff {ε α : Type} {f : Registry → Except ε (α × Registry)} {r r' : Registry} {e : ε} :
    inPlace f r = (.error e, r') ↔ f r = .error e ∧ r' = r := by
  constructor
  · intro failed
    unfold inPlace at failed
    split at failed
    · cases failed
    · rename_i reason ended
      cases failed
      exact ⟨ended, rfl⟩
  · rintro ⟨failed, rfl⟩
    exact inPlace_of_error failed

namespace Marker

/-- The markers registered in place, one after the other: a failure leaves registered what came before. -/
def registerEach (plain : KeyType) (tag : String) :
    List Marker → ExceptT MarkerError (StateM Registry) (List Binding)
  | [] => return []
  | m :: rest => do
    let binding ← inPlace (m.register plain tag)
    let later ← registerEach plain tag rest
    return binding :: later

/-- How a binding stands for a marker: two options or more are an enumeration, a single one is the text of
a flag, and without options the type is that of plain markers. -/
structure StandsFor (plain : KeyType) (m : Marker) (b : Binding) : Prop where
  optional : b.optional = m.optional
  type : (∃ options, m.options = some options ∧ 2 ≤ options.length ∧ b.type = .enumeration options ∧
      b.ifTrue = none) ∨
    (∃ only, m.options = some [only] ∧ b.type = .boolean ∧ b.ifTrue = some only.value) ∨
    m.options = none ∧ b.type = plain ∧ b.ifTrue = none

def bound (plain : KeyType) (m : Marker) (key : String) : Binding :=
  { key, optional := m.optional, type := m.keyType plain, ifTrue := m.ifTrue }

def request (plain : KeyType) (tag : String) (m : Marker) (key : String) : Grant :=
  ⟨.registerMarker, m.key, { type := m.keyType plain, optional := m.optional, tag := some tag }, key⟩

theorem standsFor_bound {plain : KeyType} {m : Marker} (filled : m.options ≠ some []) (key : String) :
    StandsFor plain m (m.bound plain key) := by
  refine ⟨rfl, ?_⟩
  cases options : m.options with
  | none => exact .inr (.inr ⟨rfl, by simp [bound, keyType, options], by simp [bound, ifTrue, options]⟩)
  | some choices =>
    rcases choices with _ | ⟨first, _ | ⟨second, rest⟩⟩
    · exact absurd options filled
    · exact .inr (.inl ⟨first, rfl, by simp [bound, keyType, options], by simp [bound, ifTrue, options]⟩)
    · exact .inl ⟨_, rfl, by simp, by simp [bound, keyType, options], by simp [bound, ifTrue, options]⟩

theorem register_eq_ok (plain : KeyType) (tag : String) {m : Marker} (named : Text.trim m.key ≠ "")
    (r : Registry) :
    ∃ key r', m.register plain tag r = .ok (m.bound plain key, r') ∧
      Grants r [m.request plain tag key] r' := by
  obtain ⟨key, r', called, -⟩ := r.registerMarker_eq_ok
    { type := m.keyType plain, optional := m.optional, tag := some tag } named
  refine ⟨key, r', ?_, .single called⟩
  simp only [register, called, bound]

/-- Markers that have keys are registered from left to right, each by a call of its own, and it is the same
whether the registry is passed on or changed in place. -/
theorem registerAll_eq_ok (plain : KeyType) (tag : String) {markers : List Marker}
    (sound : ∀ m ∈ markers, Text.trim m.key ≠ "" ∧ m.options ≠ some []) (r : Registry) :
    ∃ bindings r', registerAll plain tag markers r = .ok (bindings, r') ∧
      registerEach plain tag markers r = (.ok bindings, r') ∧
      List.Forall₂ (StandsFor plain) markers bindings ∧
      Grants r (List.zipWith (fun m b => m.request plain tag b.key) markers bindings) r' := by
  induction markers generalizing r with
  | nil => exact ⟨[], r, rfl, rfl, .nil, .nil⟩
  | cons m rest ih =>
    obtain ⟨⟨named, filled⟩, others⟩ := List.forall_mem_cons.mp sound
    obtain ⟨key, middle, first, here⟩ := register_eq_ok plain tag named r
    obtain ⟨bindings, r', later, each, stand, made⟩ := ih others middle
    refine ⟨m.bound plain key :: bindings, r', ?_, ?_, .cons (standsFor_bound filled key) stand,
      here.append made⟩
    · simp only [registerAll, first, bind, Except.bind, later]
      rfl
    · rw [registerEach, bind_apply, inPlace_of_ok first]
      dsimp only
      rw [bind_apply, each]
      rfl

end Marker

def readInPlace (raw tag : String) (plain : KeyType) :
    ExceptT MarkerError (StateM Registry) (String × List Binding) := do
  let parsed ← inPlace fun r => (Marker.parse raw).map (·, r)
  let bindings ← Marker.registerEach plain tag parsed.2
  return (parsed.1, bindings)

theorem readInPlace_of_error {raw : String} {e : MarkerError} (failed : Marker.parse raw = .error e)
    (tag : String) (plain : KeyType) (r : Registry) : readInPlace raw tag plain r = (.error e, r) := by
  have refused : inPlace (fun r => (Marker.parse raw).map (·, r)) r = (.error e, r) :=
    inPlace_of_error (by rw [failed]; rfl)
  rw [readInPlace, bind_apply, refused]

theorem readValue_of_error {raw : String} {e : MarkerError} (failed : Marker.parse raw = .error e)
    (tag : String) (plain : KeyType) (r : Registry) : readValue raw tag plain r = .error e := by
  rw [readValue, failed]
  rfl

/-- A value that can be parsed is read, in one go or in place, with one binding for each marker. -/
theorem readValue_of_ok {raw text : String} {markers : List Marker}
    (parsed : Marker.parse raw = .ok (text, markers)) (tag : String) (plain : KeyType) (r : Registry) :
    ∃ bindings r', readValue raw tag plain r = .ok ((text, bindings), r') ∧
      readInPlace raw tag plain r = (.ok (text, bindings), r') ∧
      List.Forall₂ (Marker.StandsFor plain) markers bindings ∧
      Grants r (List.zipWith (fun m b => m.request plain tag b.key) markers bindings) r' := by
  obtain ⟨bindings, r', all, each, stand, made⟩ := Marker.registerAll_eq_ok plain tag
    (fun m member => Marker.of_mem_parse parsed (m := m) member) r
  refine ⟨bindings, r', ?_, ?_, stand, made⟩
  · simp only [readValue, parsed, bind, Except.bind, all]
    rfl
  · have read : inPlace (fun r => (Marker.parse raw).map (·, r)) r = (.ok (text, markers), r) :=
      inPlace_of_ok (by rw [parsed]; rfl)
    rw [readInPlace, bind_apply, read]
    dsimp only
    rw [bind_apply, each]
    rfl

theorem readValue_error_iff {raw tag : String} {plain : KeyType} {r : Registry} {e : MarkerError} :
    readValue raw tag plain r = .error e ↔ Marker.parse raw = .error e := by
  cases parsed : Marker.parse raw with
  | error reason =>
    rw [readValue_of_error parsed]
    simp
  | ok read =>
    obtain ⟨bindings, r', done, -⟩ := readValue_of_ok parsed tag plain r
    rw [done]
    simp

/-- A value whose markers are registered in place is read as a whole all the same. -/
theorem readInPlace_eq (raw tag : String) (plain : KeyType) :
    readInPlace raw tag plain = inPlace (readValue raw tag plain) := by
  funext r
  cases parsed : Marker.parse raw with
  | error reason =>
    rw [readInPlace_of_error parsed, inPlace_of_error (readValue_of_error parsed tag plain r)]
  | ok read =>
    obtain ⟨bindings, r', done, each, -⟩ := readValue_of_ok parsed tag plain r
    rw [each, inPlace_of_ok done]

/-- Reading a value fails exactly if parsing it does, for the same reason and never because of the registry,
which is then as it was, also if the markers are registered in place. If it does not fail, the bindings
stand for the markers from left to right: each is registered, by one call for its marker and under the name
that the call returned. -/
theorem value_read_whole (raw tag : String) (plain : KeyType) (r : Registry) :
    (∀ e, readValue raw tag plain r = .error e ↔ Marker.parse raw = .error e) ∧
    (∀ e r', readInPlace raw tag plain r = (.error e, r') ↔ Marker.parse raw = .error e ∧ r' = r) ∧
    (∀ source reason, Marker.parse raw ≠ .error (.unregistered source reason)) ∧
    ∀ text markers, Marker.parse raw = .ok (text, markers) →
      ∃ bindings r', readValue raw tag plain r = .ok ((text, bindings), r') ∧
        readInPlace raw tag plain r = (.ok (text, bindings), r') ∧
        List.Forall₂ (Marker.StandsFor plain) markers bindings ∧
        (∀ b ∈ bindings, b.key ∈ r'.names) ∧
        Grants r (List.zipWith (fun m b => m.request plain tag b.key) markers bindings) r' := by
  refine ⟨fun e => readValue_error_iff, fun e r' => ?_, Marker.parse_ne_unregistered raw,
    fun text markers parsed => ?_⟩
  · rw [readInPlace_eq, inPlace_eq_error_iff, readValue_error_iff]
  · obtain ⟨bindings, r', done, inPlace, stand, made⟩ := readValue_of_ok parsed tag plain r
    refine ⟨bindings, r', done, inPlace, stand, fun b member => ?_, made⟩
    obtain ⟨i, inside, rfl⟩ := List.getElem_of_mem member
    have paired : i < markers.length := stand.length_eq ▸ inside
    have called : i < (List.zipWith (fun m b => m.request plain tag b.key) markers bindings).length := by
      rw [List.length_zipWith]
      exact Nat.lt_min.mpr ⟨paired, inside⟩
    exact made.mem_names (g := markers[i].request plain tag bindings[i].key)
      (List.mem_iff_getElem.mpr ⟨i, called, by simp⟩)

/-- A choice and a flag of one name, around a static word. -/
theorem value_read_whole_sized :
    let raw := "{{ size?: s | m as medium }} card {{ size: big }}"
    let size : Marker :=
      ⟨"size", true, some [⟨"s", "s"⟩, ⟨"m", "medium"⟩], "{{ size?: s | m as medium }}"⟩
    let big : Marker := ⟨"size", false, some [⟨"big", "big"⟩], "{{ size: big }}"⟩
    Marker.parse raw = .ok ("card", [size, big]) ∧
      ∃ bindings r', readValue raw "p" .string {} = .ok (("card", bindings), r') ∧
        readInPlace raw "p" .string {} = (.ok ("card", bindings), r') ∧
        List.Forall₂ (Marker.StandsFor .string) [size, big] bindings ∧ ∀ b ∈ bindings, b.key ∈ r'.names := by
  intro raw size big
  have parsed : Marker.parse raw = .ok ("card", [size, big]) := by decide +kernel
  obtain ⟨bindings, r', done, inPlace, stand, registered, -⟩ :=
    (value_read_whole raw "p" .string {}).2.2.2 "card" [size, big] parsed
  exact ⟨parsed, bindings, r', done, inPlace, stand, registered⟩

end Stencil
