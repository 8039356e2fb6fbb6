import Stencil.Proofs.MatchedAccess
import Stencil.Proofs.WireFormat
import Stencil.Remote.Session

/-! An element behind a session shows nothing of the session. Over a browser held here, every call on a
remote element is answered as the element itself would answer it, changes that element and leaves the
others alone. Tags travel in upper case, so this needs a tag without capitals, as reading markup gives
it. -/
namespace Stencil

namespace Markup

/-- A call on an element, with its arguments. -/
inductive Call where
  | tagName
  | attributeNames
  | get (name : String)
  | getPristine (name : String)
  | setAttribute (name value : String)
  | removeAttribute (name : String)
  | addClass (name : String)
  | removeClass (name : String)
  | applyUndo (undo : Undo)
  deriving DecidableEq, Repr

/-- What a call gives back. -/
inductive Answer where
  | tag (name : String)
  | names (names : List String)
  | value (value : Option String)
  | undo (undo : Undo)
  | done
  deriving DecidableEq, Repr

namespace Element

@[simp] theorem tag_remember (e : Element) (name : String) : (e.remember name).tag = e.tag := by
  unfold remember
  split <;> rfl

@[simp] theorem tag_setAttribute (e : Element) (name value : String) :
    (e.setAttribute name value).2.tag = e.tag :=
  tag_remember e name

@[simp] theorem tag_removeAttribute (e : Element) (name : String) :
    (e.removeAttribute name).2.tag = e.tag :=
  tag_remember e name

@[simp] theorem tag_addClass (e : Element) (name : String) : (e.addClass name).2.tag = e.tag := by
  unfold addClass
  split
  · rfl
  · exact tag_remember e "class"

@[simp] theorem tag_removeClass (e : Element) (name : String) : (e.removeClass name).2.tag = e.tag := by
  unfold removeClass
  split
  · exact tag_remember e "class"
  · rfl

end Element

namespace Call

variable {σ τ : Type}

def run (a : Access σ) : Call → AccessM σ Answer
  | tagName => return .tag (← a.tagName)
  | attributeNames => return .names (← a.attributeNames)
  | get name => return .value (← a.attribute? name)
  | getPristine name => return .value (← a.pristine? name)
  | setAttribute name value => return .undo (← a.setAttribute name value)
  | removeAttribute name => return .undo (← a.removeAttribute name)
  | addClass name => return .undo (← a.addClass name)
  | removeClass name => return .undo (← a.removeClass name)
  | applyUndo undo => do a.applyUndo undo; return .done

/-- The calls one after the other, and what each gave; a call that fails does not stop the next. -/
def runAll (a : Access σ) : List Call → σ → List (Except AccessError Answer) × σ
  | [], s => ([], s)
  | call :: rest, s =>
    let (answer, s) := call.run a s
    let (answers, s) := runAll a rest s
    (answer :: answers, s)

/-- Accesses whose calls all end alike give the same answers over any sequence of calls. -/
theorem runAll_alike {R : σ → τ → Prop} {a : Access σ} {b : Access τ}
    (alike : ∀ call : Call, Alike R Eq (call.run a) (call.run b)) (calls : List Call) {s : σ} {t : τ}
    (related : R s t) :
    (runAll a calls s).1 = (runAll b calls t).1 ∧ R (runAll a calls s).2 (runAll b calls t).2 := by
  induction calls generalizing s t with
  | nil => exact ⟨rfl, related⟩
  | cons call rest ih =>
    obtain ⟨ended, kept⟩ := alike call s t related
    obtain ⟨later, last⟩ := ih kept
    constructor
    · change (call.run a s).1 :: (runAll a rest (call.run a s).2).1 =
        (call.run b t).1 :: (runAll b rest (call.run b t).2).1
      rw [ended.eq, later]
    · exact last

end Call

/-- Texts without ASCII capitals. -/
def NoCapitals (s : String) : Prop := ∀ c ∈ s.toList, c.isUpper = false

instance (s : String) : Decidable (NoCapitals s) :=
  show Decidable (∀ c ∈ s.toList, c.isUpper = false) from List.decidableBAll _ _

end Markup

namespace Text

/-- A text without capitals survives the way to upper case and back. -/
theorem toLowerAscii_toUpperAscii {s : String} (small : Markup.NoCapitals s) :
    toLowerAscii (toUpperAscii s) = s := by
  have back : (s.toList.map Char.toUpper).map Char.toLower = s.toList := by
    rw [List.map_map]
    calc s.toList.map (Char.toLower ∘ Char.toUpper) = s.toList.map id :=
          List.map_congr_left fun c member => toLower_toUpper (small c member)
      _ = s.toList := List.map_id _
  unfold toLowerAscii toUpperAscii
  rw [String.toList_ofList, back, String.ofList_toList]

end Text

namespace Remote

open Markup (Element Access AccessM AccessError Undo Call Answer NoCapitals)

namespace Browser

variable {b : Browser} {handle : String} {e : Element}

theorem find?_insert (b : Browser) (handle : String) (e : Element) (h : String) :
    (b.insert handle e).find? h = if h = handle then some e else b.find? h := rfl

theorem insert_insert (b : Browser) (handle : String) (e e' : Element) :
    (b.insert handle e).insert handle e' = b.insert handle e' := by
  simp only [insert, mk.injEq]
  funext h
  split <;> rfl

theorem insert_of_find? (held : b.find? handle = some e) : b.insert handle e = b := by
  cases b with
  | mk find? =>
    simp only [insert, mk.injEq]
    funext h
    split
    · rename_i same
      rw [same]
      exact held.symm
    · rfl

/-- An element at hand neither goes stale nor reports errors. -/
theorem perform_cases (e : Element) (r : Request) :
    (perform e r).1 ≠ .stale ∧ ∀ message, (perform e r).1 ≠ .error message := by
  cases r <;> simp [perform]

end Browser

/-- A call over a browser held here: what the request does to its element, through two payloads. -/
theorem call_loopback {b : Browser} {r : Request} {e : Element} (held : b.find? r.handle = some e) :
    loopback.call r b =
      (.ok (Browser.perform e r).1, b.insert r.handle (Browser.perform e r).2) := by
  have trip : loopback.roundTrip r.encode b =
      (.ok (Browser.perform e r).1.encode, b.insert r.handle (Browser.perform e r).2) := by
    simp only [loopback, Request.decode?_encode, Browser.dispatch, held]
  obtain ⟨present, fine⟩ := Browser.perform_cases e r
  unfold Transport.call
  rw [bind_apply, trip]
  dsimp only
  rw [Response.decode?_encode]
  cases answer : (Browser.perform e r).1 with
  | stale => exact absurd answer present
  | error message => exact absurd answer (fine message)
  | tag name => rfl
  | names names => rfl
  | value value => rfl
  | undo undo => rfl

section Simulation

variable {b : Browser} {handle : String}

/-- The browser `now` is `b`, but for the element under the handle, which is `e`. -/
structure Mirrors (b : Browser) (handle : String) (now : Browser) (e : Element) : Prop where
  browser : now = b.insert handle e
  small : NoCapitals e.tag

theorem Mirrors.find? {now : Browser} {e : Element} (mirrors : Mirrors b handle now e) (h : String) :
    now.find? h = if h = handle then some e else b.find? h := by
  rw [mirrors.browser]
  rfl

/-- One round trip is one step of the element, when the element keeps its tag and the reply carries what
the step gives. -/
theorem alike_call {α : Type} {r : Request} (own : r.handle = handle) {f : Element → α × Element}
    {take : Response → AccessM Browser α} (performed : ∀ e, (Browser.perform e r).2 = (f e).2)
    (tag : ∀ e, (f e).2.tag = e.tag)
    (taken : ∀ e, NoCapitals e.tag → take (Browser.perform e r).1 = pure (f e).1) :
    Alike (Mirrors b handle) Eq (loopback.call r >>= take) (Access.total f) := by
  intro now e mirrors
  have held : now.find? r.handle = some e := by
    rw [mirrors.find?, if_pos own]
  have still : Mirrors b handle (now.insert r.handle (f e).2) (f e).2 := by
    constructor
    · rw [mirrors.browser, own, Browser.insert_insert]
    · rw [tag]
      exact mirrors.small
  rw [bind_apply, call_loopback held]
  dsimp only
  rw [taken e mirrors.small, performed]
  exact ⟨.ok rfl, still⟩

theorem alike_value {r : Request} (own : r.handle = handle) {f : Element → Option String}
    (performed : ∀ e, Browser.perform e r = (.value (f e), e)) :
    Alike (Mirrors b handle) Eq (loopback.value r) (Access.total fun e => (f e, e)) := by
  apply alike_call own
  · intro e
    rw [performed]
  · exact fun _ => rfl
  · intro e _
    rw [performed]

theorem alike_undo {r : Request} (own : r.handle = handle) {f : Element → Undo × Element}
    (performed : ∀ e, Browser.perform e r = (.undo (f e).1, (f e).2)) (tag : ∀ e, (f e).2.tag = e.tag) :
    Alike (Mirrors b handle) Eq (loopback.undo r) (Access.total f) := by
  apply alike_call own _ tag
  · intro e _
    rw [performed]
  · intro e
    rw [performed]

theorem alike_tagName (b : Browser) (handle : String) :
    Alike (Mirrors b handle) Eq (loopback.access handle).tagName Access.ofElement.tagName := by
  apply alike_call (r := .tagName handle) rfl
  · exact fun _ => rfl
  · exact fun _ => rfl
  · intro e small
    exact congrArg pure (Text.toLowerAscii_toUpperAscii small)

theorem alike_attributeNames (b : Browser) (handle : String) :
    Alike (Mirrors b handle) Eq (loopback.access handle).attributeNames
      Access.ofElement.attributeNames := by
  apply alike_call (r := .attributeNames handle) rfl
  · exact fun _ => rfl
  · exact fun _ => rfl
  · exact fun _ _ => rfl

theorem alike_attribute? (b : Browser) (handle name : String) :
    Alike (Mirrors b handle) Eq ((loopback.access handle).attribute? name)
      (Access.ofElement.attribute? name) :=
  alike_value (r := .getAttribute handle name) rfl fun _ => rfl

theorem alike_pristine? (b : Browser) (handle name : String) :
    Alike (Mirrors b handle) Eq ((loopback.access handle).pristine? name)
      (Access.ofElement.pristine? name) :=
  alike_value (r := .getPristine handle name) rfl fun _ => rfl

theorem alike_setAttribute (b : Browser) (handle name value : String) :
    Alike (Mirrors b handle) Eq ((loopback.access handle).setAttribute name value)
      (Access.ofElement.setAttribute name value) :=
  alike_undo (r := .setAttribute handle name value) rfl (fun _ => rfl)
    fun e => e.tag_setAttribute name value

theorem alike_removeAttribute (b : Browser) (handle name : String) :
    Alike (Mirrors b handle) Eq ((loopback.access handle).removeAttribute name)
      (Access.ofElement.removeAttribute name) :=
  alike_undo (r := .removeAttribute handle name) rfl (fun _ => rfl) fun e => e.tag_removeAttribute name

theorem alike_addClass (b : Browser) (handle name : String) :
    Alike (Mirrors b handle) Eq ((loopback.access handle).addClass name)
      (Access.ofElement.addClass name) :=
  alike_undo (r := .addClass handle name) rfl (fun _ => rfl) fun e => e.tag_addClass name

theorem alike_removeClass (b : Browser) (handle name : String) :
    Alike (Mirrors b handle) Eq ((loopback.access handle).removeClass name)
      (Access.ofElement.removeClass name) :=
  alike_undo (r := .removeClass handle name) rfl (fun _ => rfl) fun e => e.tag_removeClass name

theorem alike_applyUndo (b : Browser) (handle : String) (undo : Undo) :
    Alike (Mirrors b handle) Eq ((loopback.access handle).applyUndo undo)
      (Access.ofElement.applyUndo undo) := by
  cases undo with
  | restore name value =>
    exact alike_bind_eq (alike_setAttribute b handle name value) fun _ => alike_pure rfl
  | remove name => exact alike_bind_eq (alike_removeAttribute b handle name) fun _ => alike_pure rfl
  | addClass name => exact alike_bind_eq (alike_addClass b handle name) fun _ => alike_pure rfl
  | removeClass name => exact alike_bind_eq (alike_removeClass b handle name) fun _ => alike_pure rfl
  | nothing => exact alike_pure rfl

/-- Every call on the handle is the call on the element. -/
theorem alike_run (b : Browser) (handle : String) (call : Call) :
    Alike (Mirrors b handle) Eq (call.run (loopback.access handle)) (call.run Access.ofElement) := by
  have answered {α : Type} {x : AccessM Browser α} {y : AccessM Element α} (answer : α → Answer)
      (same : Alike (Mirrors b handle) Eq x y) :
      Alike (Mirrors b handle) Eq (x >>= fun a => pure (answer a)) (y >>= fun a => pure (answer a)) :=
    alike_bind_eq same fun _ => alike_pure rfl
  cases call with
  | tagName => exact answered .tag (alike_tagName b handle)
  | attributeNames => exact answered .names (alike_attributeNames b handle)
  | get name => exact answered .value (alike_attribute? b handle name)
  | getPristine name => exact answered .value (alike_pristine? b handle name)
  | setAttribute name value => exact answered .undo (alike_setAttribute b handle name value)
  | removeAttribute name => exact answered .undo (alike_removeAttribute b handle name)
  | addClass name => exact answered .undo (alike_addClass b handle name)
  | removeClass name => exact answered .undo (alike_removeClass b handle name)
  | applyUndo undo => exact answered (fun _ => .done) (alike_applyUndo b handle undo)

theorem matches_ofElement (b : Browser) (handle : String) :
    Access.Matches (Mirrors b handle) Eq (loopback.access handle) Access.ofElement := by
  constructor
  · exact alike_attributeNames b handle
  · intro name
    have present := alike_attribute? b handle name
    apply alike_bind_eq (alike_pristine? b handle name)
    intro kept
    cases kept with
    | none => exact alike_bind_eq present fun _ => alike_pure rfl
    | some pristine =>
      dsimp only
      split
      · exact alike_bind_eq present fun _ => alike_pure rfl
      · exact alike_pure rfl

end Simulation

/-- The session cannot be seen: calls on the handle are answered as the element itself answers them and
leave it as they leave the element, no other handle is touched, and compiling the attributes from either
side then gives the same attributes, keys and notices, or the same failure. -/
theorem remote_element_is_element {b : Browser} {handle : String} {e : Element}
    (held : b.find? handle = some e) (small : NoCapitals e.tag) (calls : List Call) :
    let remote := Call.runAll (loopback.access handle) calls b
    let direct := Call.runAll Access.ofElement calls e
    remote.1 = direct.1 ∧ remote.2.find? handle = some direct.2 ∧
      (∀ other, other ≠ handle → remote.2.find? other = b.find? other) ∧
      ∀ (tag template : String) (registry : Registry) (notices : List Notice),
        let far := Attribute.compile (loopback.access handle) tag template ⟨remote.2, registry, notices⟩
        let near := Attribute.compile Access.ofElement tag template ⟨direct.2, registry, notices⟩
        far.1 = near.1 ∧ far.2.registry = near.2.registry ∧ far.2.notices = near.2.notices := by
  have start : Mirrors b handle b e := ⟨(Browser.insert_of_find? held).symm, small⟩
  obtain ⟨answers, last⟩ := Call.runAll_alike (alike_run b handle) calls start
  refine ⟨answers, ?_, ?_, ?_⟩
  · rw [last.find?, if_pos rfl]
  · intro other apart
    rw [last.find?, if_neg apart]
  · intro tag template registry notices
    obtain ⟨ended, kept⟩ := Attribute.alike_compile (matches_ofElement b handle) tag template
      ⟨_, registry, notices⟩ ⟨_, registry, notices⟩ ⟨last, rfl, rfl⟩
    exact ⟨ended.eq, kept.registry, kept.notices⟩

/-- A link that gets a class, loses it again through its undo, and has its title set. -/
theorem remote_element_is_element_link :
    let link : Element :=
      { tag := "a", attrs := [⟨"class", "x y"⟩, ⟨"href", "\x7b\x7b to \x7d\x7d"⟩] }
    let b := (Browser.empty.insert "n1" link).insert "n2" { tag := "p" }
    let calls : List Call := [.tagName, .addClass "hot", .applyUndo (.removeClass "hot"),
      .setAttribute "title" "a \"b\"", .getPristine "class", .attributeNames]
    b.find? "n1" = some link ∧ NoCapitals link.tag ∧
      (Call.runAll (loopback.access "n1") calls b).1 = (Call.runAll Access.ofElement calls link).1 ∧
      (Call.runAll (loopback.access "n1") calls b).2.find? "n1" =
        some { link with
          attrs := link.attrs ++ [⟨"title", "a \"b\""⟩], pristine := [⟨"class", "x y"⟩] } := by
  intro link b calls
  have held : b.find? "n1" = some link := rfl
  have small : NoCapitals link.tag := by decide
  have left : (Call.runAll Access.ofElement calls link).2 =
      { link with attrs := link.attrs ++ [⟨"title", "a \"b\""⟩], pristine := [⟨"class", "x y"⟩] } := by
    decide +kernel
  obtain ⟨answers, snapshot, -⟩ := remote_element_is_element held small calls
  rw [left] at snapshot
  exact ⟨held, small, answers, snapshot⟩

end Remote

end Stencil
