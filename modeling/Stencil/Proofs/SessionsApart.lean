import Stencil.Proofs.RemoteElement

/-! Sessions on different handles of one browser. An action sees and changes only the element behind its
own handle; so, in whatever order the actions of two sessions come, each session is answered as if it
were alone, and the browser ends up the same. -/
namespace Stencil.Remote

open Markup (Element AccessError)

/-- Requests that only ask. -/
def Request.isRead : Request → Bool
  | tagName _ | attributeNames _ | getAttribute _ _ | getPristine _ _ => true
  | _ => false

namespace Browser

theorem ext_find? {b b' : Browser} (same : ∀ h, b.find? h = b'.find? h) : b = b' := by
  cases b
  cases b'
  exact congrArg mk (funext same)

theorem find?_erase (b : Browser) (handle h : String) :
    (b.erase handle).find? h = if h = handle then none else b.find? h := rfl

theorem dispatch_of_none {b : Browser} {r : Request} (absent : b.find? r.handle = none) :
    b.dispatch r = (.stale, b) := by
  unfold dispatch
  rw [absent]

theorem dispatch_of_some {b : Browser} {r : Request} {e : Element} (held : b.find? r.handle = some e) :
    b.dispatch r = ((perform e r).1, b.insert r.handle (perform e r).2) := by
  unfold dispatch
  rw [held]

theorem perform_of_isRead {r : Request} (read : r.isRead = true) (e : Element) : (perform e r).2 = e := by
  cases r with
  | tagName | attributeNames | getAttribute | getPristine => rfl
  | setAttribute | removeAttribute | addClass | removeClass => cases read

/-- A request changes nothing if its handle is unknown or if it only asks. -/
theorem dispatch_unchanged {b : Browser} {r : Request}
    (idle : b.find? r.handle = none ∨ r.isRead = true) : (b.dispatch r).2 = b := by
  cases held : b.find? r.handle with
  | none => rw [dispatch_of_none held]
  | some e =>
    have read : r.isRead = true := idle.resolve_left (by simp [held])
    rw [dispatch_of_some held, perform_of_isRead read, insert_of_find? held]

/-- A request sees and changes the element behind its handle, and no other. -/
theorem dispatch_local {b b' : Browser} {r : Request} (same : b.find? r.handle = b'.find? r.handle) :
    (b.dispatch r).1 = (b'.dispatch r).1 ∧
      (b.dispatch r).2.find? r.handle = (b'.dispatch r).2.find? r.handle := by
  cases held : b'.find? r.handle with
  | none =>
    rw [dispatch_of_none held, dispatch_of_none (same.trans held)]
    exact ⟨rfl, same⟩
  | some e =>
    rw [dispatch_of_some held, dispatch_of_some (same.trans held), find?_insert, find?_insert, if_pos rfl,
      if_pos rfl]
    exact ⟨rfl, rfl⟩

theorem dispatch_frame (b : Browser) {r : Request} {h : String} (other : h ≠ r.handle) :
    (b.dispatch r).2.find? h = b.find? h := by
  cases held : b.find? r.handle with
  | none => rw [dispatch_of_none held]
  | some e => rw [dispatch_of_some held, find?_insert, if_neg other]

end Browser

theorem roundTrip_of_none {payload : String} (broken : Request.decode? payload = none) (b : Browser) :
    loopback.roundTrip payload b = (.error .protocol, b) := by
  simp only [loopback, broken]

theorem roundTrip_of_some {payload : String} {r : Request} (decoded : Request.decode? payload = some r)
    (b : Browser) : loopback.roundTrip payload b = (.ok (b.dispatch r).1.encode, (b.dispatch r).2) := by
  simp only [loopback, decoded]

/-- What can be done with a browser: a payload is sent to it, or an element is put in, taken out or looked
at. -/
inductive Action where
  | send (payload : String)
  | insert (handle : String) (e : Element)
  | erase (handle : String)
  | look (handle : String)

inductive Reply where
  | message (reply : Except AccessError String)
  | element (e : Option Element)
  | done

namespace Action

/-- The handle that an action is about; a payload that does not decode is about none. -/
def handle? : Action → Option String
  | send payload => (Request.decode? payload).map Request.handle
  | insert handle _ | erase handle | look handle => some handle

/-- The action is about no other handle than this one. -/
def Within (handle : String) (x : Action) : Prop := ∀ h ∈ x.handle?, h = handle

def run (b : Browser) : Action → Reply × Browser
  | send payload => (.message (loopback.roundTrip payload b).1, (loopback.roundTrip payload b).2)
  | insert handle e => (.done, b.insert handle e)
  | erase handle => (.element (b.find? handle), b.erase handle)
  | look handle => (.element (b.find? handle), b)

def runAll : Browser → List Action → List Reply × Browser
  | b, [] => ([], b)
  | b, x :: rest => ((x.run b).1 :: (runAll (x.run b).2 rest).1, (runAll (x.run b).2 rest).2)

/-- Two sessions at once: every action is told from which of them it comes, and so is its reply. -/
def runBoth : Browser → List (Action ⊕ Action) → List (Reply ⊕ Reply) × Browser
  | b, [] => ([], b)
  | b, .inl x :: rest => (.inl (x.run b).1 :: (runBoth (x.run b).2 rest).1, (runBoth (x.run b).2 rest).2)
  | b, .inr x :: rest => (.inr (x.run b).1 :: (runBoth (x.run b).2 rest).1, (runBoth (x.run b).2 rest).2)

variable {handle : String} {x : Action}

theorem within_send {r : Request} (own : r.handle = handle) : (send r.encode).Within handle := by
  intro h member
  rw [handle?, r.decode?_encode, Option.map_some, Option.mem_some_iff] at member
  rw [← member, own]

theorem handle_of_within {payload : String} {r : Request} (within : (send payload).Within handle)
    (decoded : Request.decode? payload = some r) : r.handle = handle :=
  within r.handle (by rw [handle?, decoded, Option.map_some]; rfl)

/-- What an action gives back and leaves behind its handle depends on what is behind that handle. -/
theorem run_local (within : x.Within handle) {b b' : Browser} (same : b.find? handle = b'.find? handle) :
    (x.run b).1 = (x.run b').1 ∧ (x.run b).2.find? handle = (x.run b').2.find? handle := by
  cases x with
  | send payload =>
    cases decoded : Request.decode? payload with
    | none =>
      rw [run, run, roundTrip_of_none decoded, roundTrip_of_none decoded]
      exact ⟨rfl, same⟩
    | some r =>
      obtain rfl := handle_of_within within decoded
      obtain ⟨answer, kept⟩ := Browser.dispatch_local same
      rw [run, run, roundTrip_of_some decoded, roundTrip_of_some decoded, answer]
      exact ⟨rfl, kept⟩
  | insert h e =>
    obtain rfl := within h rfl
    refine ⟨rfl, ?_⟩
    rw [run, run, Browser.find?_insert, Browser.find?_insert, if_pos rfl, if_pos rfl]
  | erase h =>
    obtain rfl := within h rfl
    refine ⟨congrArg Reply.element same, ?_⟩
    rw [run, run, Browser.find?_erase, Browser.find?_erase, if_pos rfl, if_pos rfl]
  | look h =>
    obtain rfl := within h rfl
    exact ⟨congrArg Reply.element same, same⟩

/-- Behind the other handles everything stays. -/
theorem run_frame (within : x.Within handle) {h : String} (other : h ≠ handle) (b : Browser) :
    (x.run b).2.find? h = b.find? h := by
  cases x with
  | send payload =>
    cases decoded : Request.decode? payload with
    | none => rw [run, roundTrip_of_none decoded]
    | some r =>
      obtain rfl := handle_of_within within decoded
      rw [run, roundTrip_of_some decoded]
      exact b.dispatch_frame other
  | insert h' e =>
    obtain rfl := within h' rfl
    rw [run, Browser.find?_insert, if_neg other]
  | erase h' =>
    obtain rfl := within h' rfl
    rw [run, Browser.find?_erase, if_neg other]
  | look h' => rw [run]

theorem runAll_frame {xs : List Action} (within : ∀ x ∈ xs, x.Within handle) {h : String}
    (other : h ≠ handle) (b : Browser) : (runAll b xs).2.find? h = b.find? h := by
  induction xs generalizing b with
  | nil => rfl
  | cons x rest ih =>
    rw [List.forall_mem_cons] at within
    rw [runAll, ih within.2, run_frame within.1 other]

theorem runAll_local {xs : List Action} (within : ∀ x ∈ xs, x.Within handle) {b b' : Browser}
    (same : b.find? handle = b'.find? handle) :
    (runAll b xs).2.find? handle = (runAll b' xs).2.find? handle := by
  induction xs generalizing b b' with
  | nil => exact same
  | cons x rest ih =>
    rw [List.forall_mem_cons] at within
    exact ih within.2 (run_local within.1 same).2

section Interleaving

variable {first second : String}

/-- Seen from its own handle, each of two sessions runs as it does alone. -/
theorem runBoth_local (apart : first ≠ second) {both : List (Action ⊕ Action)}
    (left : ∀ x ∈ both.filterMap Sum.getLeft?, x.Within first)
    (right : ∀ x ∈ both.filterMap Sum.getRight?, x.Within second) {b l r : Browser}
    (hl : b.find? first = l.find? first) (hr : b.find? second = r.find? second) :
    (runBoth b both).1.filterMap Sum.getLeft? = (runAll l (both.filterMap Sum.getLeft?)).1 ∧
      (runBoth b both).1.filterMap Sum.getRight? = (runAll r (both.filterMap Sum.getRight?)).1 ∧
      (runBoth b both).2.find? first = (runAll l (both.filterMap Sum.getLeft?)).2.find? first ∧
      (runBoth b both).2.find? second = (runAll r (both.filterMap Sum.getRight?)).2.find? second ∧
      ∀ h, h ≠ first → h ≠ second → (runBoth b both).2.find? h = b.find? h := by
  induction both generalizing b l r with
  | nil => exact ⟨rfl, rfl, hl, hr, fun _ _ _ => rfl⟩
  | cons turn rest ih =>
    cases turn with
    | inl x =>
      obtain ⟨own, left⟩ := List.forall_mem_cons.mp left
      obtain ⟨answer, kept⟩ := run_local own hl
      have untouched := (run_frame own apart.symm b).trans hr
      obtain ⟨replies, others, mine, theirs, rest⟩ := ih left right kept untouched
      refine ⟨List.cons_eq_cons.mpr ⟨answer, replies⟩, others, mine, theirs, fun h other other' => ?_⟩
      exact (rest h other other').trans (run_frame own other b)
    | inr x =>
      obtain ⟨own, right⟩ := List.forall_mem_cons.mp right
      obtain ⟨answer, kept⟩ := run_local own hr
      have untouched := (run_frame own apart b).trans hl
      obtain ⟨replies, others, mine, theirs, rest⟩ := ih left right untouched kept
      refine ⟨replies, List.cons_eq_cons.mpr ⟨answer, others⟩, mine, theirs, fun h other other' => ?_⟩
      exact (rest h other other').trans (run_frame own other' b)

end Interleaving

end Action

/-- Two sessions on different handles do not meet. In every order in which their actions can come, both
get the replies that they get alone, and the browser ends up as after one session and then the other.
Payloads that do not decode, requests for unknown handles and requests that only ask leave the browser
as it is. -/
theorem sessions_apart {first second : String} (apart : first ≠ second) {mine theirs : List Action}
    (own : ∀ x ∈ mine, x.Within first) (foreign : ∀ x ∈ theirs, x.Within second) (b : Browser) :
    (∀ both : List (Action ⊕ Action), both.filterMap Sum.getLeft? = mine →
      both.filterMap Sum.getRight? = theirs →
        (Action.runBoth b both).1.filterMap Sum.getLeft? = (Action.runAll b mine).1 ∧
        (Action.runBoth b both).1.filterMap Sum.getRight? = (Action.runAll b theirs).1 ∧
        (Action.runBoth b both).2 = (Action.runAll (Action.runAll b mine).2 theirs).2) ∧
      (∀ payload, Request.decode? payload = none → (loopback.roundTrip payload b).2 = b) ∧
      ∀ payload r, Request.decode? payload = some r → b.find? r.handle = none ∨ r.isRead = true →
        (loopback.roundTrip payload b).2 = b := by
  refine ⟨?_, fun payload broken => ?_, fun payload r decoded idle => ?_⟩
  · rintro both rfl rfl
    obtain ⟨replies, others, left, right, rest⟩ := Action.runBoth_local apart own foreign rfl rfl
    refine ⟨replies, others, Browser.ext_find? fun h => ?_⟩
    by_cases here : h = first
    · subst here
      rw [left, Action.runAll_frame foreign apart]
    by_cases there : h = second
    · subst there
      rw [right]
      exact Action.runAll_local foreign (Action.runAll_frame own here b).symm
    · rw [rest h here there, Action.runAll_frame foreign there, Action.runAll_frame own here]
  · rw [roundTrip_of_none broken]
  · rw [roundTrip_of_some decoded]
    exact Browser.dispatch_unchanged idle

/-- One session restyles a link between broken payloads, while another takes its paragraph out and asks
for it. -/
theorem sessions_apart_link :
    let b := (Browser.empty.insert "n1" { tag := "a", attrs := [⟨"class", "x"⟩] }).insert "n2" { tag := "p" }
    let mine : List Action := [.send (Request.addClass "n1" "hot").encode, .send "?",
      .send (Request.getPristine "n1" "class").encode]
    let theirs : List Action := [.erase "n2", .send (Request.tagName "n2").encode]
    let both : List (Action ⊕ Action) := [.inr (.erase "n2"), .inl (.send (Request.addClass "n1" "hot").encode),
      .inl (.send "?"), .inr (.send (Request.tagName "n2").encode),
      .inl (.send (Request.getPristine "n1" "class").encode)]
    (∀ x ∈ mine, x.Within "n1") ∧ (∀ x ∈ theirs, x.Within "n2") ∧
      (Action.runBoth b both).1.filterMap Sum.getLeft? = (Action.runAll b mine).1 ∧
      (Action.runBoth b both).1.filterMap Sum.getRight? = (Action.runAll b theirs).1 ∧
      (Action.runBoth b both).2 = (Action.runAll (Action.runAll b mine).2 theirs).2 ∧
      (loopback.roundTrip "?" b).2 = b := by
  intro b mine theirs both
  have broken : Request.decode? "?" = none := by decide +kernel
  have own : ∀ x ∈ mine, x.Within "n1" := by
    simp only [mine, List.forall_mem_cons]
    refine ⟨Action.within_send rfl, fun h member => ?_, Action.within_send rfl, fun x member => ?_⟩
    · rw [Action.handle?, broken] at member
      cases member
    · cases member
  have foreign : ∀ x ∈ theirs, x.Within "n2" := by
    simp only [theirs, List.forall_mem_cons]
    refine ⟨fun h member => (Option.mem_some_iff.mp member).symm, Action.within_send rfl, fun x member => ?_⟩
    cases member
  obtain ⟨runs, unchanged, -⟩ := sessions_apart (by decide : "n1" ≠ "n2") own foreign b
  obtain ⟨left, right, last⟩ := runs both rfl rfl
  exact ⟨own, foreign, left, right, last, unchanged "?" broken⟩

end Stencil.Remote
