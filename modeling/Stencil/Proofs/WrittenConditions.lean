import Stencil.Component.Styled
import Stencil.Proofs.PropertyTests
import Stencil.Proofs.ScriptReading

/-! Conditions that are written as tests of properties and read again. However the terms are put together, as
one comparison, as a conjunction with or without parentheses, as a disjunction of these or as a list that the
property is looked up in, the text comes to a value that is true exactly when some condition holds. -/
namespace Stencil.Script.Test

/-! Texts and their tokens -/

theorem scan?_nil : scan? [] = some [] := by
  rw [scan?]
  rfl

theorem scan?_token {c : Char} {s rest : List Char} {t : Token} (solid : isSpace c = false)
    (read : next? (c :: s) = some (t, rest)) : scan? (c :: s) = (scan? rest).map (t :: ·) := by
  have front : (c :: s).dropWhile isSpace = c :: s := by simp [solid]
  rw [scan?]
  split
  · rename_i empty
    cases front.symm.trans empty
  · rename_i front'
    cases front.symm.trans front'
    split
    · rename_i none
      cases read.symm.trans none
    · rename_i read'
      cases read.symm.trans read'
      rfl

theorem scan?_space (s : List Char) : scan? (' ' :: s) = scan? s := by
  have front : (' ' :: s).dropWhile isSpace = s.dropWhile isSpace := rfl
  rw [scan?, scan?, front]

/-- The tokens of a text, in front of anything. -/
def Cuts (text : String) (ts : List Token) : Prop :=
  ∀ rest, scan? (text.toList ++ rest) = (scan? rest).map (ts ++ ·)

/-- The tokens of a text, in front of anything that does not go on with a name. -/
def Spells (text : String) (ts : List Token) : Prop :=
  ∀ rest, Stops rest → scan? (text.toList ++ rest) = (scan? rest).map (ts ++ ·)

section Spells

variable {s t : String} {ts us : List Token}

theorem map_append_map (ts us : List Token) (read : Option (List Token)) :
    (read.map (us ++ ·)).map (ts ++ ·) = read.map (ts ++ us ++ ·) := by
  cases read <;> simp

theorem Cuts.spells (cuts : Cuts s ts) : Spells s ts := fun rest _ => cuts rest

theorem Cuts.append (cuts : Cuts s ts) (cuts' : Cuts t us) : Cuts (s ++ t) (ts ++ us) := by
  intro rest
  rw [String.toList_append, List.append_assoc, cuts, cuts', map_append_map]

theorem Cuts.append_spells (cuts : Cuts s ts) (spells : Spells t us) : Spells (s ++ t) (ts ++ us) := by
  intro rest stops
  rw [String.toList_append, List.append_assoc, cuts, spells rest stops, map_append_map]

theorem Spells.append (spells : Spells s ts) (spells' : Spells t us)
    (apart : ∀ rest, Stops (t.toList ++ rest)) : Spells (s ++ t) (ts ++ us) := by
  intro rest stops
  rw [String.toList_append, List.append_assoc, spells _ (apart rest), spells' rest stops, map_append_map]

end Spells

/-- Whether a text can stand behind a dot. -/
def isPropertyName (s : String) : Bool :=
  match s.toList with
  | [] => false
  | c :: rest => startsName c && rest.all isNameChar

theorem spells_name {name : String} (named : isPropertyName name = true) : Spells name [.name name] := by
  intro rest stops
  obtain ⟨c, cs, spelled⟩ : ∃ c cs, name.toList = c :: cs := by
    cases chars : name.toList with
    | nil => simp [isPropertyName, chars] at named
    | cons c cs => exact ⟨c, cs, rfl⟩
  simp only [isPropertyName, spelled, Bool.and_eq_true, List.all_eq_true] at named
  obtain ⟨starts, inside⟩ := named
  obtain ⟨taken, left⟩ := takeWhile_append_stop inside stops
  have solid : isSpace c = false := isSpace_of_isNameChar (Bool.and_eq_true_iff.mp starts).1
  have read : next? (c :: (cs ++ rest)) = some (.name name, rest) := by
    rw [next?, if_pos starts, taken, left, ← spelled, String.ofList_toList]
  rw [spelled, List.cons_append, scan?_token solid read]
  rfl

theorem cuts_string (value : String) : Cuts (Json.quote value) [.string value] := by
  intro rest
  have read : next? ('"' :: (value.toList.flatMap Json.escape ++ '"' :: rest)) =
      some (.string value, rest) := by
    change (Json.Token.stringBody? _).map _ = _
    rw [Json.Token.stringBody?_flatMap_escape]
    simp
  rw [Json.Token.toList_quote_append, scan?_token rfl read]
  rfl

theorem cuts_dot : Cuts "." [.dot] := fun _ => scan?_token rfl rfl

theorem cuts_openParen : Cuts "(" [.openParen] := fun _ => scan?_token rfl rfl

theorem cuts_closeParen : Cuts ")" [.closeParen] := fun _ => scan?_token rfl rfl

/-- An operator as it is written, with its blanks. -/
def Op.spelling : Op → String
  | either => " || "
  | both => " && "
  | equals => " === "

theorem cuts_op (op : Op) : Cuts op.spelling [.op op] := by
  intro rest
  cases op with
  | either =>
    change scan? (' ' :: '|' :: '|' :: ' ' :: rest) = _
    rw [scan?_space, scan?_token rfl rfl]
    rfl
  | both =>
    change scan? (' ' :: '&' :: '&' :: ' ' :: rest) = _
    rw [scan?_space, scan?_token rfl rfl]
    rfl
  | equals =>
    change scan? (' ' :: '=' :: '=' :: '=' :: ' ' :: rest) = _
    rw [scan?_space, scan?_token rfl rfl]
    rfl

theorem stops_op (op : Op) (rest : List Char) : Stops (op.spelling.toList ++ rest) := by
  cases op <;> exact stops_cons rfl _

/-! Tokens and what they are read as -/

section Grouping

variable {ts us : List Token} {e a b : Expr}

/-- Read as one operand, wherever one is wanted. -/
def IsOperand (ts : List Token) (e : Expr) : Prop :=
  ∀ p k, ts.foldlM Reading.step (.wanting p k) = some (.having e p k)

/-- Read as an operand of a conjunction: looser operators are left as they are. -/
def IsComparison (ts : List Token) (e : Expr) : Prop :=
  ∀ p k, p.equals = none → ∃ x q, ts.foldlM Reading.step (.wanting p k) = some (.having x q k) ∧
    q.comparison x = e ∧ q.both = p.both ∧ q.either = p.either

/-- Read as an operand of a disjunction. -/
def IsConjunction (ts : List Token) (e : Expr) : Prop :=
  ∀ p k, p.equals = none → p.both = none → ∃ x q, ts.foldlM Reading.step (.wanting p k) = some (.having x q k) ∧
    q.conjunction x = e ∧ q.either = p.either

/-- Read as a whole, in brackets or alone. -/
def IsDisjunction (ts : List Token) (e : Expr) : Prop :=
  ∀ k, ∃ x q, ts.foldlM Reading.step (.wanting {} k) = some (.having x q k) ∧ q.disjunction x = e

/-- Read as the elements of an array literal that is still open. -/
def IsElements (ts : List Token) (e : Expr) : Prop :=
  ∃ front x, e = .extend front x ∧
    ∀ p k, ts.foldlM Reading.step (.wanting p k) = some (.having x {} ((.list front, p) :: k))

theorem IsOperand.comparison (read : IsOperand ts e) : IsComparison ts e := by
  intro p k tight
  refine ⟨e, p, read p k, ?_, rfl, rfl⟩
  rw [Pending.comparison, tight]
  rfl

theorem IsComparison.conjunction (read : IsComparison ts e) : IsConjunction ts e := by
  intro p k tight loose
  obtain ⟨x, q, steps, rfl, both, either⟩ := read p k tight
  refine ⟨x, q, steps, ?_, either⟩
  rw [Pending.conjunction, both, loose]
  rfl

theorem IsConjunction.disjunction (read : IsConjunction ts e) : IsDisjunction ts e := by
  intro k
  obtain ⟨x, q, steps, rfl, either⟩ := read {} k rfl rfl
  refine ⟨x, q, steps, ?_⟩
  rw [Pending.disjunction, either]
  rfl

theorem IsOperand.equals (left : IsOperand ts a) (right : IsOperand us b) :
    IsComparison (ts ++ .op .equals :: us) (.binary .equals a b) := by
  intro p k tight
  have whole : p.comparison a = a := by
    rw [Pending.comparison, tight]
    rfl
  refine ⟨b, p.push a .equals, ?_, ?_, rfl, rfl⟩
  · rw [List.foldlM_append, left p k]
    exact right _ k
  · rw [Pending.push, whole]
    rfl

theorem IsConjunction.both (left : IsConjunction ts a) (right : IsComparison us b) :
    IsConjunction (ts ++ .op .both :: us) (.binary .both a b) := by
  intro p k tight loose
  obtain ⟨x, q, steps, rfl, either⟩ := left p k tight loose
  obtain ⟨y, r, steps', rfl, both', either'⟩ := right (q.push x .both) k rfl
  refine ⟨y, r, ?_, ?_, ?_⟩
  · rw [List.foldlM_append, steps]
    exact steps'
  · rw [Pending.conjunction, both']
    rfl
  · rw [either']
    exact either

theorem IsDisjunction.either (left : IsDisjunction ts a) (right : IsConjunction us b) :
    IsDisjunction (ts ++ .op .either :: us) (.binary .either a b) := by
  intro k
  obtain ⟨x, q, steps, rfl⟩ := left k
  obtain ⟨y, r, steps', rfl, either'⟩ := right (q.push x .either) k rfl rfl
  refine ⟨y, r, ?_, ?_⟩
  · rw [List.foldlM_append, steps]
    exact steps'
  · rw [Pending.disjunction, either']
    rfl

theorem IsDisjunction.paren (read : IsDisjunction ts e) : IsOperand (.openParen :: ts ++ [.closeParen]) e := by
  intro p k
  obtain ⟨x, q, steps, rfl⟩ := read ((.paren, p) :: k)
  rw [List.cons_append, List.foldlM_cons]
  show (ts ++ [Token.closeParen]).foldlM Reading.step (.wanting {} ((.paren, p) :: k)) = _
  rw [List.foldlM_append, steps]
  rfl

theorem operand_string (value : String) : IsOperand [.string value] (.string value) := fun _ _ => rfl

theorem IsOperand.member (read : IsOperand ts e) (name : String) :
    IsOperand (ts ++ [.dot, .name name]) (.member e name) := by
  intro p k
  rw [List.foldlM_append, read p k]
  rfl

theorem IsOperand.call (read : IsOperand ts a) (read' : IsOperand us b) :
    IsOperand (ts ++ .openParen :: us ++ [.closeParen]) (.call a b) := by
  intro p k
  rw [List.append_assoc, List.foldlM_append, read p k]
  show (us ++ [Token.closeParen]).foldlM Reading.step (.wanting {} ((.argument a, p) :: k)) = _
  rw [List.foldlM_append, read']
  rfl

theorem IsOperand.elements (read : IsOperand ts e) : IsElements (.openSquare :: ts) (.extend .empty e) :=
  ⟨.empty, e, rfl, fun p k => read {} ((.list .empty, p) :: k)⟩

theorem IsElements.comma (read : IsElements ts a) (read' : IsOperand us b) :
    IsElements (ts ++ .comma :: us) (.extend a b) := by
  obtain ⟨front, x, rfl, steps⟩ := read
  refine ⟨_, b, rfl, fun p k => ?_⟩
  rw [List.foldlM_append, steps p k]
  exact read' {} ((.list (.extend front x), p) :: k)

theorem IsElements.close (read : IsElements ts e) : IsOperand (ts ++ [.closeSquare]) e := by
  obtain ⟨front, x, rfl, steps⟩ := read
  intro p k
  rw [List.foldlM_append, steps p k]
  rfl

end Grouping

/-- The tokens of a text are read as the expression. -/
def Written (read : List Token → Expr → Prop) (text : String) (e : Expr) : Prop :=
  ∃ ts, Spells text ts ∧ read ts e

section Written

variable {G H : List Token → Expr → Prop} {text s : String} {e a b : Expr}

theorem Written.mono (written : Written G text e) (imp : ∀ {ts}, G ts e → H ts e) : Written H text e := by
  obtain ⟨ts, spells, read⟩ := written
  exact ⟨ts, spells, imp read⟩

/-- What is joined one by one is read one by one. -/
theorem Written.joinOnto {sep : String} {t : Token} {f : Expr → Expr → Expr} (cuts : Cuts sep [t])
    (apart : ∀ rest, Stops (sep.toList ++ rest))
    (step : ∀ {ts us a b}, G ts a → H us b → G (ts ++ t :: us) (f a b))
    {α : Type} {write : α → String} {expr : α → Expr} {rest : List α}
    (each : ∀ x ∈ rest, Written H (write x) (expr x)) (first : Written G text e) :
    Written G (Text.joinOnto sep text (rest.map write)) (rest.foldl (fun e x => f e (expr x)) e) := by
  induction rest generalizing text e with
  | nil => exact first
  | cons x rest ih =>
    obtain ⟨here, later⟩ := List.forall_mem_cons.mp each
    obtain ⟨ts, spells, read⟩ := first
    obtain ⟨us, spells', read'⟩ := here
    refine ih later ⟨ts ++ t :: us, ?_, step read read'⟩
    rw [String.append_assoc]
    refine spells.append (cuts.append_spells spells') fun rest => ?_
    rw [String.toList_append, List.append_assoc]
    exact apart _

/-- What the text of an expression comes to. -/
theorem Written.evaluate (written : Written IsDisjunction text e) (props : String → Value) :
    evaluate? props text = e.eval props := by
  obtain ⟨ts, spells, read⟩ := written
  obtain ⟨x, q, steps, rfl⟩ := read []
  have tokens : scan? text.toList = some ts := by
    have alone := spells [] (by simp [Stops])
    simpa [scan?_nil] using alone
  simp only [evaluate?, read?, tokens, Option.bind_eq_bind, Option.bind_some, steps]
  rfl

end Written

/-! Values of conjunctions and disjunctions -/

/-- The expression comes to a value of the class, which is true exactly if `P` holds. -/
def Gives (props : String → Value) (C : Value → Prop) (e : Expr) (P : Prop) : Prop :=
  ∃ v, e.eval props = some v ∧ C v ∧ (v.isTruthy = true ↔ P)

section Gives

variable {props : String → Value} {C : Value → Prop} {a b : Expr} {P Q : Prop}

theorem Gives.both (left : Gives props C a P) (right : Gives props C b Q) :
    Gives props C (.binary .both a b) (P ∧ Q) := by
  obtain ⟨v, eval, member, truthy⟩ := left
  obtain ⟨w, eval', member', truthy'⟩ := right
  have joined : (Expr.binary .both a b).eval props = if v.isTruthy then some w else some v := by
    simp only [Expr.eval, eval, eval', Option.bind_eq_bind, Option.bind_some]
    rfl
  cases test : v.isTruthy with
  | true => exact ⟨w, by rw [joined, if_pos test], member', by simp [← truthy, test, truthy']⟩
  | false => exact ⟨v, by rw [joined, if_neg (by simp [test])], member, by simp [← truthy, test]⟩

theorem Gives.either (left : Gives props C a P) (right : Gives props C b Q) :
    Gives props C (.binary .either a b) (P ∨ Q) := by
  obtain ⟨v, eval, member, truthy⟩ := left
  obtain ⟨w, eval', member', truthy'⟩ := right
  have joined : (Expr.binary .either a b).eval props = if v.isTruthy then some v else some w := by
    simp only [Expr.eval, eval, eval', Option.bind_eq_bind, Option.bind_some]
    rfl
  cases test : v.isTruthy with
  | true => exact ⟨v, by rw [joined, if_pos test], member, by simp [← truthy, test]⟩
  | false => exact ⟨w, by rw [joined, if_neg (by simp [test])], member', by simp [← truthy, test, truthy']⟩

variable {α : Type} {expr : α → Expr} {R : α → Prop} {rest : List α}

theorem Gives.all (first : Gives props C a P) (each : ∀ x ∈ rest, Gives props C (expr x) (R x)) :
    Gives props C (rest.foldl (fun e x => .binary .both e (expr x)) a) (P ∧ ∀ x ∈ rest, R x) := by
  induction rest generalizing a P with
  | nil => simpa using first
  | cons x rest ih =>
    obtain ⟨here, later⟩ := List.forall_mem_cons.mp each
    have joined := ih (first.both here) later
    rwa [and_assoc, ← List.forall_mem_cons] at joined

theorem Gives.any (first : Gives props C a P) (each : ∀ x ∈ rest, Gives props C (expr x) (R x)) :
    Gives props C (rest.foldl (fun e x => .binary .either e (expr x)) a) (P ∨ ∃ x ∈ rest, R x) := by
  induction rest generalizing a P with
  | nil => simpa using first
  | cons x rest ih =>
    obtain ⟨here, later⟩ := List.forall_mem_cons.mp each
    have joined := ih (first.either here) later
    simpa only [List.foldl_cons, or_assoc, List.mem_cons, exists_eq_or_imp] using joined

end Gives

theorem strictEquals_string (v : Value) (s : String) : v.strictEquals (.string s) = true ↔ v = .string s := by
  cases v <;> simp [Value.strictEquals]

theorem sameValueZero_string (s : String) (v : Value) :
    (Value.string s).sameValueZero v = true ↔ v = .string s := by
  cases v with
  | string t => simp [Value.sameValueZero, Value.strictEquals, Eq.comm (a := s)]
  | _ => simp [Value.sameValueZero, Value.strictEquals]

end Stencil.Script.Test

namespace Stencil.Component

open Script.Test hiding Expr
open Script (stops_cons)

namespace Term

/-- The term as it is meant to be read. -/
def expr : Term → Script.Test.Expr
  | truthy key => .member (.name "props") key
  | equals key name => .binary .equals (.member (.name "props") key) (.string name)

/-- The property is true, or it is the string. -/
def Holds (props : String → Value) : Term → Prop
  | truthy key => (props key).isTruthy = true
  | equals key name => props key = .string name

end Term

/-- Terms that must all hold, as they are meant to be read. -/
def allOf : List Term → Script.Test.Expr
  | [] => .empty
  | t :: terms => terms.foldl (fun e t => .binary .both e t.expr) t.expr

/-- Conditions one of which must hold, as they are meant to be read. -/
def anyOf : List (List Term) → Script.Test.Expr
  | [] => .empty
  | terms :: rest => rest.foldl (fun e terms => .binary .either e (allOf terms)) (allOf terms)

/-! Reading -/

theorem written_property {key : String} (named : isPropertyName key = true) :
    Written IsOperand ("props." ++ key) (.member (.name "props") key) := by
  have props : Spells "props" [.name "props"] := spells_name (by decide)
  have text : "props." ++ key = "props" ++ ("." ++ key) := by
    rw [← String.append_assoc]
    rfl
  refine ⟨[.name "props", .dot, .name key], ?_, fun _ _ => rfl⟩
  rw [text]
  refine props.append (cuts_dot.append_spells (spells_name named)) fun rest => ?_
  rw [String.toList_append]
  exact stops_cons rfl _

theorem written_term {t : Term} (named : isPropertyName t.key = true) : Written IsComparison t.write t.expr := by
  obtain ⟨ts, spells, read⟩ := written_property named
  cases t with
  | truthy key => exact ⟨ts, spells, read.comparison⟩
  | equals key name =>
    refine ⟨ts ++ .op .equals :: [.string name], ?_, read.equals (operand_string name)⟩
    rw [Term.write, String.append_assoc]
    refine spells.append (((cuts_op .equals).append (cuts_string name)).spells) fun rest => ?_
    rw [String.toList_append, List.append_assoc]
    exact stops_op .equals _

theorem written_all {terms : List Term} (filled : terms ≠ [])
    (named : ∀ t ∈ terms, isPropertyName t.key = true) :
    Written IsConjunction (Text.join " && " (terms.map Term.write)) (allOf terms) := by
  cases terms with
  | nil => exact absurd rfl filled
  | cons t terms =>
    obtain ⟨here, later⟩ := List.forall_mem_cons.mp named
    have first : Written IsConjunction t.write t.expr := (written_term here).mono IsComparison.conjunction
    exact first.joinOnto (cuts_op .both) (stops_op .both) IsConjunction.both fun t member =>
      written_term (later t member)

theorem written_paren {text : String} {e : Script.Test.Expr} (written : Written IsDisjunction text e) :
    Written IsOperand ("(" ++ text ++ ")") e := by
  obtain ⟨ts, spells, read⟩ := written
  refine ⟨_, ?_, read.paren⟩
  exact (cuts_openParen.append_spells spells).append cuts_closeParen.spells fun _ => stops_cons rfl _

/-- However many conditions there are, parentheses change nothing. -/
theorem written_any {conditions : List (List Term)} (nonempty : conditions ≠ [])
    (filled : ∀ terms ∈ conditions, terms ≠ [])
    (named : ∀ terms ∈ conditions, ∀ t ∈ terms, isPropertyName t.key = true) :
    Written IsDisjunction (writeAll conditions) (anyOf conditions) := by
  unfold writeAll
  generalize conditions.length = n
  have each : ∀ terms ∈ conditions, Written IsConjunction
      (if terms.length > 1 && n > 1 then "(" ++ Text.join " && " (terms.map Term.write) ++ ")"
        else Text.join " && " (terms.map Term.write)) (allOf terms) := by
    intro terms member
    have all := written_all (filled terms member) (named terms member)
    -- A conjunction binds more tightly than the disjunction, in parentheses or not.
    split
    · exact (written_paren (all.mono IsConjunction.disjunction)).mono fun read => read.comparison.conjunction
    · exact all
  cases conditions with
  | nil => exact absurd rfl nonempty
  | cons terms rest =>
    obtain ⟨here, later⟩ := List.forall_mem_cons.mp each
    have first := here.mono IsConjunction.disjunction
    exact first.joinOnto (cuts_op .either) (stops_op .either) IsDisjunction.either later

/-- A list of strings. -/
def listOf (names : List String) : Script.Test.Expr :=
  names.foldl (fun e name => .extend e (.string name)) .empty

theorem written_list {names : List String} (nonempty : names ≠ []) :
    Written IsOperand ("[" ++ Text.join ", " (names.map Json.quote) ++ "]") (listOf names) := by
  have opening : Cuts "[" [.openSquare] := fun _ => scan?_token rfl rfl
  have closing : Cuts "]" [.closeSquare] := fun _ => scan?_token rfl rfl
  have comma : Cuts ", " [.comma] := by
    intro rest
    change scan? (',' :: ' ' :: rest) = _
    rw [scan?_token rfl rfl, scan?_space]
    rfl
  have element (name : String) : Written IsOperand (Json.quote name) (.string name) :=
    ⟨_, (cuts_string name).spells, operand_string name⟩
  cases names with
  | nil => exact absurd rfl nonempty
  | cons name names =>
    have first : Written IsElements ("[" ++ Json.quote name) (.extend .empty (.string name)) :=
      ⟨_, (opening.append (cuts_string name)).spells, (operand_string name).elements⟩
    obtain ⟨ts, spells, read⟩ := first.joinOnto comma (fun _ => stops_cons rfl _) IsElements.comma
      fun name (_ : name ∈ names) => element name
    rw [Text.joinOnto_append] at spells
    exact ⟨_, spells.append closing.spells fun _ => stops_cons rfl _, read.close⟩

theorem written_includes {key : String} {names : List String} (nonempty : names ≠ [])
    (named : isPropertyName key = true) :
    Written IsOperand ("[" ++ Text.join ", " (names.map Json.quote) ++ "].includes(props." ++ key ++ ")")
      (.call (.member (listOf names) "includes") (.member (.name "props") key)) := by
  obtain ⟨ts, spells, read⟩ := written_list nonempty
  obtain ⟨us, spells', read'⟩ := written_property named
  have member : Spells ".includes" [.dot, .name "includes"] := by
    have name : Spells "includes" [.name "includes"] := spells_name (by decide)
    exact cuts_dot.append_spells name
  have argument : Spells ("(" ++ ("props." ++ key)) (.openParen :: us) := cuts_openParen.append_spells spells'
  have text : "[" ++ Text.join ", " (names.map Json.quote) ++ "].includes(props." ++ key ++ ")" =
      "[" ++ Text.join ", " (names.map Json.quote) ++ "]" ++ ".includes" ++
        ("(" ++ ("props." ++ key)) ++ ")" := by
    have middle : "].includes(props." = "]" ++ (".includes" ++ ("(" ++ "props.")) := rfl
    simp only [middle, String.append_assoc]
  rw [text]
  refine ⟨_, ?_, (read.member "includes").call read'⟩
  refine Spells.append ?_ cuts_closeParen.spells fun _ => stops_cons rfl _
  refine Spells.append (spells.append member fun _ => stops_cons rfl _) argument fun rest => ?_
  rw [String.toList_append]
  exact stops_cons rfl _

/-! Values -/

section Values

variable (props : String → Value)

/-- A comparison comes to a truth value. -/
def IsBoolean (v : Value) : Prop := ∃ b, v = .boolean b

theorem gives_equals (key name : String) :
    Gives props IsBoolean (Term.equals key name).expr (props key = .string name) := by
  refine ⟨.boolean ((props key).strictEquals (.string name)), ?_, ⟨_, rfl⟩, strictEquals_string _ _⟩
  rw [Term.expr]
  rfl

theorem gives_term (t : Term) : Gives props (fun _ => True) t.expr (t.Holds props) := by
  cases t with
  | truthy key => exact ⟨props key, rfl, trivial, Iff.rfl⟩
  | equals key name =>
    obtain ⟨v, eval, -, truthy⟩ := gives_equals props key name
    exact ⟨v, eval, trivial, truthy⟩

theorem gives_all {C : Value → Prop} {terms : List Term} (filled : terms ≠ [])
    (each : ∀ t ∈ terms, Gives props C t.expr (t.Holds props)) :
    Gives props C (allOf terms) (∀ t ∈ terms, t.Holds props) := by
  cases terms with
  | nil => exact absurd rfl filled
  | cons t terms =>
    obtain ⟨here, later⟩ := List.forall_mem_cons.mp each
    rw [List.forall_mem_cons]
    exact here.all later

theorem gives_any {C : Value → Prop} {conditions : List (List Term)} (nonempty : conditions ≠ [])
    (filled : ∀ terms ∈ conditions, terms ≠ [])
    (each : ∀ terms ∈ conditions, ∀ t ∈ terms, Gives props C t.expr (t.Holds props)) :
    Gives props C (anyOf conditions) (∃ terms ∈ conditions, ∀ t ∈ terms, t.Holds props) := by
  have all : ∀ terms ∈ conditions, Gives props C (allOf terms) (∀ t ∈ terms, t.Holds props) :=
    fun terms member => gives_all props (filled terms member) (each terms member)
  cases conditions with
  | nil => exact absurd rfl nonempty
  | cons terms rest =>
    obtain ⟨here, later⟩ := List.forall_mem_cons.mp all
    simpa only [anyOf, List.mem_cons, exists_eq_or_imp] using here.any later

theorem elements_foldl (names : List String) (e : Script.Test.Expr) :
    (names.foldl (fun e name => .extend e (.string name)) e).elements props =
      (e.elements props).map (· ++ names.map .string) := by
  induction names generalizing e with
  | nil => simp
  | cons name names ih =>
    rw [List.foldl_cons, ih, Script.Test.Expr.elements]
    cases e.elements props <;> simp [Script.Test.Expr.eval]

theorem gives_includes (key : String) (names : List String) :
    Gives props IsBoolean (.call (.member (listOf names) "includes") (.member (.name "props") key))
      (∃ name ∈ names, props key = .string name) := by
  refine ⟨.boolean ((names.map Value.string).any (·.sameValueZero (props key))), ?_, ⟨_, rfl⟩, ?_⟩
  · rw [Script.Test.Expr.eval, listOf, elements_foldl]
    rfl
  · simp [Value.isTruthy, sameValueZero_string]

theorem holds_comparisons_iff (key : String) (names : List String) :
    (∃ terms ∈ names.map fun name => [Term.equals key name], ∀ t ∈ terms, t.Holds props) ↔
      ∃ name ∈ names, props key = .string name := by
  constructor
  · rintro ⟨terms, member, all⟩
    obtain ⟨name, listed, rfl⟩ := List.mem_map.mp member
    exact ⟨name, listed, all _ (List.mem_singleton_self _)⟩
  · rintro ⟨name, listed, same⟩
    exact ⟨_, List.mem_map.mpr ⟨name, listed, rfl⟩, List.forall_mem_singleton.mpr same⟩

end Values

/-! Tests -/

theorem eq_of_soleName? {key name : String} {terms : List Term} (sole : soleName? key terms = some name) :
    terms = [.equals key name] := by
  unfold soleName? at sole
  split at sole
  · rename_i k name'
    split at sole
    · rename_i same
      cases sole
      rw [eq_of_beq same]
    · cases sole
  · cases sole

theorem eq_of_mapM_soleName? {key : String} {conditions : List (List Term)} {names : List String}
    (sole : conditions.mapM (soleName? key) = some names) :
    conditions = names.map fun name => [.equals key name] := by
  induction conditions generalizing names with
  | nil =>
    cases sole
    rfl
  | cons terms rest ih =>
    obtain ⟨name, names', here, later, rfl⟩ := mapM_cons_eq_some sole
    rw [List.map_cons, ← ih later, eq_of_soleName? here]

/-- Conditions that are each one comparison of the same key. -/
theorem eq_of_soleKey? {conditions : List (List Term)} {key : String} {names : List String}
    (sole : soleKey? conditions = some (key, names)) :
    conditions = names.map fun name => [.equals key name] := by
  unfold soleKey? at sole
  split at sole
  · obtain ⟨names', read, same⟩ := Option.map_eq_some_iff.mp sole
    cases same
    rw [List.map_cons, ← eq_of_mapM_soleName? read]
  · cases sole

/-- The test that is written for conditions comes to a value, whatever the properties are, and it is true
exactly if some condition holds. A list that the property is looked up in comes to the same value as the
disjunction of comparisons that it stands for. -/
theorem test_holds_iff {conditions : List (List Term)} (nonempty : conditions ≠ [])
    (filled : ∀ terms ∈ conditions, terms ≠ [])
    (named : ∀ terms ∈ conditions, ∀ t ∈ terms, isPropertyName t.key = true) (props : String → Value) :
    ∃ v, evaluate? props (writeConditions conditions) = some v ∧
      evaluate? props (writeAll conditions) = some v ∧
      (v.isTruthy = true ↔ ∃ terms ∈ conditions, ∀ t ∈ terms, t.Holds props) := by
  have plain := (written_any nonempty filled named).evaluate props
  unfold writeConditions
  split
  · rename_i key first second rest sole
    have same := eq_of_soleKey? sole
    have key_named : isPropertyName key = true :=
      named [.equals key first] (by simp [same]) _ (List.mem_singleton_self _)
    have each : ∀ terms ∈ conditions, ∀ t ∈ terms, Gives props IsBoolean t.expr (t.Holds props) := by
      rw [same]
      simp only [List.forall_mem_map, List.mem_singleton, forall_eq]
      exact fun name _ => gives_equals props key name
    have listed := (written_includes (List.cons_ne_nil first (second :: rest)) key_named).mono fun read =>
      read.comparison.conjunction.disjunction
    obtain ⟨_, eval, ⟨b, rfl⟩, truthy⟩ := gives_any props nonempty filled each
    obtain ⟨_, eval', ⟨b', rfl⟩, truthy'⟩ := gives_includes props key (first :: second :: rest)
    have agree := holds_comparisons_iff props key (first :: second :: rest)
    rw [← same] at agree
    have equal : b' = b := Bool.eq_iff_iff.mpr (truthy'.trans (agree.symm.trans truthy.symm))
    rw [equal] at eval'
    exact ⟨.boolean b, (listed.evaluate props).trans eval', plain.trans eval, truthy⟩
  · obtain ⟨v, eval, -, truthy⟩ := gives_any props nonempty filled fun _ _ t _ => gives_term props t
    exact ⟨v, plain.trans eval, plain.trans eval, truthy⟩

/-- Two options of one key, one of them with a quote in its name; and a switch together with an option. -/
theorem test_holds_iff_size :
    let options : List (List Term) := [[.equals "size" "l"], [.equals "size" "x\"l"]]
    let mixed : List (List Term) := [[.truthy "wide", .equals "size" "x\"l"], [.equals "size" "m"]]
    let props : String → Value := fun key => if key = "size" then .string "x\"l" else .null
    writeConditions options = "[\"l\", \"x\\\"l\"].includes(props.size)" ∧
      writeConditions mixed = "(props.wide && props.size === \"x\\\"l\") || props.size === \"m\"" ∧
      (∃ v, evaluate? props (writeConditions options) = some v ∧
        evaluate? props (writeAll options) = some v ∧ v.isTruthy = true) ∧
      ∃ v, evaluate? props (writeConditions mixed) = some v ∧ v.isTruthy = false := by
  intro options mixed props
  obtain ⟨v, test, plain, truthy⟩ := @test_holds_iff options (by decide) (by decide) (by decide) props
  obtain ⟨w, test', -, truthy'⟩ := @test_holds_iff mixed (by decide) (by decide) (by decide) props
  have held : ∃ terms ∈ options, ∀ t ∈ terms, t.Holds props :=
    ⟨[.equals "size" "x\"l"], by decide, by simp [Term.Holds, props]⟩
  have none : ¬ ∃ terms ∈ mixed, ∀ t ∈ terms, t.Holds props := by
    simp [mixed, Term.Holds, props, Value.isTruthy]
  refine ⟨by decide, by decide, ⟨v, test, plain, truthy.mpr held⟩, w, test', ?_⟩
  exact Bool.eq_false_iff.mpr (mt truthy'.mp none)

end Stencil.Component
