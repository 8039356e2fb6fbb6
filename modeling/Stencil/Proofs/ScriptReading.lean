import Stencil.Component.Expression
import Stencil.Proofs.JsonRoundTrip
import Stencil.Proofs.Lists
import Stencil.Proofs.Script
import Stencil.Proofs.Words

/-! Expressions that are written and read again. Nothing is ever put into parentheses, so an expression is
read as it was meant only if each operand binds more tightly than the operator it stands at; those that
attributes hold do. -/
namespace Stencil.Script

/-- What follows does not go on with a name. -/
def Stops (rest : List Char) : Prop := ∀ c ∈ rest.head?, isNameChar c = false

section Run

variable {state : Reading} {rest : List Char}

theorem run_nil (state : Reading) : run state [] = state.finish := by
  rw [run]
  rfl

theorem run_token {c : Char} {s : List Char} {t : Token} (solid : isSpace c = false)
    (read : next? (c :: s) = some (t, rest)) :
    run state (c :: s) = (state.step t).bind fun state => run state rest := by
  have front : (c :: s).dropWhile isSpace = c :: s := by simp [solid]
  rw [run]
  split
  · rename_i empty
    cases front.symm.trans empty
  · rename_i front'
    cases front.symm.trans front'
    split
    · rename_i none
      cases read.symm.trans none
    · rename_i read'
      cases read.symm.trans read'
      rfl

theorem isSpace_of_isNameChar {c : Char} (inside : isNameChar c = true) : isSpace c = false := by
  cases space : isSpace c with
  | false => rfl
  | true =>
    simp only [isNameChar, space, Bool.not_true, Bool.and_false, Bool.or_false, Bool.or_eq_true,
      beq_iff_eq] at inside
    rcases inside with (alphanumeric | rfl) | rfl
    · simp only [Text.isAlphanum_iff, Text.isAlpha_iff, Text.isUpper_iff, Text.isLower_iff,
        Text.isDigit_iff] at alphanumeric
      simp only [isSpace, Text.isBlank, Bool.or_eq_true, Bool.and_eq_true, decide_eq_true_eq,
        beq_iff_eq] at space
      omega
    · cases space
    · cases space

theorem run_space (state : Reading) (s : List Char) : run state (' ' :: s) = run state s := by
  have front : (' ' :: s).dropWhile isSpace = s.dropWhile isSpace := rfl
  rw [run, run, front]

/-- A name is taken as a whole. -/
theorem run_name {name : String} (named : isIdentifier name = true) (stops : Stops rest) :
    run state (name.toList ++ rest) = (state.step (.name name)).bind fun state => run state rest := by
  obtain ⟨c, cs, spelled⟩ : ∃ c cs, name.toList = c :: cs := by
    cases chars : name.toList with
    | nil => simp [isIdentifier, chars] at named
    | cons c cs => exact ⟨c, cs, rfl⟩
  simp only [isIdentifier, spelled, Bool.and_eq_true, List.all_eq_true] at named
  obtain ⟨⟨starts, inside⟩, -⟩ := named
  obtain ⟨taken, left⟩ := takeWhile_append_stop inside stops
  have solid : isSpace c = false := isSpace_of_isNameChar (Bool.and_eq_true_iff.mp starts).1
  have read : next? (c :: (cs ++ rest)) = some (.name name, rest) := by
    rw [next?, if_pos starts, taken, left, ← spelled, String.ofList_toList]
  rw [spelled, List.cons_append, run_token solid read]

theorem run_string (value : String) :
    run state ((Json.quote value).toList ++ rest) =
      (state.step (.string value)).bind fun state => run state rest := by
  have read : next? ('"' :: (value.toList.flatMap Json.escape ++ '"' :: rest)) =
      some (.string value, rest) := by
    change (Json.Token.stringBody? _).map _ = _
    rw [Json.Token.stringBody?_flatMap_escape]
    simp
  rw [Json.Token.toList_quote_append, run_token rfl read]

end Run

section Chunk

open Component.Expr (escapeTemplate)

/-- What ends a part of a template literal. -/
def chunkEnd : Bool → List Char
  | true => ['$', '{']
  | false => ['\x60']

theorem chunk?_escape {c : Char} (escaped : c = '\\' ∨ c = '\x60' ∨ c = '$') (s : List Char) :
    chunk? ('\\' :: c :: s) = (chunk? s).map (·.prepend c) := by
  rw [chunk?, if_pos escaped]

theorem chunk?_cons {c : Char} {s : List Char} (tick : c ≠ '\x60') (backslash : c ≠ '\\') (line : c ≠ '\r')
    (closed : ∀ t, c = '$' → s ≠ '{' :: t) : chunk? (c :: s) = (chunk? s).map (·.prepend c) := by
  rw [chunk?]
  · exact tick
  · exact closed
  · intro _ _ same
    exact absurd same backslash
  · intro _ same
    exact absurd same line
  · exact line

theorem head_escapeTemplate {s : List Char} (closed : ∀ t, s ≠ '{' :: t) (opens : Bool) (rest t : List Char) :
    escapeTemplate s ++ (chunkEnd opens ++ rest) ≠ '{' :: t := by
  fun_cases escapeTemplate s with
  | case1 => cases opens <;> simp [chunkEnd]
  | case2 | case3 | case4 => simp
  | case5 c s =>
    intro same
    exact closed s (by rw [(List.cons.inj same).1])

/-- Escaped text is read up to the end of its part, whatever the end is. -/
theorem chunk?_escapeTemplate {text : List Char} (plain : '\r' ∉ text) (opens : Bool) (rest : List Char) :
    chunk? (escapeTemplate text ++ (chunkEnd opens ++ rest)) = some ⟨text, opens, rest⟩ := by
  fun_induction escapeTemplate text with
  | case1 => cases opens <;> rfl
  | case2 s ih | case3 s ih =>
    have later := ih fun member => plain (List.mem_cons_of_mem _ member)
    rw [List.cons_append, List.cons_append, chunk?_escape (by simp), later]
    rfl
  | case4 s ih =>
    have later := ih fun member => plain (List.mem_cons_of_mem _ (List.mem_cons_of_mem _ member))
    rw [List.cons_append, List.cons_append, List.cons_append, chunk?_escape (by simp),
      chunk?_cons (by decide) (by decide) (by decide) (by simp), later]
    rfl
  | case5 c s backslash tick dollar ih =>
    have later := ih fun member => plain (List.mem_cons_of_mem _ member)
    have line : c ≠ '\r' := fun same => plain (same ▸ List.mem_cons_self ..)
    have closed : ∀ t, c = '$' → escapeTemplate s ++ (chunkEnd opens ++ rest) ≠ '{' :: t := fun t same =>
      head_escapeTemplate (fun t opened => dollar t same opened) opens rest t
    rw [List.cons_append, chunk?_cons tick backslash line closed, later]
    rfl

end Chunk

section Stack

variable {p q : Nat} {e x : Term} {k k' : List Frame}

/-- No operation that binds as tightly is open on the left. -/
def Opens (p : Nat) (k : List Frame) : Prop :=
  ∀ left op rest, k = .operator left op :: rest → op.strength < p

theorem Opens.mono (opens : Opens p k) (less : p ≤ q) : Opens q k := fun left op rest top =>
  Nat.lt_of_lt_of_le (opens left op rest top) less

theorem reduce_of_opens (opens : Opens p k) (less : p ≤ q) (e : Term) : reduce q e k = (e, k) := by
  unfold reduce
  split
  · rename_i left op rest
    have loose := opens left op rest rfl
    rw [if_neg (by omega)]
  · rfl

/-- What is read is the term, as soon as an operator no tighter than `p`, or an end, groups it. -/
structure Settles (p : Nat) (e : Term) (k : List Frame) (x : Term) (k' : List Frame) : Prop where
  reduce : ∀ q, 1 ≤ q → q ≤ p → reduce q x k' = Script.reduce q e k
  close : close x k' = Script.close e k

theorem settles_refl (p : Nat) (e : Term) (k : List Frame) : Settles p e k e k := ⟨fun _ _ _ => rfl, rfl⟩

theorem strength_le (op : Op) : op.strength ≤ 3 := by
  cases op <;> decide

/-- What binds more tightly than any operator stands for itself. -/
theorem eq_of_settles (settles : Settles 4 e k x k') : x = e ∧ k' = k := by
  have opens : ∀ k, Opens 4 k := fun k left op rest _ => Nat.lt_succ_of_le (strength_le op)
  have same := settles.reduce 4 (by decide) (by decide)
  rw [reduce_of_opens (opens k') (Nat.le_refl 4), reduce_of_opens (opens k) (Nat.le_refl 4)] at same
  exact Prod.mk.inj same

theorem settles_operator (op : Op) {a b : Term} (settles : Settles q b (.operator a op :: k) x k')
    (tighter : op.strength ≤ q) : Settles op.strength (.binary op a b) k x k' where
  reduce r positive weak := by
    rw [settles.reduce r positive (Nat.le_trans weak tighter), Script.reduce, if_pos weak]
  close := by rw [settles.close, Script.close]

/-- An operator as it is written, with its blanks. -/
def Op.spelling : Op → List Char
  | either => [' ', '|', '|', ' ']
  | differs => [' ', '!', '=', '=', ' ']
  | plus => [' ', '+', ' ']

theorem stops_cons {c : Char} (other : isNameChar c = false) (rest : List Char) : Stops (c :: rest) := by
  simpa [Stops] using other

theorem stops_spelling (op : Op) (rest : List Char) : Stops (op.spelling ++ rest) := by
  cases op <;> exact stops_cons rfl _

theorem run_operator (op : Op) (settles : Settles p e k x k') (tight : op.strength ≤ p)
    (opens : Opens op.strength k) (rest : List Char) :
    run (.having x k') (op.spelling ++ rest) = run (.wanting (.operator e op :: k)) rest := by
  have grouped : reduce op.strength x k' = (e, k) := by
    rw [settles.reduce _ (by cases op <;> decide) tight, reduce_of_opens opens (Nat.le_refl _)]
  have step : (Reading.having x k').step (.op op) = some (.wanting (.operator e op :: k)) := by
    rw [Reading.step, grouped]
  cases op with
  | either =>
    change run _ (' ' :: '|' :: '|' :: ' ' :: rest) = _
    rw [run_space, run_token rfl rfl, step]
    rfl
  | differs =>
    change run _ (' ' :: '!' :: '=' :: '=' :: ' ' :: rest) = _
    rw [run_space, run_token rfl rfl, step]
    rfl
  | plus =>
    change run _ (' ' :: '+' :: ' ' :: rest) = _
    rw [run_space, run_token rfl rfl, step]
    rfl

theorem run_question (settles : Settles p e k x k') (tight : 1 ≤ p) (opens : Opens 1 k) (rest : List Char) :
    run (.having x k') (' ' :: '?' :: ' ' :: rest) = run (.wanting (.test e :: k)) rest := by
  have grouped : reduce 1 x k' = (e, k) := by
    rw [settles.reduce 1 (Nat.le_refl 1) tight, reduce_of_opens opens (Nat.le_refl 1)]
  have step : (Reading.having x k').step .question = some (.wanting (.test e :: k)) := by
    rw [Reading.step, grouped]
  rw [run_space, run_token rfl rfl, step]
  rfl

theorem run_colon {test : Term} (settles : Settles p e (.test test :: k) x k') (rest : List Char) :
    run (.having x k') (' ' :: ':' :: ' ' :: rest) = run (.wanting (.otherwise test e :: k)) rest := by
  have step : (Reading.having x k').step .colon = some (.wanting (.otherwise test e :: k)) := by
    rw [Reading.step, settles.close]
    rfl
  rw [run_space, run_token rfl rfl, step]
  rfl

theorem step_name {name : String} (named : isIdentifier name = true) (k : List Frame) :
    (Reading.wanting k).step (.name name) = some (.having (.name name) k) := by
  have free : ¬ reservedWords.contains name = true := by
    unfold isIdentifier at named
    split at named
    · cases named
    · simp_all
  rw [Reading.step, if_neg free]

/-- A variable is read wherever an operand is wanted. -/
theorem run_variable {name : String} (named : isIdentifier name = true) (k : List Frame) {rest : List Char}
    (stops : Stops rest) :
    run (.wanting k) (name.toList ++ rest) = run (.having (.name name) k) rest := by
  rw [run_name named stops, step_name named]
  rfl

/-- A property of what has been read. -/
theorem run_member {name : String} (named : isIdentifier name = true) (e : Term) (k : List Frame)
    {rest : List Char} (stops : Stops rest) :
    run (.having e k) ('.' :: (name.toList ++ rest)) = run (.having (.member e name) k) rest := by
  rw [run_token rfl rfl]
  change run (.property e k) (name.toList ++ rest) = _
  rw [run_name named stops]
  rfl

end Stack

end Stencil.Script

namespace Stencil.Component.Expr

open Script (Term isIdentifier)

/-- How tightly an expression binds: conditionals are the loosest, operands of any operator the
tightest. -/
def level : Expr → Nat
  | .choose .. => 0
  | .any _ => 1
  | .isDefined _ => 2
  | .append .. => 3
  | _ => 4

mutual

/-- Each operand binds more tightly than its operator, and texts and names can be read back. -/
def Nested : Expr → Prop
  | .key name | .option name => isIdentifier name = true
  | .literal _ | .undefined => True
  | .isDefined e => 2 ≤ e.level ∧ e.Nested
  | .any operands => operands ≠ [] ∧ (∀ e ∈ operands, 2 ≤ e.level) ∧ NestedAll operands
  | .choose test ifTrue ifFalse => 1 ≤ test.level ∧ test.Nested ∧ ifTrue.Nested ∧ ifFalse.Nested
  | .append a b => 3 ≤ a.level ∧ a.Nested ∧ 4 ≤ b.level ∧ b.Nested
  | .template text substitutions => '\r' ∉ text.toList ∧ NestedAll substitutions
  | .trimStart e => 4 ≤ e.level ∧ e.Nested

def NestedAll : List Expr → Prop
  | [] => True
  | e :: rest => e.Nested ∧ NestedAll rest

end

/-- Alternatives, grouped from the left. -/
def alternatives : List Term → Term
  | [] => .name "undefined"
  | e :: rest => rest.foldl (.binary .either) e

/-- A template literal with substitutions side by side. -/
def substituted (front : Term) (inner : List Term) : Term :=
  inner.foldl (fun front e => .extend front e "") front

mutual

/-- The expression as it is meant to be read. -/
def term : Expr → Term
  | .key name => .name name
  | .option k => .index (.member (.name "constants") k) (.name k)
  | .literal value => .string value
  | .undefined => .name "undefined"
  | .isDefined e => .binary .differs e.term (.name "undefined")
  | .any operands => alternatives (terms operands)
  | .choose test ifTrue ifFalse => .choose test.term ifTrue.term ifFalse.term
  | .append a b => .binary .plus a.term b.term
  | .template text substitutions => substituted (.chunk text) (terms substitutions)
  | .trimStart e => .call (.member e.term "trimStart")

def terms : List Expr → List Term
  | [] => []
  | e :: rest => e.term :: terms rest

end

theorem writeAll_eq (es : List Expr) : writeAll es = es.map write := by
  induction es with
  | nil => rfl
  | cons e rest ih => rw [writeAll, ih, List.map_cons]

theorem terms_eq (es : List Expr) : terms es = es.map term := by
  induction es with
  | nil => rfl
  | cons e rest ih => rw [terms, ih, List.map_cons]

theorem nestedAll_iff (es : List Expr) : NestedAll es ↔ ∀ e ∈ es, e.Nested := by
  induction es with
  | nil => simp [NestedAll]
  | cons e rest ih => simp [NestedAll, ih]

open Script

/-- Read where nothing tighter is open, the expression is taken in as it is meant. -/
def Runs (e : Expr) : Prop :=
  ∀ k rest, Opens e.level k → Stops rest → ∃ x k',
    run (.wanting k) (e.write.toList ++ rest) = run (.having x k') rest ∧ Settles e.level e.term k x k'

section Runs

theorem runs_key {name : String} (named : isIdentifier name = true) : Runs (.key name) := by
  intro k rest _ stops
  exact ⟨_, _, run_variable named k stops, settles_refl ..⟩

theorem named_undefined : isIdentifier "undefined" = true := by decide

theorem runs_undefined : Runs .undefined := by
  intro k rest _ stops
  exact ⟨_, _, run_variable named_undefined k stops, settles_refl ..⟩

theorem runs_literal (value : String) : Runs (.literal value) := by
  intro k rest _ _
  refine ⟨_, _, ?_, settles_refl ..⟩
  rw [write, run_string]
  rfl

theorem runs_option {key : String} (named : isIdentifier key = true) : Runs (.option key) := by
  intro k rest _ stops
  refine ⟨_, _, ?_, settles_refl ..⟩
  have spelled : (write (.option key)).toList ++ rest =
      "constants".toList ++ ('.' :: (key.toList ++ ('[' :: (key.toList ++ ']' :: rest)))) := by
    simp [write]
  rw [spelled, run_variable (by decide) k (stops_cons rfl _), run_member named _ k (stops_cons rfl _),
    run_token rfl rfl]
  change run (.wanting (.bracket (.member (.name "constants") key) :: k)) (key.toList ++ ']' :: rest) = _
  rw [run_variable named _ (stops_cons rfl _), run_token rfl rfl]
  rfl

variable {e a b test ifTrue ifFalse : Expr}

theorem runs_isDefined (runs : Runs e) (tight : 2 ≤ e.level) : Runs (.isDefined e) := by
  intro k rest opens stops
  have spelled : (write (.isDefined e)).toList ++ rest =
      e.write.toList ++ (Op.differs.spelling ++ ("undefined".toList ++ rest)) := by
    simp [write, Op.spelling]
  obtain ⟨x, k', read, settles⟩ := runs k _ (opens.mono tight) (stops_spelling .differs _)
  have grouped :
      Settles 2 (.isDefined e : Expr).term k (.name "undefined") (.operator e.term .differs :: k) :=
    settles_operator .differs (settles_refl 2 ..) (Nat.le_refl 2)
  refine ⟨_, _, ?_, grouped⟩
  rw [spelled, read, run_operator .differs settles tight opens, run_variable named_undefined _ stops]

theorem runs_append (runs : Runs a) (tight : 3 ≤ a.level) (runs' : Runs b) (tight' : 4 ≤ b.level) :
    Runs (.append a b) := by
  intro k rest opens stops
  have spelled : (write (.append a b)).toList ++ rest =
      a.write.toList ++ (Op.plus.spelling ++ (b.write.toList ++ rest)) := by
    simp [write, Op.spelling]
  obtain ⟨x, k', read, settles⟩ := runs k _ (opens.mono tight) (stops_spelling _ _)
  have inner : Opens b.level (.operator a.term .plus :: k) := by
    rintro _ _ _ ⟨⟩
    exact tight'
  obtain ⟨y, k₁, read', settles'⟩ := runs' _ rest inner stops
  refine ⟨y, k₁, ?_, settles_operator .plus settles' (Nat.le_of_lt tight')⟩
  rw [spelled, read, run_operator .plus settles tight opens, read']

theorem runs_choose (runs : Runs test) (tight : 1 ≤ test.level) (runsTrue : Runs ifTrue)
    (runsFalse : Runs ifFalse) : Runs (.choose test ifTrue ifFalse) := by
  intro k rest opens stops
  have spelled : (write (.choose test ifTrue ifFalse)).toList ++ rest =
      test.write.toList ++ (' ' :: '?' :: ' ' :: (ifTrue.write.toList ++
        (' ' :: ':' :: ' ' :: (ifFalse.write.toList ++ rest)))) := by
    simp [write]
  obtain ⟨x, k', read, settles⟩ := runs k (' ' :: _) (opens.mono (Nat.zero_le _)) (stops_cons rfl _)
  obtain ⟨y, k₁, read', settles'⟩ :=
    runsTrue (.test test.term :: k) (' ' :: _) (by rintro _ _ _ ⟨⟩) (stops_cons rfl _)
  obtain ⟨z, k₂, read'', settles''⟩ :=
    runsFalse (.otherwise test.term ifTrue.term :: k) rest (by rintro _ _ _ ⟨⟩) stops
  refine ⟨z, k₂, ?_, ⟨fun q positive none => ?_, ?_⟩⟩
  · rw [spelled, read, run_question settles tight (opens.mono (Nat.zero_le 1)), read', run_colon settles',
      read'']
  -- No operator groups a conditional, so that only its end matters.
  · exact absurd (Nat.le_trans positive none) (by simp [level])
  · rw [settles''.close, Script.close]
    rfl

theorem stops_alternatives (operands : List Expr) {rest : List Char} (stops : Stops rest) :
    Stops (operands.flatMap (fun e => Op.either.spelling ++ e.write.toList) ++ rest) := by
  cases operands with
  | nil => exact stops
  | cons => exact stops_cons rfl _

/-- Further alternatives are grouped with those in front of them. -/
theorem run_alternatives {operands : List Expr} (runs : ∀ e ∈ operands, Runs e)
    (tight : ∀ e ∈ operands, 2 ≤ e.level) {p : Nat} {front x : Term} {k k' : List Frame} (positive : 1 ≤ p)
    (settles : Settles p front k x k') (opens : Opens 1 k) {rest : List Char} (stops : Stops rest) :
    ∃ y k₁, run (.having x k') (operands.flatMap (fun e => Op.either.spelling ++ e.write.toList) ++ rest) =
        run (.having y k₁) rest ∧
      Settles 1 ((operands.map term).foldl (.binary .either) front) k y k₁ := by
  induction operands generalizing p front x k' with
  | nil =>
    refine ⟨x, k', rfl, fun q least most => ?_, settles.close⟩
    exact settles.reduce q least (Nat.le_trans most positive)
  | cons e operands ih =>
    simp only [List.forall_mem_cons] at runs tight
    have inner : Opens e.level (.operator front .either :: k) := by
      rintro _ _ _ ⟨⟩
      exact tight.1
    obtain ⟨y, k₁, read, settles'⟩ := runs.1 _ _ inner (stops_alternatives operands stops)
    -- The next operator binds as tightly, so it groups this operand with what stands in front.
    have grouped := settles_operator .either settles' (Nat.le_of_lt tight.1)
    obtain ⟨z, k₂, read', settled⟩ := ih runs.2 tight.2 (Nat.le_refl 1) grouped
    refine ⟨z, k₂, ?_, settled⟩
    rw [List.flatMap_cons, List.append_assoc, List.append_assoc, run_operator .either settles positive opens,
      read, read']

theorem runs_any {operands : List Expr} (nonempty : operands ≠ []) (runs : ∀ e ∈ operands, Runs e)
    (tight : ∀ e ∈ operands, 2 ≤ e.level) : Runs (.any operands) := by
  obtain ⟨e, operands, rfl⟩ := List.exists_cons_of_ne_nil nonempty
  intro k rest opens stops
  simp only [List.forall_mem_cons] at runs tight
  have spelled : (write (.any (e :: operands))).toList ++ rest =
      e.write.toList ++ (operands.flatMap (fun e => Op.either.spelling ++ e.write.toList) ++ rest) := by
    simp [write, writeAll, writeAll_eq, Text.join, Text.toList_joinOnto, Op.spelling, List.flatMap_map]
  obtain ⟨x, k', read, settles⟩ :=
    runs.1 k _ (opens.mono (Nat.le_of_lt tight.1)) (stops_alternatives operands stops)
  obtain ⟨y, k₁, read', settles'⟩ :=
    run_alternatives runs.2 tight.2 (Nat.le_of_lt tight.1) settles opens stops
  refine ⟨y, k₁, ?_, ?_⟩
  · rw [spelled, read, read']
  · rw [term, terms, terms_eq]
    exact settles'

/-- The end of a substitution. -/
theorem run_hole {p : Nat} {e front x : Term} {k k' : List Frame}
    (settles : Settles p e (.hole front :: k) x k') (opens : Bool) (rest : List Char) :
    run (.having x k') ('}' :: (chunkEnd opens ++ rest)) =
      run (if opens then .wanting (.hole (.extend front e "") :: k) else .having (.extend front e "") k)
        rest := by
  have closed : close x k' = (e, .hole front :: k) := settles.close
  cases opens with
  | true =>
    have step : (Reading.having x k').step (.middle "") =
        some (.wanting (.hole (.extend front e "") :: k)) := by
      rw [Reading.step, closed]
    have read : next? ('}' :: '$' :: '{' :: rest) = some (.middle "", rest) := rfl
    change run _ ('}' :: '$' :: '{' :: rest) = _
    rw [run_token rfl read, step]
    rfl
  | false =>
    have step : (Reading.having x k').step (.tail "") = some (.having (.extend front e "") k) := by
      rw [Reading.step, closed]
    have read : next? ('}' :: '\x60' :: rest) = some (.tail "", rest) := rfl
    change run _ ('}' :: '\x60' :: rest) = _
    rw [run_token rfl read, step]
    rfl

/-- Substitutions as they are written. -/
def holes (substitutions : List Expr) : List Char :=
  substitutions.flatMap fun e => '$' :: '{' :: (e.write.toList ++ ['}'])

theorem holes_cons (e : Expr) (substitutions : List Expr) (rest : List Char) :
    holes (e :: substitutions) ++ rest =
      chunkEnd true ++ (e.write.toList ++ '}' :: (holes substitutions ++ rest)) := by
  simp [holes, chunkEnd]

theorem run_substitutions {e : Expr} {substitutions : List Expr} (runs : ∀ e' ∈ e :: substitutions, Runs e')
    (front : Term) (k : List Frame) (rest : List Char) :
    run (.wanting (.hole front :: k)) (e.write.toList ++ '}' :: (holes substitutions ++ '\x60' :: rest)) =
      run (.having (substituted front (e.term :: substitutions.map term)) k) rest := by
  induction substitutions generalizing e front with
  | nil =>
    obtain ⟨x, k', read, settles⟩ := runs e (List.mem_cons_self ..) (.hole front :: k) ('}' :: '\x60' :: rest)
      (by rintro _ _ _ ⟨⟩) (stops_cons rfl _)
    exact read.trans (run_hole settles false rest)
  | cons e' substitutions ih =>
    obtain ⟨x, k', read, settles⟩ := runs e (List.mem_cons_self ..) (.hole front :: k) ('}' :: _)
      (by rintro _ _ _ ⟨⟩) (stops_cons rfl _)
    have later := ih (fun e'' member => runs e'' (List.mem_cons_of_mem _ member)) (.extend front e.term "")
    rw [holes_cons, read, run_hole settles true]
    exact later

theorem toList_write_template (text : String) (substitutions : List Expr) (rest : List Char) :
    (write (.template text substitutions)).toList ++ rest =
      '\x60' :: (escapeTemplate text.toList ++ (holes substitutions ++ '\x60' :: rest)) := by
  simp [write, writeAll_eq, Text.toList_concat, holes, List.flatMap_map]

theorem runs_template {text : String} {substitutions : List Expr} (plain : '\r' ∉ text.toList)
    (runs : ∀ e ∈ substitutions, Runs e) : Runs (.template text substitutions) := by
  intro k rest _ _
  refine ⟨_, _, ?_, settles_refl ..⟩
  rw [toList_write_template]
  cases substitutions with
  | nil =>
    have read : next? ('\x60' :: (escapeTemplate text.toList ++ (chunkEnd false ++ rest))) =
        some (.whole text, rest) := by
      change (chunk? _).map _ = _
      rw [chunk?_escapeTemplate plain]
      simp
    change run _ ('\x60' :: (escapeTemplate text.toList ++ (chunkEnd false ++ rest))) = _
    rw [run_token rfl read]
    rfl
  | cons e substitutions =>
    have read : next? ('\x60' :: (escapeTemplate text.toList ++ (chunkEnd true ++ (e.write.toList ++
          '}' :: (holes substitutions ++ '\x60' :: rest))))) =
        some (.head text, e.write.toList ++ '}' :: (holes substitutions ++ '\x60' :: rest)) := by
      change (chunk? _).map _ = _
      rw [chunk?_escapeTemplate plain]
      simp
    rw [holes_cons, run_token rfl read, term, terms, terms_eq]
    exact run_substitutions runs (.chunk text) k rest

theorem runs_trimStart (runs : Runs e) (tight : 4 ≤ e.level) : Runs (.trimStart e) := by
  intro k rest opens _
  have four : e.level = 4 := by
    cases e <;> simp_all [level]
  have spelled : (write (.trimStart e)).toList ++ rest =
      e.write.toList ++ ('.' :: ("trimStart".toList ++ ('(' :: ')' :: rest))) := by
    simp [write]
  obtain ⟨x, k', read, settles⟩ := runs k ('.' :: _) (opens.mono tight) (stops_cons rfl _)
  rw [four] at settles
  obtain ⟨rfl, rfl⟩ := eq_of_settles settles
  refine ⟨_, _, ?_, settles_refl ..⟩
  rw [spelled, read, run_member (by decide) _ _ (stops_cons rfl _), run_token rfl rfl]
  rfl

end Runs

mutual

theorem runs_of_nested : (e : Expr) → e.Nested → Runs e
  | .key _, named => runs_key named
  | .option _, named => runs_option named
  | .literal value, _ => runs_literal value
  | .undefined, _ => runs_undefined
  | .isDefined e, ⟨tight, nested⟩ => runs_isDefined (runs_of_nested e nested) tight
  | .any operands, ⟨nonempty, tight, nested⟩ => runs_any nonempty (runs_of_nestedAll operands nested) tight
  | .choose test ifTrue ifFalse, ⟨tight, nested, nestedTrue, nestedFalse⟩ =>
    runs_choose (runs_of_nested test nested) tight (runs_of_nested ifTrue nestedTrue)
      (runs_of_nested ifFalse nestedFalse)
  | .append a b, ⟨tight, nested, tight', nested'⟩ =>
    runs_append (runs_of_nested a nested) tight (runs_of_nested b nested') tight'
  | .template _ substitutions, ⟨plain, nested⟩ => runs_template plain (runs_of_nestedAll substitutions nested)
  | .trimStart e, ⟨tight, nested⟩ => runs_trimStart (runs_of_nested e nested) tight

theorem runs_of_nestedAll : (es : List Expr) → NestedAll es → ∀ e ∈ es, Runs e
  | [], _ => fun _ member => nomatch member
  | e :: rest, ⟨nested, nestedRest⟩ => List.forall_mem_cons.mpr
    ⟨runs_of_nested e nested, runs_of_nestedAll rest nestedRest⟩

end

/-- An expression is read as it was meant. -/
theorem read?_write {e : Expr} (nested : e.Nested) : read? e.write = some e.term := by
  obtain ⟨x, k', read, settles⟩ := runs_of_nested e nested [] [] (by rintro _ _ _ ⟨⟩) (by simp [Stops])
  have closed : close x k' = (e.term, []) := settles.close
  rw [List.append_nil] at read
  rw [read?, read, run_nil, Reading.finish, closed]

end Stencil.Component.Expr
