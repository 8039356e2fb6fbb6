import Stencil.Json.Reader

/-! Reading undoes the compact form of JSON. The written form of a value is cut into the tokens of the
value, wherever it stands, and these tokens lead the reader to the value itself. Values with numbers are
left out: a number is kept as its literal, and not every text is one. -/
namespace Stencil.Json

mutual

/-- Values without numbers. -/
def isWordy : Json → Bool
  | .number _ => false
  | .array items => allWordy items
  | .object members => membersWordy members
  | _ => true

def allWordy : List Json → Bool
  | [] => true
  | v :: rest => v.isWordy && allWordy rest

def membersWordy : List (String × Json) → Bool
  | [] => true
  | m :: rest => m.2.isWordy && membersWordy rest

end

mutual

/-- The greatest number of containers around a value inside this one, the value itself counted. -/
def depth : Json → Nat
  | .array items => depthAll items + 1
  | .object members => depthMembers members + 1
  | _ => 0

def depthAll : List Json → Nat
  | [] => 0
  | v :: rest => max v.depth (depthAll rest)

def depthMembers : List (String × Json) → Nat
  | [] => 0
  | m :: rest => max m.2.depth (depthMembers rest)

end

theorem allWordy_iff {items : List Json} : allWordy items = true ↔ ∀ v ∈ items, v.isWordy = true := by
  induction items with
  | nil => simp [allWordy]
  | cons v rest ih => simp [allWordy, ih]

theorem depthAll_le_iff {items : List Json} {n : Nat} : depthAll items ≤ n ↔ ∀ v ∈ items, v.depth ≤ n := by
  induction items with
  | nil => simp [depthAll]
  | cons v rest ih => rw [depthAll, Nat.max_le, ih, List.forall_mem_cons]

mutual

/-- The tokens of the compact form. -/
def tokens : Json → List Token
  | .null => [.null]
  | .bool b => [.bool b]
  | .number n => [.number n]
  | .string s => [.string s]
  | .array items => .openArray :: (itemTokens items ++ [.closeArray])
  | .object members => .openObject :: (memberTokens members ++ [.closeObject])

def itemTokens : List Json → List Token
  | [] => []
  | [v] => v.tokens
  | v :: w :: rest => v.tokens ++ .comma :: itemTokens (w :: rest)

def memberTokens : List (String × Json) → List Token
  | [] => []
  | [m] => .string m.1 :: .colon :: m.2.tokens
  | m :: n :: rest => .string m.1 :: .colon :: (m.2.tokens ++ .comma :: memberTokens (n :: rest))

end

namespace Token

theorem hexValue?_hexDigit : ∀ n < 16, hexValue? (hexDigit n) = some n := by decide

theorem hexValue?_zero : hexValue? '0' = some 0 := by decide

/-- A character that is written as a number is read as that character. -/
theorem escaped?_control {c : Char} (small : c.toNat < 32) (rest : List Char) :
    escaped? ('u' :: '0' :: '0' :: hexDigit (c.toNat / 16) :: hexDigit (c.toNat % 16) :: rest) =
      some (c, rest) := by
  have high := hexValue?_hexDigit (c.toNat / 16) (by omega)
  have low := hexValue?_hexDigit (c.toNat % 16) (by omega)
  have whole : ((0 * 16 + 0) * 16 + c.toNat / 16) * 16 + c.toNat % 16 = c.toNat := by omega
  have four : hex4? ('0' :: '0' :: hexDigit (c.toNat / 16) :: hexDigit (c.toNat % 16) :: rest) =
      some (c.toNat, rest) := by
    simp only [hex4?, hexValue?_zero, high, low, Option.bind_eq_bind, Option.bind_some, whole]
  have unit : c.toNat < 0xD800 ∨ 0xE000 ≤ c.toNat := Or.inl (by omega)
  have one : unicode? ('0' :: '0' :: hexDigit (c.toNat / 16) :: hexDigit (c.toNat % 16) :: rest) =
      some (c, rest) := by
    simp only [unicode?, four, Option.bind_eq_bind, Option.bind_some, if_pos unit, Char.ofNat_toNat]
  exact one

theorem stringBody?_escaped {s rest : List Char} {c : Char} (read : escaped? s = some (c, rest)) :
    stringBody? ('\\' :: s) = (stringBody? rest).map fun p => (c :: p.1, p.2) := by
  rw [stringBody?]
  split
  · rename_i failed
    rw [read] at failed
    cases failed
  · rename_i c' rest' again
    rw [read] at again
    cases again
    rfl

/-- A character inside a string is read back from how it is written. -/
theorem stringBody?_escape (c : Char) (rest : List Char) :
    stringBody? (escape c ++ rest) = (stringBody? rest).map fun p => (c :: p.1, p.2) := by
  unfold escape
  split
  · subst c
    exact stringBody?_escaped rfl
  split
  · subst c
    exact stringBody?_escaped rfl
  split
  · subst c
    exact stringBody?_escaped rfl
  split
  · subst c
    exact stringBody?_escaped rfl
  split
  · subst c
    exact stringBody?_escaped rfl
  split
  · subst c
    exact stringBody?_escaped rfl
  split
  · subst c
    exact stringBody?_escaped rfl
  split
  · rename_i small
    exact stringBody?_escaped (escaped?_control small rest)
  · rename_i quote backslash _ _ _ _ _ large
    rw [List.singleton_append, stringBody?]
    · rw [if_neg large]
    · exact fun same => quote same
    · exact fun same => backslash same

theorem stringBody?_flatMap_escape (cs rest : List Char) :
    stringBody? (cs.flatMap escape ++ '"' :: rest) = some (cs, rest) := by
  induction cs with
  | nil => rw [List.flatMap_nil, List.nil_append, stringBody?]
  | cons c cs ih =>
    rw [List.flatMap_cons, List.append_assoc, stringBody?_escape, ih]
    rfl

/-- What stands at the front is one token, and no space. -/
theorem scan?_of_next? {c : Char} {s rest : List Char} {t : Token} (solid : isSpace c = false)
    (read : next? (c :: s) = some (t, rest)) : scan? (c :: s) = (scan? rest).map (t :: ·) := by
  rw [scan?, if_neg (by simp [solid])]
  split
  · rename_i failed
    rw [read] at failed
    cases failed
  · rename_i t' rest' again
    rw [read] at again
    cases again
    rfl

theorem toList_quote_append (s : String) (rest : List Char) :
    (quote s).toList ++ rest = '"' :: (s.toList.flatMap escape ++ '"' :: rest) := by
  simp [quote]

theorem scan?_quote (s : String) (rest : List Char) :
    scan? ((quote s).toList ++ rest) = (scan? rest).map (.string s :: ·) := by
  rw [toList_quote_append]
  apply scan?_of_next? rfl
  change (stringBody? _).map _ = _
  rw [stringBody?_flatMap_escape]
  simp

end Token

/-- A text that is cut into these tokens, whatever follows it. -/
def Scans (text : String) (ts : List Token) : Prop :=
  ∀ rest, Token.scan? (text.toList ++ rest) = (Token.scan? rest).map (ts ++ ·)

theorem scans_append {a b : String} {ts us : List Token} (first : Scans a ts) (second : Scans b us) :
    Scans (a ++ b) (ts ++ us) := by
  intro rest
  rw [String.toList_append, List.append_assoc, first, second]
  simp [Function.comp_def]

theorem scans_quote (s : String) : Scans (quote s) [.string s] := Token.scan?_quote s

theorem scans_comma : Scans "," [.comma] := fun _ => Token.scan?_of_next? rfl rfl

theorem scans_colon : Scans ":" [.colon] := fun _ => Token.scan?_of_next? rfl rfl

/-- A text between brackets. -/
theorem scans_bracketed {opening closing body : String} {o c : Token} {ts : List Token}
    (first : Scans opening [o]) (inner : Scans body ts) (last : Scans closing [c]) :
    Scans (opening ++ body ++ closing) (o :: (ts ++ [c])) :=
  scans_append (scans_append first inner) last

theorem scans_empty : Scans "" [] := by
  intro rest
  simp

mutual

/-- The compact form of a value is cut into the tokens of the value. -/
theorem scans_compact : (v : Json) → v.isWordy = true → Scans v.compact v.tokens
  | .null, _ => fun _ => Token.scan?_of_next? rfl rfl
  | .bool true, _ => fun _ => Token.scan?_of_next? rfl rfl
  | .bool false, _ => fun _ => Token.scan?_of_next? rfl rfl
  | .string s, _ => scans_quote s
  | .array items, wordy =>
    scans_bracketed (fun _ => Token.scan?_of_next? rfl rfl) (scans_compactItems items wordy)
      fun _ => Token.scan?_of_next? rfl rfl
  | .object members, wordy =>
    scans_bracketed (fun _ => Token.scan?_of_next? rfl rfl) (scans_compactMembers members wordy)
      fun _ => Token.scan?_of_next? rfl rfl

theorem scans_compactItems : (items : List Json) → allWordy items = true →
    Scans (Text.join "," (compactItems items)) (itemTokens items)
  | [], _ => scans_empty
  | [v], wordy => by
    simp only [allWordy, Bool.and_true] at wordy
    exact scans_compact v wordy
  | v :: w :: rest, wordy => by
    obtain ⟨here, later⟩ := Bool.and_eq_true_iff.mp wordy
    have first := scans_append (scans_compact v here) scans_comma
    have both := scans_append first (scans_compactItems (w :: rest) later)
    simpa [compactItems, itemTokens] using both

theorem scans_compactMembers : (members : List (String × Json)) → membersWordy members = true →
    Scans (Text.join "," (compactMembers members)) (memberTokens members)
  | [], _ => scans_empty
  | [(name, v)], wordy => by
    simp only [membersWordy, Bool.and_true] at wordy
    exact scans_append (scans_append (scans_quote name) scans_colon) (scans_compact v wordy)
  | (name, v) :: n :: rest, wordy => by
    obtain ⟨here, later⟩ := Bool.and_eq_true_iff.mp wordy
    have named := scans_append (scans_append (scans_quote name) scans_colon) (scans_compact v here)
    have both := scans_append (scans_append named scans_comma) (scans_compactMembers (n :: rest) later)
    simpa [compactMembers, memberTokens] using both

end

/-- No value starts like the end of a container. -/
theorem tokens_eq_cons (v : Json) : ∃ t ts, v.tokens = t :: ts ∧ t ≠ .closeArray := by
  cases v <;> exact ⟨_, _, by rw [tokens], by simp⟩

theorem memberTokens_eq_cons (name : String) (v : Json) (rest : List (String × Json)) :
    ∃ tail, memberTokens ((name, v) :: rest) = .string name :: .colon :: tail := by
  cases rest with
  | nil => exact ⟨_, by rw [memberTokens]⟩
  | cons n rest => exact ⟨_, by rw [memberTokens]⟩

theorem expect_openArray {stack : List Frame} {t : Token} {ts : List Token} (other : t ≠ .closeArray)
    (room : stack.length < maxDepth) :
    expect stack (.openArray :: t :: ts) = expect (.array [] :: stack) (t :: ts) := by
  rw [expect]
  · rw [if_pos room]
  · intro rest same
    exact other (List.cons.inj same).1

mutual

/-- From the tokens of a value the reader goes on with the value. -/
theorem expect_tokens : (v : Json) → ∀ stack : List Frame, stack.length + v.depth ≤ maxDepth →
    ∀ ts, expect stack (v.tokens ++ ts) = resume v stack ts
  | .null, _, _, ts => by rw [tokens, List.singleton_append, expect]
  | .bool b, _, _, ts => by rw [tokens, List.singleton_append, expect]
  | .number n, _, _, ts => by rw [tokens, List.singleton_append, expect]
  | .string s, _, _, ts => by rw [tokens, List.singleton_append, expect]
  | .array [], stack, room, ts => by
    have inside : stack.length < maxDepth := by
      rw [depth, depthAll] at room
      omega
    rw [tokens, itemTokens, List.nil_append, List.cons_append, List.singleton_append, expect, if_pos inside]
  | .array (v :: rest), stack, room, ts => by
    rw [depth] at room
    have items := expect_items (v :: rest) stack (by simp) (by omega) [] ts
    obtain ⟨t, us, front, other⟩ : ∃ t us, itemTokens (v :: rest) = t :: us ∧ t ≠ .closeArray := by
      obtain ⟨t, us, front, other⟩ := v.tokens_eq_cons
      cases rest with
      | nil => exact ⟨t, us, by rw [itemTokens, front], other⟩
      | cons w rest => exact ⟨t, _, by rw [itemTokens, front, List.cons_append], other⟩
    rw [tokens, List.cons_append, List.append_assoc, List.singleton_append, front, List.cons_append,
      expect_openArray other (by omega)]
    rw [front, List.cons_append] at items
    exact items
  | .object [], stack, room, ts => by
    have inside : stack.length < maxDepth := by
      rw [depth, depthMembers] at room
      omega
    rw [tokens, memberTokens, List.nil_append, List.cons_append, List.singleton_append, expect,
      if_pos inside]
  | .object ((name, v) :: rest), stack, room, ts => by
    rw [depth] at room
    obtain ⟨tail, front⟩ := memberTokens_eq_cons name v rest
    have members := expect_members ((name, v) :: rest) stack (by omega) [] ts front
    have inside : stack.length < maxDepth := by omega
    rw [tokens, List.cons_append, List.append_assoc, List.singleton_append, front, List.cons_append,
      List.cons_append, expect, if_pos inside]
    exact members

/-- The items of an array are put behind those that are there. -/
theorem expect_items : (items : List Json) → ∀ stack : List Frame, items ≠ [] →
    stack.length + 1 + depthAll items ≤ maxDepth → ∀ done ts,
    expect (.array done :: stack) (itemTokens items ++ .closeArray :: ts) =
      resume (.array (done.reverse ++ items)) stack ts
  | [], _, nonempty, _, _, _ => absurd rfl nonempty
  | [v], stack, _, room, done, ts => by
    rw [depthAll] at room
    have here := expect_tokens v (.array done :: stack)
      (by rw [List.length_cons]; omega) (.closeArray :: ts)
    rw [itemTokens, here, resume]
    simp
  | v :: w :: rest, stack, _, room, done, ts => by
    rw [depthAll] at room
    have here := expect_tokens v (.array done :: stack)
      (by rw [List.length_cons]; omega) (.comma :: (itemTokens (w :: rest) ++ .closeArray :: ts))
    have later := expect_items (w :: rest) stack (by simp) (by omega) (v :: done) ts
    rw [itemTokens, List.append_assoc, List.cons_append, here, resume]
    simpa using later

theorem expect_members : (members : List (String × Json)) → ∀ (stack : List Frame) {name : String}
    {tail : List Token}, stack.length + 1 + depthMembers members ≤ maxDepth → ∀ done ts,
    memberTokens members = .string name :: .colon :: tail →
    expect (.object done name :: stack) (tail ++ .closeObject :: ts) =
      resume (.object (done.reverse ++ members)) stack ts
  | [], _, _, _, _, _, _, front => by
    rw [memberTokens] at front
    cases front
  | [(name, v)], stack, _, _, room, done, ts, front => by
    rw [memberTokens] at front
    cases front
    rw [depthMembers] at room
    have here := expect_tokens v (.object done name :: stack)
      (by rw [List.length_cons]; dsimp only at room; omega) (.closeObject :: ts)
    rw [here, resume]
    simp
  | (name, v) :: (name', w) :: rest, stack, _, _, room, done, ts, front => by
    rw [memberTokens] at front
    cases front
    rw [depthMembers] at room
    obtain ⟨tail, next⟩ := memberTokens_eq_cons name' w rest
    have here := expect_tokens v (.object done name :: stack)
      (by rw [List.length_cons]; dsimp only at room; omega)
      (.comma :: (memberTokens ((name', w) :: rest) ++ .closeObject :: ts))
    have later := expect_members ((name', w) :: rest) stack
      (by dsimp only at room; omega) ((name, v) :: done) ts next
    rw [List.append_assoc, List.cons_append, here, next, List.cons_append, List.cons_append, resume]
    simpa using later

end

/-- Reading undoes the compact form of every value without numbers that is not nested too deep. -/
theorem parse?_compact {v : Json} (wordy : v.isWordy = true) (shallow : v.depth ≤ maxDepth) :
    parse? v.compact = some v := by
  have cut := scans_compact v wordy []
  have read := expect_tokens v [] (by simpa using shallow) []
  have ended : Token.scan? [] = some [] := by rw [Token.scan?]
  rw [List.append_nil, ended] at cut
  unfold parse?
  rw [cut, Option.map_some, Option.bind_some, read, resume]
  rfl

end Stencil.Json
