/-! What the tool tells the author without stopping, and results that carry such notices. Notices are
kept in the order in which they arise, also when the work ends in an error. -/
namespace Stencil

inductive Notice where
  /-- A stylesheet item that is neither a declaration nor a rule. -/
  | cssSkipped (line : Nat) (snippet : String)
  | rollbackFailed (reason : String)
  /-- Markers inside a `style` attribute, which a component cannot bind. -/
  | styleVariablesIgnored (format style template : String)
  /-- A length limit on an input type that has none. -/
  | maxlengthIgnored (inputType : String)
  | conditionNotOpen (format : String)
  | templateFailed (reason : String)
  deriving DecidableEq, Repr

namespace Notice

def isError : Notice → Bool
  | templateFailed _ => true
  | _ => false

def message : Notice → String
  | cssSkipped line snippet =>
    "skipping unparseable CSS at line " ++ toString line ++ ": `" ++ snippet ++ "`"
  | rollbackFailed reason => "failed to roll back attribute mutation: " ++ reason
  | styleVariablesIgnored format style template =>
    format ++ ": ignoring variables in style=\"" ++ style ++ "\" on " ++ template
  | maxlengthIgnored inputType =>
    "input type=" ++ inputType ++ " and maxlength are incompatible, see " ++
      "https://html.spec.whatwg.org/multipage/input.html#do-not-apply"
  | conditionNotOpen format => format ++ ": closing a condition that was never opened"
  | templateFailed reason => reason

end Notice

/-- The notices of some work and how it ended. -/
structure Reported (ε α : Type) where
  notices : List Notice
  outcome : Except ε α

namespace Reported

variable {ε ε' α β : Type}

def ok (a : α) : Reported ε α := ⟨[], .ok a⟩

def error (e : ε) : Reported ε α := ⟨[], .error e⟩

def notify (n : Notice) : Reported ε Unit := ⟨[n], .ok ()⟩

def ofExcept (r : Except ε α) : Reported ε α := ⟨[], r⟩

def bind (r : Reported ε α) (f : α → Reported ε β) : Reported ε β :=
  match r.outcome with
  | .error e => ⟨r.notices, .error e⟩
  | .ok a => ⟨r.notices ++ (f a).notices, (f a).outcome⟩

instance : Monad (Reported ε) where
  pure := ok
  bind := bind

instance : MonadExceptOf ε (Reported ε) where
  throw := error
  tryCatch r f :=
    match r.outcome with
    | .ok _ => r
    | .error e => ⟨r.notices ++ (f e).notices, (f e).outcome⟩

def mapError (f : ε → ε') (r : Reported ε α) : Reported ε' α := ⟨r.notices, r.outcome.mapError f⟩

end Reported

end Stencil
