import Microtask.Value

/-!
# Completions and outcomes

What crosses the boundary of a suspended computation: a `Completion` goes in
when it is resumed, and an `Outcome` comes out when it stops again.
-/

namespace Microtask

/-- How a computation is resumed. -/
inductive CompletionKind where
  | normal
  | throw
  | «return»
  deriving DecidableEq, Repr, Inhabited

/-- A value together with the way in which it is delivered. -/
structure Completion where
  kind : CompletionKind
  value : Value
  deriving DecidableEq, Repr, Inhabited

namespace Completion

def normal (v : Value) : Completion := ⟨.normal, v⟩

def throwing (v : Value) : Completion := ⟨.throw, v⟩

def returning (v : Value) : Completion := ⟨.return, v⟩

/-- Whether the completion leaves the place where the computation is suspended. -/
def isAbrupt (c : Completion) : Bool := c.kind != .normal

end Completion

/-- How a resumed computation stops. -/
inductive Outcome where
  /-- Suspended at a yield. -/
  | yielded (v : Value)
  /-- Suspended until a value has been awaited. -/
  | awaiting (v : Value)
  /-- Finished with a result. -/
  | returned (v : Value)
  /-- Finished with an exception that nothing inside caught. -/
  | threw (v : Value)
  deriving DecidableEq, Repr, Inhabited

namespace Outcome

/-- Whether the computation cannot be resumed again. -/
def isFinished : Outcome → Bool
  | returned _ | threw _ => true
  | yielded _ | awaiting _ => false

def value : Outcome → Value
  | yielded v | awaiting v | returned v | threw v => v

/-- The outcome of a finished computation, or of one that never starts, that
receives a completion: there is nothing left to intercept it. -/
def ofCompletion (c : Completion) : Outcome :=
  match c.kind with
  | .throw => threw c.value
  | .normal | .return => returned c.value

end Outcome

end Microtask
