import Microtask.Value

/-!
# Promises

The record of a promise. A pending promise keeps two lists of reactions, one for
each way of settling. `resolved` says that its fate is decided, either because it
has settled or because it adopts another promise, the one it is `following`.
`handled` says that a reaction was ever attached.
-/

namespace Microtask

inductive PromiseState where
  | pending
  | fulfilled (v : Value)
  | rejected (reason : Value)
  deriving DecidableEq, Repr, Inhabited

/-- The two ways of settling. -/
inductive Settling where
  | fulfill
  | reject
  deriving DecidableEq, Repr, Inhabited

/-- What to do once a promise has settled in a given way: call the handler, or
without one pass the settled value on, and settle the capability with the result. -/
structure Reaction where
  kind : Settling
  handler : Option FunctionRef
  capability : Option PromiseRef
  deriving DecidableEq, Repr, Inhabited

structure Promise where
  id : Nat := 0
  state : PromiseState := .pending
  onFulfilled : List Reaction := []
  onRejected : List Reaction := []
  resolved : Bool := false
  handled : Bool := false
  following : Option PromiseRef := none
  deriving DecidableEq, Repr, Inhabited

end Microtask
