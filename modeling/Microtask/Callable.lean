import Microtask.Generator.Basic
import Microtask.Promise.Basic

/-!
# Functions

A function is code of the host or one of the engine's own pieces of code: the
resolving functions of a promise, the callbacks of an adoption, the continuations
of an await, the element callbacks of a combinator, and the callbacks that
`finally` is made of. A function may be limited to a single call.
-/

namespace Microtask

structure TallyRef where
  index : Nat
  deriving DecidableEq, Repr, Inhabited

/-- What a combinator collects. -/
inductive Collection where
  /-- The values of all elements; the first rejection decides. -/
  | all
  /-- A record for each element. -/
  | allSettled
  /-- The reasons of all elements; the first fulfillment decides. -/
  | any
  deriving DecidableEq, Repr, Inhabited

/-- The progress of a combinator: a slot for each element, filled once, and the
number of reports still to come, where the end of the set-up counts as one. -/
structure Tally where
  collection : Collection := .all
  result : PromiseRef := ⟨0⟩
  slots : List (Option Value) := []
  outstanding : Nat := 1
  deriving DecidableEq, Repr, Inhabited

/-- Who goes on when an awaited value has settled. -/
inductive Waiter (H : Type) where
  /-- An async generator that yielded a promise for a request. -/
  | yielding (g : AsyncGeneratorRef) (r : Request)
  /-- An async generator that awaits inside a step for a request. -/
  | awaiting (g : AsyncGeneratorRef) (r : Request)
  /-- An async generator that finishes with a request once its result is there. -/
  | returning (g : AsyncGeneratorRef) (r : Request)
  /-- An async function, with the promise of its result. -/
  | body (g : GeneratorRef) (result : PromiseRef)
  /-- Host code, one piece for each way of settling. -/
  | host (onFulfilled onRejected : H)

inductive Code (H : Type) where
  | host (code : H)
  /-- Resolve the promise with the argument. -/
  | resolve (p : PromiseRef)
  /-- Reject the promise with the argument. -/
  | reject (p : PromiseRef)
  /-- Pass the settlement of an adopted promise on. -/
  | adopt (p : PromiseRef) (kind : Settling)
  /-- Wake a waiter with the settlement of an awaited promise. -/
  | wake (w : Waiter H) (kind : Settling)
  /-- Report how an element of a combinator settled. -/
  | report (t : TallyRef) (i : Nat) (kind : Settling)
  /-- Call back, then wait for the result, then pass the argument on in the way
  in which the promise before had settled. -/
  | afterwards (callback : FunctionRef) (kind : Settling)
  /-- Ignore the argument and return the value, or throw it. -/
  | constant (v : Value) (kind : Settling)

/-- How often a function may be called. -/
inductive Usage where
  | repeatable
  | once
  /-- A function for a single call that has been called. -/
  | spent
  deriving DecidableEq, Repr, Inhabited

structure Callable (H : Type) where
  name : String
  usage : Usage := .repeatable
  code : Code H

instance {H : Type} : Inhabited (Callable H) := ⟨{ name := "", code := .constant .undefined .fulfill }⟩

end Microtask
