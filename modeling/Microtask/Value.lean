import Microtask.Number.Basic

/-!
# Values

The values that scripts exchange. Undefined, null, booleans, numbers and strings
are data. Objects, functions, promises, generators and async generators live in
the engine's stores, and a value holds only a reference to one, so equality of
references is identity.
-/

namespace Microtask

/-! ## References -/

structure ObjectRef where
  index : Nat
  deriving DecidableEq, Repr, Inhabited

structure FunctionRef where
  index : Nat
  deriving DecidableEq, Repr, Inhabited

structure PromiseRef where
  index : Nat
  deriving DecidableEq, Repr, Inhabited

structure GeneratorRef where
  index : Nat
  deriving DecidableEq, Repr, Inhabited

structure AsyncGeneratorRef where
  index : Nat
  deriving DecidableEq, Repr, Inhabited

/-! ## Values -/

inductive Value where
  | undefined
  | null
  | boolean (b : Bool)
  | number (n : Number)
  | string (s : String)
  | object (o : ObjectRef)
  | function (f : FunctionRef)
  | promise (p : PromiseRef)
  | generator (g : GeneratorRef)
  | asyncGenerator (g : AsyncGeneratorRef)
  deriving DecidableEq, Repr, Inhabited

namespace Value

/-- Equality as scripts see it: numbers by their numeric value, so that a NaN
differs from itself, everything else by data or identity. -/
def same : Value → Value → Bool
  | number m, number n => m.equal n
  | v, w => decide (v = w)

/-- The function that a value is, if it is one. -/
def asFunction? : Value → Option FunctionRef
  | function f => some f
  | _ => none

/-- The promise that a value is, if it is one. -/
def asPromise? : Value → Option PromiseRef
  | promise p => some p
  | _ => none

/-- The sum of two numbers; anything else has no sum. -/
def add : Value → Value → Value
  | number m, number n => number (m.add n)
  | _, _ => undefined

/-- The argument at a position; a missing one is undefined. -/
def argument (args : List Value) (i : Nat) : Value := args.getD i undefined

end Value

end Microtask
