import Microtask.Frame

/-!
# Generators

The records of generators and async generators. A generator owns a frame while
it is suspended; the frame is away while it runs. An async generator owns a
generator and a queue of requests, each with the promise that answers it.
-/

namespace Microtask

inductive GeneratorState where
  | suspendedStart
  | suspendedYield
  | executing
  | completed
  deriving DecidableEq, Repr, Inhabited

structure Generator (H : Type) where
  id : Nat := 0
  state : GeneratorState := .completed
  frame : Option (Frame H) := none
  deriving Inhabited

/-- A completion that an async generator is asked to process, and the promise
that answers. -/
structure Request where
  completion : Completion
  capability : PromiseRef
  deriving DecidableEq, Repr, Inhabited

inductive AsyncGeneratorState where
  | suspendedStart
  | suspendedYield
  | executing
  | awaitingReturn
  | completed
  deriving DecidableEq, Repr, Inhabited

/-- Whether a request is being served, so that later ones have to wait. -/
def AsyncGeneratorState.isBusy : AsyncGeneratorState → Bool
  | executing | awaitingReturn => true
  | suspendedStart | suspendedYield | completed => false

structure AsyncGenerator where
  id : Nat := 0
  inner : GeneratorRef := ⟨0⟩
  queue : List Request := []
  state : AsyncGeneratorState := .completed
  deriving DecidableEq, Repr, Inhabited

end Microtask
