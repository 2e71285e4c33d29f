import Microtask.Completion

/-!
# Frames over a list of values

A frame that yields the values of a list in order and then returns undefined. An
abrupt completion finishes it at once.
-/

namespace Microtask

/-- The values that are still to be yielded. -/
structure ValuesFrame where
  remaining : List Value
  deriving DecidableEq, Repr, Inhabited

namespace ValuesFrame

def resume (f : ValuesFrame) (c : Completion) : Outcome × ValuesFrame :=
  match c.kind with
  | .normal =>
    match f.remaining with
    | v :: rest => (.yielded v, ⟨rest⟩)
    | [] => (.returned .undefined, f)
  | .throw => (.threw c.value, ⟨[]⟩)
  | .return => (.returned c.value, ⟨[]⟩)

end ValuesFrame

end Microtask
