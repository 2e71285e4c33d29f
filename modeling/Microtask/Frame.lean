import Microtask.Frame.Values
import Microtask.Frame.Script

/-!
# Frames

A paused computation that can be resumed with a completion: a list of values, a
script, or code of the host, of which the engine keeps only a token of type `H`.
-/

namespace Microtask

inductive Frame (H : Type) where
  | values (f : ValuesFrame)
  | script (f : ScriptFrame)
  | host (code : H)
  deriving Inhabited

end Microtask
