import Microtask.Main
import Microtask.Session.Run
import Microtask.Proofs.Combinator.Bookkeeping
import Microtask.Proofs.Combinator.Racing
import Microtask.Proofs.Drain.Limits
import Microtask.Proofs.Drain.Termination
import Microtask.Proofs.Generator.Agreement
import Microtask.Proofs.Generator.Finality
import Microtask.Proofs.Generator.Mirroring
import Microtask.Proofs.Generator.Results
import Microtask.Proofs.Promise.Deferred
import Microtask.Proofs.Promise.Handled
import Microtask.Proofs.Promise.Rejections
import Microtask.Proofs.Script.Forward
import Microtask.Proofs.Script.Outcomes
import Microtask.Proofs.Script.Unwinding
import Microtask.Proofs.Script.Yielding
import Microtask.Proofs.Trace.Transcript
import Microtask.Proofs.Value.Arrays
