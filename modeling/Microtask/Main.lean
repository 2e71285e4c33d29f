import Microtask.Trace.Run

/-!
# The command line

`main` reads the arguments, runs the trace program and prints its report.
-/

/-- Print how an async generator over the arguments serves its requests. -/
def main (args : List String) : IO UInt32 := do
  let report := Microtask.Trace.runWithArguments args
  IO.print report.output
  IO.eprint report.errors
  if report.exitCode = 2 then
    IO.eprintln "usage: [-n N] [--promised] [--throw-at N] [--return-at N] [--max-jobs N] [--unhandled ignore|warn|collect] [values]..."
  return UInt32.ofNat report.exitCode
