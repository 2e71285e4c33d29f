import Microtask.Machine.Op
import Microtask.Trace.Options

/-!
# The trace program

Drive an async generator over the given values: issue a number of requests, drain
the job queue, and print how each request was settled and which rejections nobody
handled. No code of the host is involved, so the machine runs over the empty type.

The options come from a parser, which is a parameter of the program (`runWith`).
Room for the promises of all requests is asked for before the first one, and the
program fails if there are too many for that (`capacity`). Memory has no other
bound.
-/

namespace Microtask.Trace

/-- What a run leaves behind. -/
structure Report where
  exitCode : Nat
  output : String := ""
  errors : String := ""
  deriving DecidableEq, Repr, Inhabited

/-- An engine without host code. -/
abbrev Plain := Engine Empty

/-! ## Preparing -/

/-- A word as a value: a number if it reads as one, else a string. -/
def valueOf (word : String) : Value :=
  match Number.read? word with
  | some n => .number n
  | none => .string word

/-- The values to be yielded, each as a promise if asked for. -/
def prepareValues (e : Plain) (promised : Bool) : List String → List Value × Plain
  | [] => ([], e)
  | word :: rest =>
    let (v, e) :=
      if promised then
        let (p, e) := e.promiseOf (valueOf word)
        (Value.promise p, e)
      else (valueOf word, e)
    let (vs, e) := prepareValues e promised rest
    (v :: vs, e)

/-- The completion of the request with the given index. A throw comes before a
return at the same place. -/
def completionAt (o : Options) (index : Nat) : Completion :=
  if o.throwAt = some index then .throwing (.string "injected")
  else if o.returnAt = some index then .returning (.string "early")
  else .normal .undefined

def label (c : Completion) : String :=
  match c.kind with
  | .normal => "next"
  | .throw => "throw"
  | .return => "return"

/-! ## Running -/

/-- The greatest number of requests for whose promises room can be asked for: a
promise with its label takes 24 bytes, and there are less than `2 ^ 63` bytes in
one piece. -/
def capacity : Nat := 0x7fffffffffffffff / 24

/-- Enough ticks for the machine to answer the host when that many requests have
been issued: every request is served once, in a bounded number of ticks. -/
def tickBound (requests : Nat) : Nat := 32 * (requests + 2)

/-- Issue a request and let the machine answer. -/
def issue (e : Plain) (a : AsyncGeneratorRef) (bound : Nat) (c : Completion) : PromiseRef × Plain :=
  let p : PromiseRef := ⟨e.promises.size⟩
  (p, ((e.request a c (.host .main)).settle bound).engine)

/-- Issue the requests with the given indices. -/
def issueAll (e : Plain) (a : AsyncGeneratorRef) (bound : Nat) (o : Options) :
    List Nat → List (String × PromiseRef) × Plain
  | [] => ([], e)
  | index :: rest =>
    let c := completionAt o index
    let (p, e) := issue e a bound c
    let (issued, e) := issueAll e a bound o rest
    ((label c, p) :: issued, e)

/-- Drain the job queue. -/
def drain (e : Plain) (bound : Nat) : Config Empty := (e.runJobs .main).settle bound

/-! ## Printing -/

/-- How a request stands. -/
def describe (e : Plain) (p : PromiseRef) : String :=
  match (e.promise p).state with
  | .pending => "pending"
  | .fulfilled v =>
    match e.iteratorParts? v with
    | some (w, done) =>
      "\x7b value: " ++ e.text w ++ ", done: " ++ (if done then "true" else "false") ++ " \x7d"
    | none => "fulfilled " ++ e.text v
  | .rejected reason => "rejected " ++ e.text reason

/-- The line of a request. -/
def requestLine (e : Plain) (entry : (String × PromiseRef) × Nat) : String :=
  "#" ++ toString entry.2 ++ " " ++ entry.1.1 ++ " -> " ++ describe e entry.1.2 ++ "\n"

/-- The line of a rejection that nobody handled. -/
def rejectionLine (e : Plain) (reason : Value) : String :=
  "unhandled rejection: " ++ e.text reason ++ "\n"

/-- Run the program with the given options. -/
def run (o : Options) : Report :=
  let e : Plain := { policy := o.unhandled.getD .collect, limit := o.maxJobs }
  let (values, e) := prepareValues e o.promised o.values
  let requests := o.requests.getD (values.length + 1)
  let bound := tickBound requests
  let (a, e) := e.newAsyncGenerator (.values ⟨values⟩)
  if capacity < requests then { exitCode := 101, errors := "capacity overflow\n" }
  else
    let (issued, e) := issueAll e a bound o (List.range requests)
    let after := drain e bound
    let e := after.engine
    match after.control with
    | .host _ (.answered (.drained (.error (.infiniteLoop iterations)))) =>
      { exitCode := 1
        errors := "Error: InfiniteLoopError \x7b iterations: " ++ toString iterations ++ " \x7d\n" }
    | _ =>
      { exitCode := 0
        output := String.join (issued.zipIdx.map (requestLine e)) ++
          String.join (e.reported.map (rejectionLine e)) }

/-! ## Command lines -/

/-- What reads a command line: it finds the options, or ends the program with a
report of its own, be it for help, for the version or for a mistake. -/
abbrev Parser := List String → Except Report Options

/-- Run the program with the given command line, read by the given parser. -/
def runWith (parse : Parser) (args : List String) : Report :=
  match parse args with
  | .ok o => run o
  | .error report => report

/-- The parser that refuses what `Options.read?` cannot read. -/
def Options.parse : Parser := fun args =>
  match Options.read? args with
  | some o => .ok o
  | none => .error { exitCode := 2 }

/-- Run the program with the given command line. -/
def runWithArguments (args : List String) : Report := runWith Options.parse args

end Microtask.Trace
