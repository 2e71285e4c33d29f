import Microtask.Machine

/-!
# Operations of the host

What host code may ask of the engine. `perform` carries an operation out for an
activation: most are answered at once, and those that call a function, resume a
frame, serve requests or drain the queue hand control to the machine. A host
answers the machine in turn through `finishCall`, `finishFrame`, `finishJob`,
each of which ends one activation.
-/

namespace Microtask

inductive Op (H : Type) where
  -- objects and functions
  | newObject (o : Object)
  | setProperty (o : ObjectRef) (key : String) (v : Value)
  | newFunction (name : String) (usage : Usage) (code : H)
  | call (f : FunctionRef) (args : List Value)
  -- frames and generators
  | resumeFrame (f : Frame H) (c : Completion)
  | newGenerator (f : Frame H)
  | stepGenerator (g : GeneratorRef) (c : Completion)
  | advanceGenerator (g : GeneratorRef) (c : Completion)
  | closeGenerator (g : GeneratorRef)
  | dropFrame (g : GeneratorRef)
  | generatorMethod (receiver : Value) (method : String) (args : List Value)
  -- async generators and async functions
  | newAsyncGenerator (f : Frame H)
  | request (a : AsyncGeneratorRef) (c : Completion)
  | asyncGeneratorMethod (receiver : Value) (method : String) (args : List Value)
  | startAsync (f : Frame H)
  -- promises
  | newPromise
  | resolve (p : PromiseRef) (v : Value)
  | fulfill (p : PromiseRef) (v : Value)
  | reject (p : PromiseRef) (reason : Value)
  | promiseOf (v : Value)
  | rejectedPromise (reason : Value)
  | newCapability
  | resolvingFunctions (p : PromiseRef)
  | construct (executor : FunctionRef)
  | promiseThen (p : PromiseRef) (onFulfilled onRejected : Option FunctionRef)
  | promiseCatch (p : PromiseRef) (onRejected : Option FunctionRef)
  | promiseFinally (p : PromiseRef) (callback : Option FunctionRef)
  | performThen (p : PromiseRef) (onFulfilled onRejected : Option FunctionRef)
      (capability : Option PromiseRef)
  | collect (c : Collection) (items : List Value)
  | race (items : List Value)
  | promiseMethod (receiver : Value) (method : String) (args : List Value)
  | promiseFunction (method : String) (args : List Value)
  | await (v : Value) (onFulfilled onRejected : H)
  -- unhandled rejections
  | setPolicy (policy : RejectionPolicy)
  | takeReported
  -- jobs
  | enqueue (j : Job H)
  | runJobs
  | setLimit (limit : Option Nat)
  | clearJobs
  | popJob
  | reset

namespace Engine

variable {H : Type}

/-! ## Methods by name -/

/-- The completion that a generator method delivers. -/
def methodCompletion? (method : String) (v : Value) : Option Completion :=
  match method with
  | "next" => some (.normal v)
  | "return" => some (.returning v)
  | "throw" => some (.throwing v)
  | _ => none

/-- The function at a position among arguments, if there is one. -/
def functionArgument (args : List Value) (i : Nat) : Option FunctionRef :=
  (Value.argument args i).asFunction?

/-- A method of promises. -/
def promiseMethod (e : Engine H) (receiver : Value) (method : String) (args : List Value) :
    Except EngineError PromiseRef × Engine H :=
  match receiver with
  | .promise p =>
    match method with
    | "then" =>
      let (q, e) := e.promiseThen p (functionArgument args 0) (functionArgument args 1)
      (.ok q, e)
    | "catch" =>
      let (q, e) := e.promiseCatch p (functionArgument args 0)
      (.ok q, e)
    | "finally" =>
      let (q, e) := e.promiseFinally p (functionArgument args 0)
      (.ok q, e)
    | _ => (.error (.notAFunction "Promise.prototype" method), e)
  | _ => (.error (.wrongReceiver "Promise" method), e)

/-- A function of the promise constructor. Combinators take an array. -/
def promiseFunction (e : Engine H) (method : String) (args : List Value) :
    Except EngineError PromiseRef × Engine H :=
  let first := Value.argument args 0
  let combine (make : List Value → PromiseRef × Engine H) : Except EngineError PromiseRef × Engine H :=
    match e.elements? first with
    | some items =>
      let (p, e) := make items
      (.ok p, e)
    | none => (.error (.expectsArray "Promise" method), e)
  match method with
  | "resolve" =>
    let (p, e) := e.promiseOf first
    (.ok p, e)
  | "reject" =>
    let (p, e) := e.rejectedPromise first
    (.ok p, e)
  | "all" => combine (e.collect .all)
  | "allSettled" => combine (e.collect .allSettled)
  | "race" => combine e.race
  | "any" => combine (e.collect .any)
  | _ => (.error (.notAFunction "Promise" method), e)

/-! ## Starting something -/

/-- Add a request to an async generator and serve it if nothing is in flight. -/
def request (e : Engine H) (a : AsyncGeneratorRef) (c : Completion) (k : Caller H) : Config H :=
  let (p, e) := e.addRequest a c
  ⟨e, .serve a (.promise p) k⟩

/-- Start an async function over a frame. It runs up to its first wait. -/
def startAsync (e : Engine H) (f : Frame H) (k : Caller H) : Config H :=
  let (result, e) := e.newPromise
  let (g, e) := e.newGenerator f
  e.stepGenerator g (.normal .undefined) (.body result (.promise result) k)

/-- Construct a promise by an executor, which gets the resolving functions. -/
def construct (e : Engine H) (executor : FunctionRef) (h : Activation H) : Config H :=
  let (p, e) := e.newPromise
  let ((onResolve, onReject), e) := e.resolvingFunctions p
  ⟨e, .call executor [.function onResolve, .function onReject] (.executor p h)⟩

/-- Begin a drain. One that begins inside another does nothing. -/
def runJobs (e : Engine H) (h : Activation H) : Config H :=
  if e.draining then ⟨e, .host h (.answered (.drained (.ok 0)))⟩
  else ⟨{ e with draining := true }, .drain (.loop e.limit 0 h)⟩

/-- Forget jobs, limit and rejections; the policy is the default again. -/
def reset (e : Engine H) : Engine H :=
  { e with
    jobs := e.jobs.clear
    limit := none
    unhandled := []
    reported := []
    policy := .collect }

/-! ## Carrying operations out -/

/-- Give the answer to an activation at once. -/
def reply (e : Engine H) (h : Activation H) (a : Answer H) : Config H := ⟨e, .host h (.answered a)⟩

/-- Answer with a value. -/
def replyValue (e : Engine H) (h : Activation H) (v : Value) : Config H :=
  e.reply h (.value (.ok v))

/-- Answer with a promise or an error. -/
def replyPromise (e : Engine H) (h : Activation H) (result : Except EngineError PromiseRef) :
    Config H :=
  e.reply h (.value (match result with
    | .ok p => .ok (.promise p)
    | .error error => .error (.engine error)))

/-- Carry an operation out for an activation. -/
def perform (e : Engine H) (h : Activation H) : Op H → Config H
  | .newObject o =>
    let (v, e) := e.newObject o
    e.replyValue h v
  | .setProperty o key v => (e.setProperty o key v).replyValue h (.object o)
  | .newFunction name usage code =>
    let (f, e) := e.newFunction ⟨name, usage, .host code⟩
    e.replyValue h (.function f)
  | .call f args => ⟨e, .call f args (.host h)⟩
  | .resumeFrame f c => ⟨e, .resume f c (.host h)⟩
  | .newGenerator f =>
    let (g, e) := e.newGenerator f
    e.replyValue h (.generator g)
  | .stepGenerator g c => e.stepGenerator g c (.outcome h)
  | .advanceGenerator g c => e.stepGenerator g c (.iterator h)
  | .closeGenerator g => (e.closeGenerator g).reply h .done
  | .dropFrame g => (e.dropFrame g).reply h .done
  | .generatorMethod receiver method args =>
    match receiver, methodCompletion? method (Value.argument args 0) with
    | .generator g, some c => e.stepGenerator g c (.iterator h)
    | .generator _, none =>
      e.reply h (.value (.error (.engine (.notAFunction "Generator.prototype" method))))
    | _, _ => e.reply h (.value (.error (.engine (.wrongReceiver "Generator" method))))
  | .newAsyncGenerator f =>
    let (a, e) := e.newAsyncGenerator f
    e.replyValue h (.asyncGenerator a)
  | .request a c => e.request a c (.host h)
  | .asyncGeneratorMethod receiver method args =>
    match receiver, methodCompletion? method (Value.argument args 0) with
    | .asyncGenerator a, some c => e.request a c (.host h)
    | .asyncGenerator _, none =>
      e.reply h (.value (.error (.engine (.notAFunction "AsyncGenerator.prototype" method))))
    | _, _ => e.reply h (.value (.error (.engine (.wrongReceiver "AsyncGenerator" method))))
  | .startAsync f => e.startAsync f (.host h)
  | .newPromise =>
    let (p, e) := e.newPromise
    e.replyValue h (.promise p)
  | .resolve p v => (e.resolve p v).reply h .done
  | .fulfill p v => (e.fulfill p v).reply h .done
  | .reject p reason => (e.reject p reason).reply h .done
  | .promiseOf v =>
    let (p, e) := e.promiseOf v
    e.replyValue h (.promise p)
  | .rejectedPromise reason =>
    let (p, e) := e.rejectedPromise reason
    e.replyValue h (.promise p)
  | .newCapability =>
    let (p, e) := e.newPromise
    let ((onResolve, onReject), e) := e.resolvingFunctions p
    e.reply h (.resolving p onResolve onReject)
  | .resolvingFunctions p =>
    let ((onResolve, onReject), e) := e.resolvingFunctions p
    e.reply h (.resolving p onResolve onReject)
  | .construct executor => e.construct executor h
  | .promiseThen p onFulfilled onRejected =>
    let (q, e) := e.promiseThen p onFulfilled onRejected
    e.replyValue h (.promise q)
  | .promiseCatch p onRejected =>
    let (q, e) := e.promiseCatch p onRejected
    e.replyValue h (.promise q)
  | .promiseFinally p callback =>
    let (q, e) := e.promiseFinally p callback
    e.replyValue h (.promise q)
  | .performThen p onFulfilled onRejected capability =>
    (e.performThen p onFulfilled onRejected capability).reply h .done
  | .collect c items =>
    let (p, e) := e.collect c items
    e.replyValue h (.promise p)
  | .race items =>
    let (p, e) := e.race items
    e.replyValue h (.promise p)
  | .promiseMethod receiver method args =>
    let (result, e) := e.promiseMethod receiver method args
    e.replyPromise h result
  | .promiseFunction method args =>
    let (result, e) := e.promiseFunction method args
    e.replyPromise h result
  | .await v onFulfilled onRejected => (e.await v (.host onFulfilled onRejected)).reply h .done
  | .setPolicy policy => { e with policy }.reply h .done
  | .takeReported =>
    let (vs, e) := e.takeReported
    e.reply h (.reasons vs)
  | .enqueue j => (e.enqueue j).reply h .done
  | .runJobs => e.runJobs h
  | .setLimit limit => { e with limit }.reply h .done
  | .clearJobs => { e with jobs := e.jobs.clear }.reply h .done
  | .popJob =>
    match e.jobs.pop? with
    | some (job, jobs) => { e with jobs }.reply h (.job (some job))
    | none => e.reply h (.job none)
  | .reset => e.reset.reply h .done

/-! ## Ending an activation -/

/-- Return from a function of the host. -/
def finishCall (e : Engine H) (result : Except Failure Value) (k : Caller H) : Config H :=
  ⟨e, .deliver result k⟩

/-- Stop in a frame of the host, which goes on with the given code. -/
def finishFrame (e : Engine H) (o : Outcome) (code : H) (s : Stepper H) : Config H :=
  e.frameStopped o (.host code) s

/-- End a job of the host. -/
def finishJob (e : Engine H) (id : Nat) (d : Drain H) (result : Except EngineError Unit) : Config H :=
  e.jobEnded id d result

end Engine

end Microtask
