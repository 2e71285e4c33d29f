import Microtask.Generator.Async
import Microtask.Promise.Combinators

/-!
# The machine

Functions, frames and jobs may run code of the host, and that code may use the
engine again, to any depth. The machine makes this control explicit. A
`Config` is an engine together with what it is doing and, for everything that
waits for that to end, a continuation:

* a `Caller` waits for the result of a function;
* a `Stepper` waits for a frame to stop, and if the frame belongs to a generator,
  a `Purpose` says what the step is for;
* a `Drain` is a loop over the job queue;
* an `Activation` is host code that is running, or waiting for the engine.

`tick` does one bounded piece of work and never calls itself. It leaves a
configuration alone in which host code has the floor.
-/

namespace Microtask

mutual

/-- Who waits for the result of a function. -/
inductive Caller (H : Type) where
  /-- Host code that called it. -/
  | host (h : Activation H)
  /-- The job of a reaction, which settles the capability with it. -/
  | reaction (capability : Option PromiseRef) (d : Drain H)
  /-- The construction of a promise by an executor. -/
  | executor (p : PromiseRef) (h : Activation H)
  /-- The callback of a `finally`, after which a settlement is passed on. -/
  | finalizer (settled : Value) (kind : Settling) (k : Caller H)
  /-- A function that returns undefined whatever happens in it. -/
  | discarding (k : Caller H)

/-- Who waits for a frame to stop. -/
inductive Stepper (H : Type) where
  | host (h : Activation H)
  | generator (g : GeneratorRef) (purpose : Purpose H)

/-- What a step of a generator is for. -/
inductive Purpose (H : Type) where
  /-- The host wants the outcome itself. -/
  | outcome (h : Activation H)
  /-- The host wants an iterator result. -/
  | iterator (h : Activation H)
  /-- An async generator serves a request; when it pauses, the reply is returned. -/
  | serving (a : AsyncGeneratorRef) (r : Request) (reply : Value) (k : Caller H)
  /-- The body of an async function; when it pauses, the reply is returned. -/
  | body (result : PromiseRef) (reply : Value) (k : Caller H)

/-- Running host code, and who waits for it. -/
inductive Activation (H : Type) where
  | main
  | function (k : Caller H)
  | frame (s : Stepper H)
  | job (id : Nat) (d : Drain H)

/-- A loop over the job queue, with the limit it started under and the number of
jobs it has begun. -/
inductive Drain (H : Type) where
  | loop (limit : Option Nat) (executed : Nat) (h : Activation H)

end

/-- The engine's answer to what host code asked for. -/
inductive Answer (H : Type) where
  | done
  | value (result : Except Failure Value)
  /-- The result of a generator step. -/
  | outcome (result : Except EngineError Outcome)
  /-- A frame that the host resumed has stopped. -/
  | stopped (o : Outcome) (f : Frame H)
  /-- A promise with its resolving functions. -/
  | resolving (p : PromiseRef) (onResolve onReject : FunctionRef)
  /-- The number of jobs that a drain ran. -/
  | drained (result : Except EngineError Nat)
  | reasons (vs : List Value)
  | job (j : Option (Nat × Job H))

/-- Why host code has the floor. -/
inductive Prompt (H : Type) where
  /-- From the outside, at the start or after everything was abandoned. -/
  | outside
  | called (code : H) (args : List Value)
  | resumed (code : H) (c : Completion)
  | started (label : String) (code : H)
  | answered (a : Answer H)

/-- What the engine is doing. -/
inductive Control (H : Type) where
  | host (h : Activation H) (prompt : Prompt H)
  | call (f : FunctionRef) (args : List Value) (k : Caller H)
  | deliver (result : Except Failure Value) (k : Caller H)
  | resume (f : Frame H) (c : Completion) (s : Stepper H)
  | run (f : ScriptFrame) (s : Stepper H)
  | serve (a : AsyncGeneratorRef) (reply : Value) (k : Caller H)
  | drain (d : Drain H)

structure Config (H : Type) where
  engine : Engine H
  control : Control H

namespace Engine

variable {H : Type}

/-! ## Generator steps -/

/-- Go on after a step of a generator. -/
def conclude (e : Engine H) (g : GeneratorRef) (result : Except EngineError Outcome) :
    Purpose H → Config H
  | .outcome h => ⟨e, .host h (.answered (.outcome result))⟩
  | .iterator h =>
    let (answer, e) := e.iteratorAnswer g result
    ⟨e, .host h (.answered (.value answer))⟩
  | .serving a r reply k => ⟨e.absorbOutcome a r result, .serve a reply k⟩
  | .body p reply k => ⟨e.absorbBodyOutcome g p result, .deliver (.ok reply) k⟩

/-- Step a generator. -/
def stepGenerator (e : Engine H) (g : GeneratorRef) (c : Completion) (purpose : Purpose H) :
    Config H :=
  match e.beginStep g c with
  | (e, .answered result) => e.conclude g result purpose
  | (e, .running f) => ⟨e, .resume f c (.generator g purpose)⟩

/-- Go on after a frame has stopped. -/
def frameStopped (e : Engine H) (o : Outcome) (f : Frame H) : Stepper H → Config H
  | .host h => ⟨e, .host h (.answered (.stopped o f))⟩
  | .generator g purpose => (e.endStep g f o).conclude g (.ok o) purpose

/-- Go on after some instructions of a script frame. -/
def scriptProgress (e : Engine H) (s : Stepper H) : ScriptFrame.Progress → Config H
  | .running f => ⟨e, .run f s⟩
  | .stopped o f => e.frameStopped o (.script f) s

/-- Resume a frame. -/
def resumeFrame (e : Engine H) (c : Completion) (s : Stepper H) : Frame H → Config H
  | .values f =>
    let (o, f) := f.resume c
    e.frameStopped o (.values f) s
  | .script f => e.scriptProgress s (f.enter c)
  | .host code => ⟨e, .host (.frame s) (.resumed code c)⟩

/-! ## Functions -/

/-- A waiter goes on with the settlement of what it awaited. -/
def wake (e : Engine H) (kind : Settling) (v : Value) (k : Caller H) : Waiter H → Config H
  | .yielding a r =>
    match kind with
    | .fulfill => ⟨e.settleYield a r v, .serve a .undefined k⟩
    | .reject =>
      e.stepGenerator (e.asyncGenerator a).inner (.throwing v) (.serving a r .undefined k)
  | .awaiting a r =>
    let c := match kind with
      | .fulfill => Completion.normal v
      | .reject => Completion.throwing v
    e.stepGenerator (e.asyncGenerator a).inner c (.serving a r .undefined k)
  | .returning a r =>
    match kind with
    | .fulfill => ⟨e.completeWith a r v, .serve a .undefined k⟩
    | .reject => ⟨e.failWith a r v, .serve a .undefined k⟩
  | .body g p =>
    let c := match kind with
      | .fulfill => Completion.normal v
      | .reject => Completion.throwing v
    e.stepGenerator g c (.body p .undefined k)
  | .host onFulfilled onRejected =>
    let code := match kind with
      | .fulfill => onFulfilled
      | .reject => onRejected
    ⟨e, .host (.function (.discarding k)) (.called code [v])⟩

/-- Run a piece of code. -/
def runCode (e : Engine H) (args : List Value) (k : Caller H) : Code H → Config H
  | .host code => ⟨e, .host (.function k) (.called code args)⟩
  | .resolve p => ⟨e.resolve p (Value.argument args 0), .deliver (.ok .undefined) k⟩
  | .reject p => ⟨e.reject p (Value.argument args 0), .deliver (.ok .undefined) k⟩
  | .adopt p kind =>
    let v := Value.argument args 0
    let e := match kind with
      | .fulfill => e.resolveNow p v
      | .reject => e.rejectNow p v
    ⟨e, .deliver (.ok .undefined) k⟩
  | .wake w kind => e.wake kind (Value.argument args 0) k w
  | .report t i kind => ⟨e.report t i kind (Value.argument args 0), .deliver (.ok .undefined) k⟩
  | .afterwards callback kind =>
    ⟨e, .call callback [] (.finalizer (Value.argument args 0) kind k)⟩
  | .constant v kind =>
    match kind with
    | .fulfill => ⟨e, .deliver (.ok v) k⟩
    | .reject => ⟨e, .deliver (.error (.thrown v)) k⟩

/-- Call a function. One for a single call gets a single argument, and later
calls return undefined. -/
def callFunction (e : Engine H) (f : FunctionRef) (args : List Value) (k : Caller H) : Config H :=
  let callable := e.callable f
  match callable.usage with
  | .repeatable => e.runCode args k callable.code
  | .once => (e.spend f).runCode [Value.argument args 0] k callable.code
  | .spent => ⟨e, .deliver (.ok .undefined) k⟩

/-- Settle the capability of a reaction with the result of its handler. -/
def settleCapability (e : Engine H) (capability : Option PromiseRef)
    (result : Except Failure Value) : Engine H :=
  match capability, result with
  | some p, .ok v => e.resolve p v
  | some p, .error failure =>
    let (reason, e) := e.failureValue failure
    e.reject p reason
  | none, _ => e

/-- Deliver the result of a function. -/
def deliver (e : Engine H) (result : Except Failure Value) : Caller H → Config H
  | .host h => ⟨e, .host h (.answered (.value result))⟩
  | .reaction capability d => ⟨e.settleCapability capability result, .drain d⟩
  | .executor p h =>
    let e := match result with
      | .ok _ => e
      | .error failure =>
        let (reason, e) := e.failureValue failure
        e.reject p reason
    ⟨e, .host h (.answered (.value (.ok (.promise p))))⟩
  | .finalizer settled kind k =>
    match result with
    | .ok returned =>
      let (p, e) := e.passAfter returned settled kind
      ⟨e, .deliver (.ok (.promise p)) k⟩
    | .error failure => ⟨e, .deliver (.error failure) k⟩
  | .discarding k => ⟨e, .deliver (.ok .undefined) k⟩

/-! ## Async generators -/

/-- Serve the requests of an async generator until it pauses. -/
def serve (e : Engine H) (a : AsyncGeneratorRef) (reply : Value) (k : Caller H) : Config H :=
  match e.takeRequest a with
  | (e, .idle) => ⟨e, .deliver (.ok reply) k⟩
  | (e, .answered) => ⟨e, .serve a reply k⟩
  | (e, .resume inner r) => e.stepGenerator inner r.completion (.serving a r reply k)

/-! ## Jobs -/

/-- Run a job. -/
def runJob (e : Engine H) (id : Nat) (d : Drain H) : Job H → Config H
  | .reaction r v =>
    match r.handler with
    | some f => ⟨e, .call f [v] (.reaction r.capability d)⟩
    | none =>
      match r.capability with
      | some p => ⟨e.settle p r.kind v, .drain d⟩
      | none => ⟨e, .drain d⟩
  | .adoption p thenable => ⟨e.attachAdoption p thenable, .drain d⟩
  | .callback label code => ⟨e, .host (.job id d) (.started label code)⟩

/-- Whether a drain has to stop although jobs wait. -/
def limitReached (e : Engine H) (limit : Option Nat) (executed : Nat) : Bool :=
  match limit with
  | some n => decide (n ≤ executed) && !e.jobs.isEmpty
  | none => false

/-- One round of a drain: stop at the limit, run the next job, or end and report
the rejections that nobody handled. -/
def drainRound (e : Engine H) : Drain H → Config H
  | .loop limit executed h =>
    if e.limitReached limit executed then
      ⟨{ e with draining := false }, .host h (.answered (.drained (.error (.infiniteLoop executed))))⟩
    else
      match e.jobs.pop? with
      | some ((id, job), jobs) => { e with jobs }.runJob id (.loop limit (executed + 1) h) job
      | none =>
        ⟨{ e with draining := false }.reportUnhandled, .host h (.answered (.drained (.ok executed)))⟩

/-- Go on after a job of the host. Its failure is only a warning. -/
def jobEnded (e : Engine H) (id : Nat) (d : Drain H) (result : Except EngineError Unit) : Config H :=
  match result with
  | .ok () => ⟨e, .drain d⟩
  | .error error =>
    ⟨e.warn ("run_jobs: job id=" ++ toString id ++ " failed: " ++ e.displayError error), .drain d⟩

end Engine

namespace Config

variable {H : Type}

/-- One bounded piece of the engine's work. -/
def tick (c : Config H) : Config H :=
  match c.control with
  | .host _ _ => c
  | .call f args k => c.engine.callFunction f args k
  | .deliver result k => c.engine.deliver result k
  | .resume f x s => c.engine.resumeFrame x s f
  | .run f s => c.engine.scriptProgress s f.step
  | .serve a reply k => c.engine.serve a reply k
  | .drain d => c.engine.drainRound d

/-- Whether host code has the floor. -/
def atHost (c : Config H) : Bool :=
  match c.control with
  | .host _ _ => true
  | _ => false

/-- Work until host code has the floor, for at most the given number of ticks. -/
def settle : Nat → Config H → Config H
  | 0, c => c
  | n + 1, c => if c.atHost then c else settle n c.tick

/-- Abandon everything that is under way. A drain that is abandoned no longer
blocks the next one. -/
def abandon (e : Engine H) : Config H := ⟨{ e with draining := false }, .host .main .outside⟩

end Config

end Microtask
