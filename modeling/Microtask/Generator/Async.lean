import Microtask.Generator.Step
import Microtask.Promise.Then

/-!
# Async generators and async functions

An async generator serves its requests strictly in order. `takeRequest` takes
the next one off the queue and says how it is served: the requests that need no
step of the generator inside are answered by the state alone, all others resume
the generator, and `absorbOutcome` turns the result of that step into the new
state, the answer, or a wait. An async function is a generator whose suspensions
all are awaits and whose result settles a promise.
-/

namespace Microtask

/-- How the next request is served. -/
inductive Service where
  /-- There is none, or the one in flight comes first. -/
  | idle
  /-- The state alone answered it. -/
  | answered
  /-- The generator inside has to be resumed. -/
  | resume (inner : GeneratorRef) (r : Request)

namespace Engine

variable {H : Type}

def setAsyncState (e : Engine H) (g : AsyncGeneratorRef) (s : AsyncGeneratorState) : Engine H :=
  e.modifyAsyncGenerator g fun r => { r with state := s }

/-! ## Answers -/

/-- Answer a request with an iterator result. -/
def answerRequest (e : Engine H) (r : Request) (v : Value) (done : Bool) : Engine H :=
  let (result, e) := e.newIteratorResult v done
  e.resolve r.capability result

/-- Answer a request and wait for the next one. -/
def settleYield (e : Engine H) (g : AsyncGeneratorRef) (r : Request) (v : Value) : Engine H :=
  (e.setAsyncState g .suspendedYield).answerRequest r v false

/-- Answer a request with the final result. -/
def completeWith (e : Engine H) (g : AsyncGeneratorRef) (r : Request) (v : Value) : Engine H :=
  (e.setAsyncState g .completed).answerRequest r v true

/-- Reject a request; the generator is done. -/
def failWith (e : Engine H) (g : AsyncGeneratorRef) (r : Request) (reason : Value) : Engine H :=
  (e.setAsyncState g .completed).reject r.capability reason

/-- Wait for the final result. -/
def awaitReturn (e : Engine H) (g : AsyncGeneratorRef) (r : Request) (v : Value) : Engine H :=
  (e.setAsyncState g .awaitingReturn).await v (.returning g r)

/-! ## Requests -/

/-- Append a request; its promise is the answer. -/
def addRequest (e : Engine H) (g : AsyncGeneratorRef) (c : Completion) : PromiseRef × Engine H :=
  let (capability, e) := e.newPromise
  (capability, e.modifyAsyncGenerator g fun r => { r with queue := r.queue ++ [⟨c, capability⟩] })

/-- Take the next request off the queue and serve it as far as the state alone
allows. -/
def takeRequest (e : Engine H) (g : AsyncGeneratorRef) : Engine H × Service :=
  let before := e.asyncGenerator g
  if before.state.isBusy then (e, .idle)
  else
    match before.queue with
    | [] => (e, .idle)
    | r :: rest =>
      let e := e.modifyAsyncGenerator g fun a => { a with queue := rest }
      match before.state, r.completion.kind with
      | .completed, _ => (e.answerRequest r .undefined true, .answered)
      | .suspendedStart, .throw =>
        ((e.closeGenerator before.inner).failWith g r r.completion.value, .answered)
      | .suspendedStart, .return =>
        ((e.closeGenerator before.inner).awaitReturn g r r.completion.value, .answered)
      | _, _ => (e.setAsyncState g .executing, .resume before.inner r)

/-- What becomes of a request after a step on its behalf. -/
def absorbOutcome (e : Engine H) (g : AsyncGeneratorRef) (r : Request) :
    Except EngineError Outcome → Engine H
  | .ok (.yielded (.promise p)) => e.await (.promise p) (.yielding g r)
  | .ok (.yielded v) => e.settleYield g r v
  | .ok (.awaiting v) => e.await v (.awaiting g r)
  | .ok (.returned (.promise p)) => e.awaitReturn g r (.promise p)
  | .ok (.returned v) => e.completeWith g r v
  | .ok (.threw reason) => e.failWith g r reason
  | .error error =>
    let e := e.setAsyncState g .completed
    let (reason, e) := e.errorValue error
    e.reject r.capability reason

/-! ## Async functions -/

/-- What becomes of an async function after a step: another wait, or its result. -/
def absorbBodyOutcome (e : Engine H) (g : GeneratorRef) (result : PromiseRef) :
    Except EngineError Outcome → Engine H
  | .ok (.awaiting v) | .ok (.yielded v) => e.await v (.body g result)
  | .ok (.returned v) => e.resolve result v
  | .ok (.threw reason) => e.reject result reason
  | .error error =>
    let (reason, e) := e.errorValue error
    e.reject result reason

end Engine

end Microtask
