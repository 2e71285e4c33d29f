import Microtask.Promise.Settle

/-!
# Attaching reactions

`performThen` attaches one reaction for each way of settling; on a promise that
has settled the matching one is queued at once, and never run. `then`, `catch`
and `finally` answer with a new promise for the result. `await` hands the
settlement of a value to a waiter.
-/

namespace Microtask.Engine

variable {H : Type}

/-! ## Reactions -/

/-- Attach handlers to a promise, and a promise that gets their result. -/
def performThen (e : Engine H) (p : PromiseRef) (onFulfilled onRejected : Option FunctionRef)
    (capability : Option PromiseRef) : Engine H :=
  let fulfillment : Reaction := ⟨.fulfill, onFulfilled, capability⟩
  let rejection : Reaction := ⟨.reject, onRejected, capability⟩
  let before := e.promise p
  match before.state with
  | .pending =>
    e.modifyPromise p fun r =>
      { r with
        handled := true
        onFulfilled := r.onFulfilled ++ [fulfillment]
        onRejected := r.onRejected ++ [rejection] }
  | .fulfilled v =>
    (e.modifyPromise p fun r => { r with handled := true }).enqueue (.reaction fulfillment v)
  | .rejected reason =>
    let e := e.modifyPromise p fun r => { r with handled := true }
    let e := if before.handled then e else e.untrackUnhandled before.id
    e.enqueue (.reaction rejection reason)

/-- Attach to the promise that another one adopts: its settlement is passed on. -/
def attachAdoption (e : Engine H) (p thenable : PromiseRef) : Engine H :=
  let (onFulfilled, e) := e.newFunction ⟨"resolve", .once, .adopt p .fulfill⟩
  let (onRejected, e) := e.newFunction ⟨"reject", .once, .adopt p .reject⟩
  e.performThen thenable (some onFulfilled) (some onRejected) none

/-! ## Derived promises -/

/-- The promise of what the handlers make of a settlement. A missing handler
passes the settlement on. -/
def promiseThen (e : Engine H) (p : PromiseRef) (onFulfilled onRejected : Option FunctionRef) :
    PromiseRef × Engine H :=
  let (derived, e) := e.newPromise
  (derived, e.performThen p onFulfilled onRejected (some derived))

def promiseCatch (e : Engine H) (p : PromiseRef) (onRejected : Option FunctionRef) :
    PromiseRef × Engine H :=
  e.promiseThen p none onRejected

/-- Call back on either settlement and pass it on afterwards. -/
def promiseFinally (e : Engine H) (p : PromiseRef) (callback : Option FunctionRef) :
    PromiseRef × Engine H :=
  match callback with
  | none => e.promiseThen p none none
  | some f =>
    let (onFulfilled, e) := e.newFunction ⟨"thenFinally", .repeatable, .afterwards f .fulfill⟩
    let (onRejected, e) := e.newFunction ⟨"catchFinally", .repeatable, .afterwards f .reject⟩
    e.promiseThen p (some onFulfilled) (some onRejected)

/-! ## Promises of values -/

/-- A promise is its own promise; any other value gets a promise fulfilled with it. -/
def promiseOf (e : Engine H) (v : Value) : PromiseRef × Engine H :=
  match v with
  | .promise p => (p, e)
  | v =>
    let (p, e) := e.newPromise
    (p, e.resolve p v)

/-- A new promise rejected with the reason. -/
def rejectedPromise (e : Engine H) (reason : Value) : PromiseRef × Engine H :=
  let (p, e) := e.newPromise
  (p, e.reject p reason)

/-- The functions that resolve and reject a promise. -/
def resolvingFunctions (e : Engine H) (p : PromiseRef) :
    (FunctionRef × FunctionRef) × Engine H :=
  let (onResolve, e) := e.newFunction ⟨"resolve", .repeatable, .resolve p⟩
  let (onReject, e) := e.newFunction ⟨"reject", .repeatable, .reject p⟩
  ((onResolve, onReject), e)

/-! ## Waiting -/

/-- Hand the settlement of a value to a waiter, in a later job. -/
def await (e : Engine H) (v : Value) (w : Waiter H) : Engine H :=
  let (p, e) := e.promiseOf v
  let (onFulfilled, e) := e.newFunction ⟨"awaitFulfilled", .once, .wake w .fulfill⟩
  let (onRejected, e) := e.newFunction ⟨"awaitRejected", .once, .wake w .reject⟩
  e.performThen p (some onFulfilled) (some onRejected) none

/-- Pass a settlement on after what a `finally` callback returned has been
waited for. -/
def passAfter (e : Engine H) (returned settled : Value) (kind : Settling) :
    PromiseRef × Engine H :=
  let (waited, e) := e.promiseOf returned
  let name := match kind with
    | .fulfill => "valueThunk"
    | .reject => "thrower"
  let (handler, e) := e.newFunction ⟨name, .repeatable, .constant settled kind⟩
  e.promiseThen waited (some handler) none

end Microtask.Engine
