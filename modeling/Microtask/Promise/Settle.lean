import Microtask.Error

/-!
# Settling promises

`fulfill`, `reject` and `resolve` decide the fate of a promise that nobody has
decided yet, and do nothing to any other. Settling queues the matching reactions
in the order in which they were attached. Resolving with a promise adopts it: the
link is recorded, and a job is queued that attaches to it. A promise whose chain
of links leads back to the promise to be resolved cannot be adopted; that is a
rejection with a type error.

The functions whose name ends in `Now` act on a promise whose fate is already
decided, which is how an adoption comes to its end.

None of these operations runs a function or a frame.
-/

namespace Microtask.Engine

variable {H : Type}

/-! ## Settling -/

/-- Queue reactions with the settled value, in order. -/
def trigger (e : Engine H) (reactions : List Reaction) (v : Value) : Engine H :=
  { e with jobs := e.jobs.enqueueAll (reactions.map (.reaction · v)) }

/-- Record a rejected promise that has no reaction. -/
def trackUnhandled (e : Engine H) (p : PromiseRef) : Engine H :=
  { e with unhandled := e.unhandled ++ [p] }

/-- Forget the recorded promise with the given id. -/
def untrackUnhandled (e : Engine H) (id : Nat) : Engine H :=
  { e with unhandled := e.unhandled.filter fun p => (e.promise p).id ≠ id }

/-- Fulfill a pending promise. -/
def fulfillNow (e : Engine H) (p : PromiseRef) (v : Value) : Engine H :=
  let before := e.promise p
  match before.state with
  | .pending =>
    (e.modifyPromise p fun r =>
      { r with state := .fulfilled v, following := none, onFulfilled := [], onRejected := [] }).trigger
      before.onFulfilled v
  | _ => e

/-- Reject a pending promise. -/
def rejectNow (e : Engine H) (p : PromiseRef) (reason : Value) : Engine H :=
  let before := e.promise p
  match before.state with
  | .pending =>
    let e := e.modifyPromise p fun r =>
      { r with state := .rejected reason, following := none, onFulfilled := [], onRejected := [] }
    let e := if before.handled then e else e.trackUnhandled p
    e.trigger before.onRejected reason
  | _ => e

/-! ## Adoption -/

/-- A promise and those that it follows, one after the other, at most the given
number of links far. -/
def chainWithin (e : Engine H) : Nat → PromiseRef → List PromiseRef
  | 0, p => [p]
  | links + 1, p =>
    p :: match (e.promise p).following with
      | some q => e.chainWithin links q
      | none => []

/-- A promise and all those that it follows. A chain without repetition has no
more links than there are promises. -/
def chain (e : Engine H) (p : PromiseRef) : List PromiseRef := e.chainWithin e.promises.size p

/-- Whether the first promise is the second one or is followed by it. -/
def closesCycle (e : Engine H) (target candidate : PromiseRef) : Bool :=
  decide (target ∈ e.chain candidate)

/-- Settle a promise with a value, or let it adopt the promise that the value is. -/
def resolveNow (e : Engine H) (p : PromiseRef) (v : Value) : Engine H :=
  match v with
  | .promise q =>
    if e.closesCycle p q then
      let (reason, e) := e.newError "TypeError" "Chaining cycle detected for promise"
      e.rejectNow p reason
    else
      (e.modifyPromise p fun r => { r with following := some q }).enqueue (.adoption p q)
  | v => e.fulfillNow p v

/-! ## Deciding the fate of a promise -/

/-- Mark the fate of a promise as decided and go on, unless it was decided before. -/
def decideFate (e : Engine H) (p : PromiseRef) (next : Engine H → Engine H) : Engine H :=
  if (e.promise p).resolved then e
  else next (e.modifyPromise p fun r => { r with resolved := true })

/-- Resolve a promise: a promise is adopted, anything else fulfills. -/
def resolve (e : Engine H) (p : PromiseRef) (v : Value) : Engine H :=
  e.decideFate p (·.resolveNow p v)

/-- Fulfill a promise with the value as it is, even if that is a promise. -/
def fulfill (e : Engine H) (p : PromiseRef) (v : Value) : Engine H :=
  e.decideFate p (·.fulfillNow p v)

def reject (e : Engine H) (p : PromiseRef) (reason : Value) : Engine H :=
  e.decideFate p (·.rejectNow p reason)

/-- Settle a promise in the given way: resolve it or reject it. -/
def settle (e : Engine H) (p : PromiseRef) : Settling → Value → Engine H
  | .fulfill, v => e.resolve p v
  | .reject, v => e.reject p v

/-! ## Unhandled rejections -/

/-- The recorded promises that still have no reaction, with their reasons. -/
def unhandledReasons (e : Engine H) : List (PromiseRef × Value) :=
  e.unhandled.filterMap fun p =>
    match (e.promise p).state, (e.promise p).handled with
    | .rejected reason, false => some (p, reason)
    | _, _ => none

/-- The warning about a rejection that nobody handled. -/
def rejectionWarning (e : Engine H) (p : PromiseRef) (reason : Value) : String :=
  "Unhandled promise rejection (promise " ++ toString (e.promise p).id ++ "): " ++
    e.debugText reason

/-- Treat the recorded promises that still have no reaction as the policy says, in
order, and forget all that are recorded. -/
def reportUnhandled (e : Engine H) : Engine H :=
  let found := e.unhandledReasons
  { e with
    unhandled := []
    reported := match e.policy with
      | .ignore => e.reported
      | .warn | .collect => e.reported ++ found.map (·.2)
    warnings := match e.policy with
      | .warn => e.warnings ++ found.map fun (p, reason) => e.rejectionWarning p reason
      | .ignore | .collect => e.warnings }

/-- Take the reasons that were reported. -/
def takeReported (e : Engine H) : List Value × Engine H := (e.reported, { e with reported := [] })

end Microtask.Engine
