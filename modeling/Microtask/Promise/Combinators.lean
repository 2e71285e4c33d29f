import Microtask.Promise.Then

/-!
# Combinators

A promise made of the promises of a list of values. `all`, `allSettled` and `any`
keep a tally: a slot for each element, filled by the element's report, and a count
of the reports to come. The set-up itself counts as one report, so that the result
is not decided before every element is in. `race` needs no tally, for the first
settlement decides.

An element reports once. With `all` and `any` one of its two callbacks reports,
which may be called once. With `allSettled` both do, and the first one counts.
-/

namespace Microtask

namespace Tally

/-- One report less to come. -/
def countDown (t : Tally) : Tally := { t with outstanding := t.outstanding - 1 }

/-- Fill the slot of an element. -/
def fill (t : Tally) (i : Nat) (v : Value) : Tally := { t with slots := t.slots.set i (some v) }

/-- Whether the slot of an element is empty. -/
def isOpen (t : Tally) (i : Nat) : Bool := t.slots[i]? == some none

/-- Whether a report of an element counts. -/
def accepts (t : Tally) (i : Nat) : Bool :=
  match t.collection with
  | .all | .any => true
  | .allSettled => t.isOpen i

/-- What the slots hold, with undefined for an empty one. -/
def values (t : Tally) : List Value := t.slots.map (·.getD .undefined)

end Tally

namespace Engine

variable {H : Type}

/-! ## Tallies -/

/-- The error of a combinator none of whose elements was fulfilled. -/
def newAggregateError (e : Engine H) (errors : List Value) : Value × Engine H :=
  let (list, e) := e.newObject (.ofList errors)
  e.newObject ((Object.error "AggregateError" "All promises were rejected").set "errors" list)

/-- Decide the result of a tally with no report to come. -/
def concludeTally (e : Engine H) (t : Tally) : Engine H :=
  if t.outstanding = 0 then
    match t.collection with
    | .all | .allSettled =>
      let (list, e) := e.newObject (.ofList t.values)
      e.resolve t.result list
    | .any =>
      let (error, e) := e.newAggregateError t.values
      e.reject t.result error
  else e

/-- Count one report of a tally, and decide its result if that was the last one. -/
def countDown (e : Engine H) (t : TallyRef) : Engine H :=
  let after := (e.tally t).countDown
  (e.modifyTally t fun _ => after).concludeTally after

/-- What goes into the slot of an element that has settled. -/
def slotContent (e : Engine H) (c : Collection) (kind : Settling) (v : Value) : Value × Engine H :=
  match c, kind with
  | .allSettled, .fulfill => e.newObject (.settlementRecord "fulfilled" "value" v)
  | .allSettled, .reject => e.newObject (.settlementRecord "rejected" "reason" v)
  | .all, _ | .any, _ => (v, e)

/-- The report of an element. -/
def report (e : Engine H) (t : TallyRef) (i : Nat) (kind : Settling) (v : Value) : Engine H :=
  let tally := e.tally t
  if tally.accepts i then
    let (content, e) := e.slotContent tally.collection kind v
    (e.modifyTally t (·.fill i content)).countDown t
  else e

/-! ## Elements -/

/-- The callbacks of an element: the settlements that count are reported to the
tally, and one that decides goes straight to the result. -/
def elementCallbacks (e : Engine H) (t : TallyRef) (i : Nat) :
    (FunctionRef × FunctionRef) × Engine H :=
  let tally := e.tally t
  let (onFulfilled, e) := e.newFunction <| match tally.collection with
    | .all => ⟨"Promise.all resolve element", .once, .report t i .fulfill⟩
    | .allSettled => ⟨"Promise.allSettled element", .repeatable, .report t i .fulfill⟩
    | .any => ⟨"Promise.any resolve", .repeatable, .resolve tally.result⟩
  let (onRejected, e) := e.newFunction <| match tally.collection with
    | .all => ⟨"Promise.all reject", .repeatable, .reject tally.result⟩
    | .allSettled => ⟨"Promise.allSettled element", .repeatable, .report t i .reject⟩
    | .any => ⟨"Promise.any reject element", .once, .report t i .reject⟩
  ((onFulfilled, onRejected), e)

/-- Attach the callbacks of an element to the promise of its value. -/
def addElement (e : Engine H) (t : TallyRef) (v : Value) (i : Nat) : Engine H :=
  let e := e.modifyTally t fun r => { r with outstanding := r.outstanding + 1 }
  let ((onFulfilled, onRejected), e) := e.elementCallbacks t i
  let (p, e) := e.promiseOf v
  e.performThen p (some onFulfilled) (some onRejected) none

/-- The promise of a collection of settlements. -/
def collect (e : Engine H) (collection : Collection) (items : List Value) :
    PromiseRef × Engine H :=
  let (result, e) := e.newPromise
  let (t, e) := e.newTally { collection, result, slots := items.map fun _ => none }
  let e := items.zipIdx.foldl (fun e (v, i) => e.addElement t v i) e
  (result, e.countDown t)

/-- The promise of the first settlement. -/
def race (e : Engine H) (items : List Value) : PromiseRef × Engine H :=
  let (result, e) := e.newPromise
  let ((onResolve, onReject), e) := e.resolvingFunctions result
  let e := items.foldl
    (fun e v =>
      let (p, e) := e.promiseOf v
      e.performThen p (some onResolve) (some onReject) none) e
  (result, e)

end Engine

end Microtask
