import Microtask.Store
import Microtask.Object
import Microtask.Callable
import Microtask.Job

/-!
# The engine

The state of an engine: the stores of everything that values refer to, the job
queue, and the records of rejected promises. Promises, generators and async
generators share one sequence of ids, starting with 1.

The engine is a plain value, and its operations are functions from engines to
engines. They are grouped by what they are about; this module holds what they
all share, allocation and access.
-/

namespace Microtask

/-- What becomes of rejections that nobody handled. -/
inductive RejectionPolicy where
  /-- Drop them. -/
  | ignore
  /-- Warn and keep the reason. -/
  | warn
  /-- Keep the reason. -/
  | collect
  deriving DecidableEq, Repr, Inhabited

structure Engine (H : Type) where
  objects : Store Object := {}
  callables : Store (Callable H) := {}
  promises : Store Promise := {}
  generators : Store (Generator H) := {}
  asyncGenerators : Store AsyncGenerator := {}
  tallies : Store Tally := {}
  nextId : Nat := 1
  jobs : JobQueue (Job H) := {}
  /-- Whether a drain is in progress. -/
  draining : Bool := false
  /-- The greatest number of jobs that one drain may run. -/
  limit : Option Nat := none
  policy : RejectionPolicy := .collect
  /-- Rejected promises without reactions, since the last report. -/
  unhandled : List PromiseRef := []
  /-- The reasons that were reported and not taken yet. -/
  reported : List Value := []
  /-- The warnings so far, oldest first. -/
  warnings : List String := []
  deriving Inhabited

namespace Engine

variable {H : Type}

/-! ## Objects -/

def object (e : Engine H) (o : ObjectRef) : Object := e.objects.get o.index

/-- Put an object into the store. -/
def newObject (e : Engine H) (o : Object) : Value × Engine H :=
  (.object ⟨e.objects.size⟩, { e with objects := e.objects.push o })

def setProperty (e : Engine H) (o : ObjectRef) (key : String) (v : Value) : Engine H :=
  { e with objects := e.objects.modify o.index (·.set key v) }

/-- The property of an object; no other value has one. -/
def property? (e : Engine H) (v : Value) (key : String) : Option Value :=
  match v with
  | .object o => (e.object o).get? key
  | _ => none

/-- The elements of an array; no other value has them. -/
def elements? (e : Engine H) (v : Value) : Option (List Value) :=
  match v with
  | .object o => (e.object o).elements?
  | _ => none

/-- The value and the end mark of an iterator result; every object is read as one. -/
def iteratorParts? (e : Engine H) (v : Value) : Option (Value × Bool) :=
  match v with
  | .object o => some (e.object o).iteratorParts
  | _ => none

/-- Whether the value is an error object. -/
def isError (e : Engine H) (v : Value) : Bool :=
  match v with
  | .object o => (e.object o).isError
  | _ => false

/-! ## Functions -/

def callable (e : Engine H) (f : FunctionRef) : Callable H := e.callables.get f.index

def newFunction (e : Engine H) (c : Callable H) : FunctionRef × Engine H :=
  (⟨e.callables.size⟩, { e with callables := e.callables.push c })

/-- Use up a function for a single call. -/
def spend (e : Engine H) (f : FunctionRef) : Engine H :=
  { e with callables := e.callables.modify f.index fun c => { c with usage := .spent } }

/-! ## Promises -/

def promise (e : Engine H) (p : PromiseRef) : Promise := e.promises.get p.index

def newPromise (e : Engine H) : PromiseRef × Engine H :=
  (⟨e.promises.size⟩,
    { e with promises := e.promises.push { id := e.nextId }, nextId := e.nextId + 1 })

def modifyPromise (e : Engine H) (p : PromiseRef) (change : Promise → Promise) : Engine H :=
  { e with promises := e.promises.modify p.index change }

/-! ## Generators -/

def generator (e : Engine H) (g : GeneratorRef) : Generator H := e.generators.get g.index

/-- A generator that has not started, over a frame. -/
def newGenerator (e : Engine H) (f : Frame H) : GeneratorRef × Engine H :=
  (⟨e.generators.size⟩,
    { e with
      generators := e.generators.push { id := e.nextId, state := .suspendedStart, frame := some f }
      nextId := e.nextId + 1 })

def modifyGenerator (e : Engine H) (g : GeneratorRef) (change : Generator H → Generator H) :
    Engine H :=
  { e with generators := e.generators.modify g.index change }

def asyncGenerator (e : Engine H) (g : AsyncGeneratorRef) : AsyncGenerator :=
  e.asyncGenerators.get g.index

/-- An async generator that has not started, over a frame. Its own id comes
before that of the generator inside. -/
def newAsyncGenerator (e : Engine H) (f : Frame H) : AsyncGeneratorRef × Engine H :=
  let id := e.nextId
  let (inner, e) := { e with nextId := id + 1 }.newGenerator f
  (⟨e.asyncGenerators.size⟩,
    { e with asyncGenerators := e.asyncGenerators.push { id, inner, state := .suspendedStart } })

def modifyAsyncGenerator (e : Engine H) (g : AsyncGeneratorRef)
    (change : AsyncGenerator → AsyncGenerator) : Engine H :=
  { e with asyncGenerators := e.asyncGenerators.modify g.index change }

/-! ## Tallies -/

def tally (e : Engine H) (t : TallyRef) : Tally := e.tallies.get t.index

def newTally (e : Engine H) (t : Tally) : TallyRef × Engine H :=
  (⟨e.tallies.size⟩, { e with tallies := e.tallies.push t })

def modifyTally (e : Engine H) (t : TallyRef) (change : Tally → Tally) : Engine H :=
  { e with tallies := e.tallies.modify t.index change }

/-! ## Jobs and warnings -/

/-- Append a job to the queue. -/
def enqueue (e : Engine H) (j : Job H) : Engine H := { e with jobs := e.jobs.enqueue j }

def warn (e : Engine H) (text : String) : Engine H := { e with warnings := e.warnings ++ [text] }

/-- What a job is, in one line. -/
def describeJob (e : Engine H) : Job H → String
  | .reaction r _ =>
    let kind := match r.kind with
      | .fulfill => "Fulfill"
      | .reject => "Reject"
    let capability := match r.capability with
      | some p => "Some(" ++ toString (e.promise p).id ++ ")"
      | none => "None"
    "PromiseReaction kind=" ++ kind ++ " capability=" ++ capability
  | .adoption p thenable =>
    "ResolveThenable promise=Some(" ++ toString (e.promise p).id ++ ") thenable=Some(" ++
      toString (e.promise thenable).id ++ ")"
  | .callback label _ => "Callback " ++ label

end Engine

end Microtask
