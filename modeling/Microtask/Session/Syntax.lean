import Microtask.Machine.Op

/-!
# Session scripts

A session is a host whose code is data. An `Expr` describes a value, an `Action`
one use of the engine, a `Step` an action together with what to do with its
result, and a `Body` the steps of a function, a job or a turn of a frame with
the way it ends. Variables are global to the session and are looked up when an
expression is evaluated.
-/

namespace Microtask.Session

/-- How a turn of a frame stops with the value of its body. -/
inductive Stop where
  | yielding
  | awaiting
  | returning
  deriving DecidableEq, Repr, Inhabited

/-- Where a job taken off the queue goes. -/
inductive Destination where
  /-- Nowhere. -/
  | dropped
  /-- To the end of the engine's queue. -/
  | requeued
  /-- To a queue of the session. -/
  | detached (queue : String)
  deriving DecidableEq, Repr, Inhabited

mutual

inductive Expr where
  | undefined
  | null
  | boolean (b : Bool)
  | number (n : Number)
  | string (s : String)
  | variable (name : String)
  /-- An argument of the innermost function that is running. -/
  | argument (i : Nat)
  /-- What the innermost frame that is running was resumed with. -/
  | sent
  | array (items : List Expr)
  | object (properties : List (String × Expr))
  | error (name message : String)
  | iteratorResult (v : Expr) (done : Bool)
  | property (of : Expr) (key : String)
  | sum (a b : Expr)
  /-- A new function. A quiet one leaves no events. -/
  | function (name : String) (body : Body) (once quiet : Bool)

inductive Body where
  | mk (steps : List Step) (ending : Ending)

/-- How a body ends. -/
inductive Ending where
  /-- Everything that is under way is abandoned. -/
  | panic (text : String)
  | raise (error : ErrorExpr)
  | throwing (v : Expr)
  | returning (v : Expr)

inductive ErrorExpr where
  | plain (error : EngineError)
  | thrown (v : Expr)

inductive InstructionExpr where
  | plain (i : Instruction)
  | yieldValue (v : Expr)
  | awaitValue (v : Expr)
  | returnValue (v : Expr)
  | throwValue (v : Expr)

inductive FrameExpr where
  | values (items : List Expr)
  | script (code : List InstructionExpr)
  /-- One turn for each resume, the last one again and again. A frame that
  forwards answers an abrupt completion at once and keeps its turn. -/
  | turns (turns : List Turn) (forward : Bool)

inductive Turn where
  | mk (body : Body) (stop : Stop) (quiet : Bool)

inductive Action where
  -- values
  | evaluate (v : Expr)
  | text (v : Expr)
  | debugText (v : Expr)
  | same (a b : Expr)
  | property (v : Expr) (key : String)
  | setProperty (of : Expr) (key : String) (v : Expr)
  | elements (v : Expr)
  | iteratorParts (v : Expr)
  | errorInfo (v : Expr)
  | call (f : Expr) (args : List Expr)
  -- errors and completions
  | describeError (error : ErrorExpr)
  | describeFailure (failure : ErrorExpr) (isThrown : Bool)
  | describeCompletion (kind : CompletionKind) (v : Expr)
  -- frames of the session
  | newFrame (name : String) (frame : FrameExpr)
  | resumeFrame (name : String) (kind : CompletionKind) (v : Expr)
  -- generators
  | newGenerator (frame : FrameExpr)
  | advanceGenerator (kind : CompletionKind) (g v : Expr)
  | stepGenerator (g : Expr) (kind : CompletionKind) (v : Expr)
  | closeGenerator (g : Expr)
  | dropFrame (g : Expr)
  | generatorMethod (receiver : Expr) (method : String) (args : List Expr)
  -- async generators and async functions
  | newAsyncGenerator (frame : FrameExpr)
  | request (g : Expr) (kind : CompletionKind) (v : Expr)
  | innerGenerator (g : Expr)
  | asyncGeneratorMethod (receiver : Expr) (method : String) (args : List Expr)
  | startAsync (frame : FrameExpr)
  -- promises
  | newPromise
  | resolve (p v : Expr)
  | fulfill (p v : Expr)
  | reject (p v : Expr)
  | promiseOf (v : Expr)
  | rejectedPromise (v : Expr)
  | newCapability (onResolve onReject : Option String)
  | resolvingFunctions (p : Expr) (onResolve onReject : Option String)
  | construct (executor : Expr)
  | promiseThen (p onFulfilled onRejected : Expr)
  | promiseCatch (p onRejected : Expr)
  | promiseFinally (p callback : Expr)
  | performThen (p onFulfilled onRejected capability : Expr)
  | collect (c : Collection) (items : List Expr)
  | race (items : List Expr)
  | promiseMethod (receiver : Expr) (method : String) (args : List Expr)
  | promiseFunction (method : String) (args : List Expr)
  | await (v onFulfilled onRejected : Expr)
  | inspect (p : Expr)
  -- unhandled rejections
  | setPolicy (policy : RejectionPolicy)
  | getPolicy
  | takeReported
  | reset
  -- jobs
  | enqueue (label : String) (body : Body) (quiet : Bool)
  | runJobs
  | setLimit (limit : Option Nat)
  | clearJobs
  | queueState
  | popJob (destination : Destination)
  | detachedEnqueue (queue label : String) (body : Body) (quiet : Bool)
  | detachedPop (queue : String) (run : Bool)
  | detachedClear (queue : String)
  | detachedState (queue : String)
  -- control
  | repeatSteps (rounds : Nat) (steps : List Step)

/-- An action under the name that events show, the variable that its result is
bound to, and whether its failure ends the body. -/
inductive Step where
  | mk (word : String) (action : Action) (target : Option String) (propagate : Bool)

end

instance : Inhabited Expr := ⟨.undefined⟩
instance : Inhabited Body := ⟨.mk [] (.returning .undefined)⟩
instance : Inhabited Turn := ⟨.mk default .returning false⟩
instance : Inhabited FrameExpr := ⟨.values []⟩
instance : Inhabited Action := ⟨.evaluate .undefined⟩
instance : Inhabited Step := ⟨.mk "" default none false⟩

/-- Code of the session, as the engine keeps it. -/
inductive Snippet where
  | function (name : String) (body : Body) (quiet : Bool)
  /-- The turns that a frame has left. -/
  | turns (turns : List Turn) (forward : Bool)
  | job (label : String) (body : Body) (quiet : Bool)
  /-- Call the function with the same arguments and forget the result. -/
  | relay (f : Option FunctionRef)

instance : Inhabited Snippet := ⟨.relay none⟩

end Microtask.Session
