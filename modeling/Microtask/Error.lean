import Microtask.Value.Text

/-!
# Errors

An `EngineError` is a failure of the engine or of the host. A `Failure` ends a
function, a job or a generator step: an engine error, or a value that a script
threw. Scripts see an engine error as an error object with a name and a message,
and a thrown value as itself.
-/

namespace Microtask

inductive EngineError where
  /-- A method was called on a value of the wrong kind. -/
  | invalidReceiver (expected method : String)
  | invalidState (message : String)
  /-- Code failed at a place in a program. -/
  | evaluation (message method file : String) (line : Nat)
  /-- A drain ran as many jobs as its limit allows and was not done. -/
  | infiniteLoop (iterations : Nat)
  | typeError (message : String)
  | runtime (message : String)
  /-- A thrown value that left the script. -/
  | thrown (v : Value)
  deriving DecidableEq, Repr, Inhabited

inductive Failure where
  | engine (error : EngineError)
  | thrown (v : Value)
  deriving DecidableEq, Repr, Inhabited

namespace EngineError

/-! ## The engine's own errors -/

def alreadyRunning : EngineError := .invalidState "Generator is already running"

def noFrame : EngineError := .evaluation "Generator has no frame to resume" "step" "generator" 0

def awaitInGenerator : EngineError :=
  .typeError "await is only valid in async generators and async functions"

def notAFunction (receiver method : String) : EngineError :=
  .typeError (receiver ++ "." ++ method ++ " is not a function")

def expectsArray (receiver method : String) : EngineError :=
  .typeError (receiver ++ "." ++ method ++ " expects an array")

/-- A method of the given class was called on a value outside the class. -/
def wrongReceiver (kind method : String) : EngineError :=
  .invalidReceiver kind (kind ++ ".prototype." ++ method)

/-! ## What scripts see -/

/-- The name of the error object that stands for the error. -/
def constructorName : EngineError → String
  | .invalidReceiver _ _ | .invalidState _ | .typeError _ => "TypeError"
  | .infiniteLoop _ => "RangeError"
  | .evaluation _ _ _ _ | .runtime _ | .thrown _ => "Error"

end EngineError

namespace Failure

/-- A thrown value becomes an engine error when it leaves a job. -/
def toEngineError : Failure → EngineError
  | .engine error => error
  | .thrown v => .thrown v

/-- The value that a script threw, if the failure carries one. -/
def thrown? : Failure → Option Value
  | .thrown v | .engine (.thrown v) => some v
  | .engine _ => none

end Failure

namespace Engine

variable {H : Type}

/-! ## Texts -/

/-- An error in one line. -/
def displayError (e : Engine H) : EngineError → String
  | .invalidReceiver expected method =>
    method ++ " called on incompatible receiver (expected " ++ expected ++ ")"
  | .invalidState message => "Invalid state: " ++ message
  | .evaluation message method file line =>
    "Evaluation failed at " ++ method ++ " " ++ file ++ ":" ++ toString line ++ ": " ++ message
  | .infiniteLoop iterations =>
    "Infinite loop detected (executed " ++ toString iterations ++ " iterations)"
  | .typeError message => "Type error: " ++ message
  | .runtime message => "Runtime error: " ++ message
  | .thrown v => "Thrown value: " ++ e.debugText v

/-- The message of an error, without its kind. -/
def errorMessage (e : Engine H) : EngineError → String
  | .invalidState message | .typeError message | .runtime message
  | .evaluation message _ _ _ => message
  | .thrown v => e.text v
  | error => e.displayError error

def failureMessage (e : Engine H) : Failure → String
  | .engine error => e.errorMessage error
  | .thrown v => e.text v

/-! ## Errors as values -/

def newError (e : Engine H) (name message : String) : Value × Engine H :=
  e.newObject (.error name message)

/-- The value by which scripts see an engine error. -/
def errorValue (e : Engine H) : EngineError → Value × Engine H
  | .thrown v => (v, e)
  | error => e.newError error.constructorName (e.errorMessage error)

/-- The value by which scripts see a failure. -/
def failureValue (e : Engine H) : Failure → Value × Engine H
  | .engine error => e.errorValue error
  | .thrown v => (v, e)

end Engine

end Microtask
