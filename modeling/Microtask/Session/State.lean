import Microtask.Session.Evaluate
import Microtask.Session.Reply

/-!
# The state of a session

A session is a machine together with the host's own state: the variables, the
frames and queues that the host keeps for itself, and a `Task` for every
activation, which is the script that the activation still has to carry out. The
innermost task comes first.
-/

namespace Microtask.Session

/-! ## Tasks -/

/-- What a task is the script of. -/
inductive Role where
  /-- A top-level action. -/
  | top
  | function (args : List Value)
  /-- A turn, with the value that the frame was resumed with, the way in which
  it stops, and the turns that the frame then has left. -/
  | turn (sent : Value) (stop : Stop) (left : List Turn) (forward : Bool)
  | job
  /-- A function that only calls another one. -/
  | relay

/-- The rounds of a repetition that are left. -/
structure Loop where
  /-- The step that repeats. -/
  origin : Step
  body : List Step
  /-- The steps that are left in this round. -/
  left : List Step
  rounds : Nat
  failed : Nat := 0

structure Task where
  role : Role
  quiet : Bool
  steps : List Step
  ending : Ending := .returning .undefined
  /-- Repetitions, the innermost first. -/
  loops : List Loop := []
  /-- The step whose action waits for the engine. -/
  waiting : Option Step := none

structure State where
  config : Config Snippet := ⟨{}, .host .main .outside⟩
  bindings : Variables := []
  frames : List (String × Frame Snippet) := []
  queues : List (String × JobQueue (Job Snippet)) := []
  tasks : List Task := []
  /-- The events of the present top-level action, latest first. -/
  events : List Event := []
  /-- The reply of the latest top-level action. -/
  outcome : Reply := .ok
  /-- How the variables looked after the latest top-level action. -/
  shown : List (String × Rendering) := []
  /-- Whether the present action never ends, since it writes down an endless text. -/
  stuck : Bool := false

namespace State

/-! ## Looking around -/

def engine (s : State) : Host := s.config.engine

def setEngine (s : State) (e : Host) : State := { s with config := { s.config with engine := e } }

def render (s : State) (v : Value) : Rendering := Rendering.ofPart s.engine s.bindings v

def renderTop (s : State) (v : Value) : Rendering := Rendering.ofWhole s.engine s.bindings v

/-- The scope of the innermost task. -/
def scope (s : State) : Scope where
  bindings := s.bindings
  args := (s.tasks.findSome? fun t =>
    match t.role with
    | .function args => some args
    | _ => none).getD []
  sent := (s.tasks.findSome? fun t =>
    match t.role with
    | .turn sent _ _ _ => some sent
    | _ => none).getD .undefined

def emit (s : State) (event : Event) : State := { s with events := event :: s.events }

def setTasks (s : State) (tasks : List Task) : State := { s with tasks }

/-! ## Results -/

/-- The result of something that failed. -/
def failureResult (s : State) (failure : Failure) : Result :=
  match failure with
  | .engine error => ⟨.error error (s.engine.errorMessage error), some failure⟩
  | .thrown v => ⟨.thrown (s.render v), some failure⟩

/-- Bind the target of a step to a value. -/
def bindTarget (s : State) (target : Option String) (v : Value) : State :=
  match target with
  | some name => { s with bindings := s.bindings.bind name v }
  | none => s

/-- Bind the target of a step to a value, which is the result. -/
def valueResult (s : State) (target : Option String) (v : Value) : State × Result :=
  let s := s.bindTarget target v
  (s, ⟨.value (s.renderTop v), none⟩)

end State

end Microtask.Session
