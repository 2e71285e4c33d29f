import Microtask.Error

/-!
# Generator steps

A step of a generator begins by taking the frame out (`beginStep`), unless the
state answers without it, and ends by putting the frame back or dropping it
(`endStep`). What happens in between is up to the frame; a step that begins
while another one is under way is refused.
-/

namespace Microtask

/-- How a step begins: with an answer at once, or with a frame to be resumed. -/
inductive StepStart (H : Type) where
  | answered (result : Except EngineError Outcome)
  | running (f : Frame H)

namespace Engine

variable {H : Type}

/-- Finish a generator without resuming its frame. -/
def closeGenerator (e : Engine H) (g : GeneratorRef) : Engine H :=
  e.modifyGenerator g fun r => { r with state := .completed, frame := none }

/-- Lose the frame of a generator, whatever its state. -/
def dropFrame (e : Engine H) (g : GeneratorRef) : Engine H :=
  e.modifyGenerator g fun r => { r with frame := none }

/-- What a generator that is done answers. -/
def doneOutcome (c : Completion) : Outcome :=
  match c.kind with
  | .return => .returned c.value
  | .normal | .throw => .returned .undefined

/-- Take the frame of a suspended generator out. -/
def takeFrame (e : Engine H) (g : GeneratorRef) : Engine H × StepStart H :=
  match (e.generator g).frame with
  | some f =>
    (e.modifyGenerator g fun r => { r with state := .executing, frame := none }, .running f)
  | none =>
    (e.modifyGenerator g fun r => { r with state := .completed }, .answered (.error .noFrame))

/-- Begin a step. A generator that has not started is finished by an abrupt
completion without ever running. -/
def beginStep (e : Engine H) (g : GeneratorRef) (c : Completion) : Engine H × StepStart H :=
  match (e.generator g).state with
  | .executing => (e, .answered (.error .alreadyRunning))
  | .completed => (e, .answered (.ok (doneOutcome c)))
  | .suspendedStart =>
    if c.isAbrupt then (e.closeGenerator g, .answered (.ok (.ofCompletion c))) else e.takeFrame g
  | .suspendedYield => e.takeFrame g

/-- End a step in which the frame has stopped. -/
def endStep (e : Engine H) (g : GeneratorRef) (f : Frame H) (o : Outcome) : Engine H :=
  if o.isFinished then e.modifyGenerator g fun r => { r with state := .completed }
  else e.modifyGenerator g fun r => { r with state := .suspendedYield, frame := some f }

/-- The iterator result for an outcome, as a new object. -/
def newIteratorResult (e : Engine H) (v : Value) (done : Bool) : Value × Engine H :=
  e.newObject (.iteratorResult v done)

/-- What a caller of the generator gets for the outcome of a step. A generator
that awaits is finished with an error. -/
def iteratorAnswer (e : Engine H) (g : GeneratorRef) :
    Except EngineError Outcome → Except Failure Value × Engine H
  | .error error => (.error (.engine error), e)
  | .ok (.yielded v) =>
    let (result, e) := e.newIteratorResult v false
    (.ok result, e)
  | .ok (.returned v) =>
    let (result, e) := e.newIteratorResult v true
    (.ok result, e)
  | .ok (.threw v) => (.error (.thrown v), e)
  | .ok (.awaiting _) => (.error (.engine .awaitInGenerator), e.closeGenerator g)

end Engine

end Microtask
