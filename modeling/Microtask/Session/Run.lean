import Microtask.Session.Action

/-!
# Running sessions

The host that carries session scripts out. `advance` does one piece of work, in
the engine or in the innermost task: it takes the answer to the action that the
task waits for, or begins the next action, or ends the task. `act` carries one
top-level action out and shows its reply, the events, the warnings, the variables
that look different from before, and the number of jobs that wait.

The failure of an action ends the body around it only if the step says so. A
panic ends everything up to the top-level action. An action that never ends has
no reply, and nothing comes after it.
-/

namespace Microtask.Session

namespace State

/-! ## Ending tasks -/

/-- The value that ends a body, or its failure. -/
def endingResult (s : State) : Ending → State × Except Failure Value
  | .panic _ => (s, .ok .undefined)
  | .raise error =>
    let (error, e) := error.eval s.scope s.engine
    (s.setEngine e, .error (.engine error))
  | .throwing v =>
    let (v, e) := v.eval s.scope s.engine
    (s.setEngine e, .error (.thrown v))
  | .returning v =>
    let (v, e) := v.eval s.scope s.engine
    (s.setEngine e, .ok v)

/-- The outcome of a turn. -/
def turnOutcome (e : Host) (stop : Stop) : Except Failure Value → Outcome × Host
  | .error failure =>
    let (v, e) := e.failureValue failure
    (.threw v, e)
  | .ok v =>
    match stop with
    | .yielding => (.yielded v, e)
    | .awaiting => (.awaiting v, e)
    | .returning => (.returned v, e)

/-- End the innermost task with a result, which goes to the engine. -/
def finishTask (s : State) (role : Role) (result : Except Failure Value) : State :=
  let e := s.engine
  match s.config.control with
  | .host (.function k) _ => { s with tasks := s.tasks.tail, config := e.finishCall result k }
  | .host (.frame k) _ =>
    match role with
    | .turn _ stop left forward =>
      let (o, e) := turnOutcome e stop result
      { s with tasks := s.tasks.tail, config := e.finishFrame o (.turns left forward) k }
    | _ => s.setTasks []
  | .host (.job id d) _ =>
    let result := match result with
      | .ok _ => .ok ()
      | .error failure => .error failure.toEngineError
    { s with tasks := s.tasks.tail, config := e.finishJob id d result }
  | _ => s.setTasks []

/-- Abandon everything up to the top-level action. -/
def panic (s : State) (text : String) : State :=
  { s with tasks := [], config := Config.abandon s.engine, outcome := .panicked text }

/-- End the innermost task as its body says. -/
def endBody (s : State) (t : Task) : State :=
  match t.ending with
  | .panic text => s.panic text
  | ending =>
    let (s, result) := s.endingResult ending
    s.finishTask t.role result

/-! ## Recording results -/

/-- Record the result of a step of the innermost task, whose other tasks are
`outer`. -/
def record (s : State) (t : Task) (outer : List Task) (step : Step) (r : Result) : State :=
  let t := { t with waiting := none }
  match t.loops with
  | l :: loops =>
    let failed := if r.failure.isSome then l.failed + 1 else l.failed
    s.setTasks ({ t with loops := { l with failed } :: loops } :: outer)
  | [] =>
    match t.role with
    | .top => { s with tasks := [], outcome := r.reply }
    | role =>
      let .mk word _ _ propagate := step
      let s := if t.quiet then s else s.emit (.did word r.reply)
      match propagate, r.failure with
      | true, some failure => (s.setTasks (t :: outer)).finishTask role (.error failure)
      | _, _ => s.setTasks (t :: outer)

/-! ## Beginning steps -/

/-- Begin a step of the innermost task, whose other tasks are `outer`. -/
def beginStep (s : State) (t : Task) (outer : List Task) (step : Step) : State :=
  let .mk _ action target _ := step
  match s.beginAction target action with
  | .result s r => s.record t outer step r
  | .op s op =>
    match s.config.control with
    | .host h _ =>
      { s with
        tasks := { t with waiting := some step } :: outer
        config := s.engine.perform h op }
    | _ => s
  | .loop rounds steps =>
    s.setTasks ({ t with loops := { origin := step, body := steps, left := [], rounds } :: t.loops } ::
      outer)
  | .endless s => { s with tasks := [], stuck := true }

/-! ## Activations -/

/-- Host code gets the floor for a new activation. -/
def enter (s : State) : Snippet → List Value → State
  | .function name (.mk steps ending) quiet, args =>
    let s := if quiet then s else s.emit (.called name (args.map s.render))
    s.setTasks ({ role := .function args, quiet, steps, ending } :: s.tasks)
  | .relay (some f), args =>
    match s.config.control with
    | .host h _ =>
      let task : Task := { role := .relay, quiet := true, steps := [], waiting := some default }
      { s with tasks := task :: s.tasks, config := s.engine.perform h (.call f args) }
    | _ => s
  | .relay none, _ =>
    (s.setTasks ({ role := .relay, quiet := true, steps := [] } :: s.tasks)).finishTask .relay
      (.ok .undefined)
  | .turns _ _, _ | .job _ _ _, _ => s

/-- A frame of the session is resumed. -/
def enterTurn (s : State) (turns : List Turn) (forward : Bool) (c : Completion) : State :=
  let s := s.emit (.resumed c.kind (s.render c.value))
  match s.config.control with
  | .host (.frame k) _ =>
    if forward && c.isAbrupt then
      { s with config := s.engine.finishFrame (.ofCompletion c) (.turns turns forward) k }
    else
      match turns with
      | [] => { s with config := s.engine.finishFrame (.returned .undefined) (.turns [] forward) k }
      | .mk (.mk steps ending) stop quiet :: later =>
        let left := if later.isEmpty then turns else later
        s.setTasks ({ role := .turn c.value stop left forward, quiet, steps, ending } :: s.tasks)
  | _ => s

/-- A job of the session starts. -/
def enterJob (s : State) (label : String) : Snippet → State
  | .job _ (.mk steps ending) quiet =>
    let s := if quiet then s else s.emit (.started label)
    s.setTasks ({ role := .job, quiet, steps, ending } :: s.tasks)
  | _ => s

/-! ## Running -/

/-- Go on with the innermost task, which waits for nothing. -/
def proceed (s : State) (t : Task) (outer : List Task) : State :=
  match t.loops with
  | l :: loops =>
    match l.left with
    | step :: left => s.beginStep { t with loops := { l with left } :: loops } outer step
    | [] =>
      if l.rounds = 0 then s.record { t with loops } outer l.origin ⟨.failed l.failed, none⟩
      else s.setTasks ({ t with loops := { l with left := l.body, rounds := l.rounds - 1 } :: loops } ::
        outer)
  | [] =>
    match t.steps with
    | step :: steps => s.beginStep { t with steps } outer step
    | [] => s.endBody t

/-- One piece of work. -/
def advance (s : State) : State :=
  match s.config.control, s.tasks with
  | .host _ prompt, t :: outer =>
    match t.waiting with
    | none => s.proceed t outer
    | some step =>
      match prompt with
      | .answered a =>
        match t.role with
        | .relay => s.finishTask .relay (.ok .undefined)
        | _ =>
          let .mk _ action target _ := step
          let (s, r) := s.takeAnswer action target a
          s.record t outer step r
      | .called code args => s.enter code args
      | .resumed (.turns turns forward) c => s.enterTurn turns forward c
      | .started label code => s.enterJob label code
      | .resumed _ _ | .outside => s.setTasks []
  | .host _ _, [] => s
  | _, _ => { s with config := s.config.tick }

/-- Work until the top-level action is done, for at most the given number of pieces. -/
def settle : Nat → State → State
  | 0, s => s
  | n + 1, s => if s.tasks.isEmpty && s.config.atHost then s else settle n s.advance

end State

/-! ## Top-level actions -/

/-- What has changed from one appearance to the next; a variable that has left is
shown without a rendering. -/
def changes (before after : List (String × Rendering)) : List (String × Option Rendering) :=
  (after.filterMap fun (name, r) =>
    match before.lookup name with
    | some old => if old.same r then none else some (name, some r)
    | none => some (name, some r)) ++
  (before.filterMap fun (name, _) =>
    match after.lookup name with
    | some _ => none
    | none => some (name, none))

/-- What a session shows of one top-level action. -/
structure Entry where
  reply : Reply
  events : List Event
  warnings : List String
  changes : List (String × Option Rendering)
  jobs : Nat

/-- A bound on the pieces of work of one action that no terminating script comes near. -/
def workLimit : Nat := Nat.pow 10 15

namespace State

/-- The renderings of the variables that hold promises and generators. -/
def appearance (s : State) : List (String × Rendering) :=
  s.bindings.filterMap fun (name, v) =>
    match v with
    | .promise _ | .generator _ | .asyncGenerator _ => some (name, s.renderTop v)
    | _ => none

/-- Carry a top-level action out, unless it never ends. -/
def act? (s : State) (step : Step) : Option (Entry × State) :=
  let task : Task := { role := .top, quiet := false, steps := [step] }
  let s := { s with tasks := [task] }.settle workLimit
  let after := s.appearance
  if s.stuck then none
  else
    some ({ reply := s.outcome
            events := s.events.reverse
            warnings := s.engine.warnings
            changes := changes s.shown after
            jobs := s.engine.jobs.length },
          { s with
            events := []
            shown := after
            config := ⟨{ s.engine with warnings := [] }, .host .main .outside⟩ })

/-- Carry top-level actions out one after the other, up to one that never ends. -/
def actAll (s : State) : List Step → List Entry
  | [] => []
  | step :: rest =>
    match s.act? step with
    | some (entry, s) => entry :: s.actAll rest
    | none => []

end State

/-- What a session script shows, from a fresh engine on. -/
def runAll (steps : List Step) : List Entry := ({} : State).actAll steps

end Microtask.Session
