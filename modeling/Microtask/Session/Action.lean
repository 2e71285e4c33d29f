import Microtask.Session.State

/-!
# Actions

`beginAction` evaluates the operands of an action and says what it leads to:
actions that only look at something have their result at once, the others become
an operation of the engine. `takeAnswer` makes the result of the engine's answer.
-/

namespace Microtask.Session.State

/-! ## Beginning actions -/

/-- What beginning an action leads to: a result at once, an operation of the
engine, a repetition, or nothing at all, for ever. -/
inductive Begun where
  | result (s : State) (r : Result)
  | op (s : State) (op : Op Snippet)
  | loop (rounds : Nat) (steps : List Step)
  | endless (s : State)

/-- A reply without any effect on the engine. -/
def answer (s : State) (reply : Reply) : Begun := .result s ⟨reply, none⟩

/-- A text as the reply, if there is one. Writing down any other does not end. -/
def answerText (s : State) : Option String → Begun
  | some text => s.answer (.text text)
  | none => .endless s

/-- A value as the result, to which the target is bound. -/
def bound (s : State) (target : Option String) (v : Value) : Begun :=
  let (s, r) := s.valueResult target v
  .result s r

/-- The result for an operand of the wrong kind. -/
def misuse (s : State) (text : String) : Begun :=
  .result s (s.failureResult (.engine (.typeError text)))

/-! ### Operands -/

def onValue (s : State) (v : Expr) (next : State → Value → Begun) : Begun :=
  let (v, e) := v.eval s.scope s.engine
  next (s.setEngine e) v

def onList (s : State) (items : List Expr) (next : State → List Value → Begun) : Begun :=
  let (vs, e) := evalList s.scope s.engine items
  next (s.setEngine e) vs

def onError (s : State) (error : ErrorExpr) (next : State → EngineError → Begun) : Begun :=
  let (error, e) := error.eval s.scope s.engine
  next (s.setEngine e) error

def onFrame (s : State) (f : FrameExpr) (next : State → Frame Snippet → Begun) : Begun :=
  let (f, e) := f.eval s.scope s.engine
  next (s.setEngine e) f

def onPromise (s : State) (p : Expr) (next : State → PromiseRef → Begun) : Begun :=
  s.onValue p fun s v =>
    match v with
    | .promise p => next s p
    | _ => s.misuse "not a promise"

def onGenerator (s : State) (g : Expr) (next : State → GeneratorRef → Begun) : Begun :=
  s.onValue g fun s v =>
    match v with
    | .generator g => next s g
    | _ => s.misuse "not a generator"

def onAsyncGenerator (s : State) (g : Expr) (next : State → AsyncGeneratorRef → Begun) :
    Begun :=
  s.onValue g fun s v =>
    match v with
    | .asyncGenerator g => next s g
    | _ => s.misuse "not an async generator"

def onFunction (s : State) (f : Expr) (next : State → FunctionRef → Begun) : Begun :=
  s.onValue f fun s v =>
    match v with
    | .function f => next s f
    | _ => s.misuse "not a function"

/-- An operand that may be a function; anything else stands for none. -/
def onHandler (s : State) (f : Expr) (next : State → Option FunctionRef → Begun) : Begun :=
  s.onValue f fun s v => next s v.asFunction?

/-! ### The session's own frames and queues -/

/-- Set a frame of the session. -/
def setFrame (s : State) (name : String) (f : Frame Snippet) : State :=
  { s with frames := (name, f) :: s.frames.filter (·.1 ≠ name) }

/-- A queue of the session, empty until it is used. -/
def queue (s : State) (name : String) : JobQueue (Job Snippet) := (s.queues.lookup name).getD {}

def setQueue (s : State) (name : String) (q : JobQueue (Job Snippet)) : State :=
  { s with queues := (name, q) :: s.queues.filter (·.1 ≠ name) }

/-! ### Descriptions -/

/-- The outside view of an engine error, and the value that stands for it. -/
def describeError (s : State) (target : Option String) (error : EngineError) : Begun :=
  let display := s.engine.displayError error
  let message := s.engine.errorMessage error
  let (v, e) := s.engine.errorValue error
  let s := (s.setEngine e).bindTarget target v
  s.answer
    (.errorDescription { display, message, name := error.constructorName, value := s.renderTop v })

/-- The outside view of a failure. -/
def describeFailure (s : State) (failure : Failure) : Begun :=
  let message := s.engine.failureMessage failure
  let error := failure.toEngineError
  let (v, e) := s.engine.failureValue failure
  let s := s.setEngine e
  s.answer (.failureDescription
    { message
      thrown := failure.thrown?.map s.render
      value := s.render v
      error
      errorMessage := s.engine.errorMessage error
      display := s.engine.displayError error
      name := error.constructorName })

/-- The reaction bookkeeping of a promise. -/
def inspect (s : State) (p : PromiseRef) : Inspection :=
  let r := s.engine.promise p
  { id := r.id
    resolved := r.resolved
    handled := r.handled
    onFulfilled := r.onFulfilled.length
    onRejected := r.onRejected.length
    following := r.following.map fun q => (s.engine.promise q).id }

/-! ### All actions -/

/-- Begin an action. -/
def beginAction (s : State) (target : Option String) : Action → Begun
  -- values
  | .evaluate v => s.onValue v fun s v => s.bound target v
  | .text v => s.onValue v fun s v => s.answerText (s.engine.text? v)
  | .debugText v => s.onValue v fun s v => s.answerText (s.engine.debugText? v)
  | .same a b => s.onValue a fun s a => s.onValue b fun s b => s.answer (.truth (a.same b))
  | .property v key => s.onValue v fun s v =>
    match s.engine.property? v key with
    | some w => s.bound target w
    | none => s.answer .missing
  | .setProperty of key v => s.onValue of fun s o => s.onValue v fun s v =>
    match o with
    | .object o => .op s (.setProperty o key v)
    | _ => s.misuse "not an object"
  | .elements v => s.onValue v fun s v =>
    s.answer (.list ((s.engine.elements? v).map fun vs => vs.map s.render))
  | .iteratorParts v => s.onValue v fun s v =>
    s.answer (.iteratorParts ((s.engine.iteratorParts? v).map fun (w, done) => (s.render w, done)))
  | .errorInfo v => s.onValue v fun s v =>
    s.answer (.errorInfo (s.engine.isError v) (s.engine.errorName? v))
  | .call f args => s.onFunction f fun s f => s.onList args fun s args => .op s (.call f args)
  -- errors and completions
  | .describeError error => s.onError error fun s error => s.describeError target error
  | .describeFailure error isThrown => s.onError error fun s error =>
    match isThrown, error with
    | true, .thrown v => s.describeFailure (.thrown v)
    | _, error => s.describeFailure (.engine error)
  | .describeCompletion kind v => s.onValue v fun s v =>
    s.answer (.completion ⟨kind, v⟩ (s.render v))
  -- frames of the session
  | .newFrame name frame => s.onFrame frame fun s f => (s.setFrame name f).answer .ok
  | .resumeFrame name kind v => s.onValue v fun s v =>
    match s.frames.lookup name with
    | some f => .op s (.resumeFrame f ⟨kind, v⟩)
    | none => s.misuse "no such frame"
  -- generators
  | .newGenerator frame => s.onFrame frame fun s f => .op s (.newGenerator f)
  | .advanceGenerator kind g v => s.onGenerator g fun s g => s.onValue v fun s v =>
    .op s (.advanceGenerator g ⟨kind, v⟩)
  | .stepGenerator g kind v => s.onGenerator g fun s g => s.onValue v fun s v =>
    .op s (.stepGenerator g ⟨kind, v⟩)
  | .closeGenerator g => s.onGenerator g fun s g => .op s (.closeGenerator g)
  | .dropFrame g => s.onGenerator g fun s g => .op s (.dropFrame g)
  | .generatorMethod receiver method args => s.onValue receiver fun s receiver =>
    s.onList args fun s args => .op s (.generatorMethod receiver method args)
  -- async generators and async functions
  | .newAsyncGenerator frame => s.onFrame frame fun s f => .op s (.newAsyncGenerator f)
  | .request g kind v => s.onAsyncGenerator g fun s g => s.onValue v fun s v =>
    .op s (.request g ⟨kind, v⟩)
  | .innerGenerator g => s.onAsyncGenerator g fun s g =>
    s.bound target (.generator (s.engine.asyncGenerator g).inner)
  | .asyncGeneratorMethod receiver method args => s.onValue receiver fun s receiver =>
    s.onList args fun s args => .op s (.asyncGeneratorMethod receiver method args)
  | .startAsync frame => s.onFrame frame fun s f => .op s (.startAsync f)
  -- promises
  | .newPromise => .op s .newPromise
  | .resolve p v => s.onPromise p fun s p => s.onValue v fun s v => .op s (.resolve p v)
  | .fulfill p v => s.onPromise p fun s p => s.onValue v fun s v => .op s (.fulfill p v)
  | .reject p v => s.onPromise p fun s p => s.onValue v fun s v => .op s (.reject p v)
  | .promiseOf v => s.onValue v fun s v => .op s (.promiseOf v)
  | .rejectedPromise v => s.onValue v fun s v => .op s (.rejectedPromise v)
  | .newCapability _ _ => .op s .newCapability
  | .resolvingFunctions p _ _ => s.onPromise p fun s p => .op s (.resolvingFunctions p)
  | .construct executor => s.onFunction executor fun s f => .op s (.construct f)
  | .promiseThen p f g => s.onPromise p fun s p => s.onHandler f fun s f =>
    s.onHandler g fun s g => .op s (.promiseThen p f g)
  | .promiseCatch p g => s.onPromise p fun s p => s.onHandler g fun s g =>
    .op s (.promiseCatch p g)
  | .promiseFinally p f => s.onPromise p fun s p => s.onHandler f fun s f =>
    .op s (.promiseFinally p f)
  | .performThen p f g capability => s.onPromise p fun s p => s.onHandler f fun s f =>
    s.onHandler g fun s g => s.onValue capability fun s c =>
      .op s (.performThen p f g c.asPromise?)
  | .collect c items => s.onList items fun s vs => .op s (.collect c vs)
  | .race items => s.onList items fun s vs => .op s (.race vs)
  | .promiseMethod receiver method args => s.onValue receiver fun s receiver =>
    s.onList args fun s args => .op s (.promiseMethod receiver method args)
  | .promiseFunction method args => s.onList args fun s args => .op s (.promiseFunction method args)
  | .await v f g => s.onValue v fun s v => s.onHandler f fun s f => s.onHandler g fun s g =>
    .op s (.await v (.relay f) (.relay g))
  | .inspect p => s.onPromise p fun s p => s.answer (.inspection (s.inspect p))
  -- unhandled rejections
  | .setPolicy policy => .op s (.setPolicy policy)
  | .getPolicy => s.answer (.policy s.engine.policy)
  | .takeReported => .op s .takeReported
  | .reset => .op s .reset
  -- jobs
  | .enqueue label body quiet => .op s (.enqueue (.callback label (.job label body quiet)))
  | .runJobs => .op s .runJobs
  | .setLimit limit => .op s (.setLimit limit)
  | .clearJobs => .op s .clearJobs
  | .queueState => s.answer (.queueState s.engine.jobs.length s.engine.jobs.total)
  | .popJob _ => .op s .popJob
  | .detachedEnqueue name label body quiet =>
    let q := s.queue name
    (s.setQueue name (q.enqueue (.callback label (.job label body quiet)))).answer (.count q.nextId)
  | .detachedPop name run =>
    match (s.queue name).pop? with
    | some ((id, job), q) =>
      let reply := Reply.job (some (id, s.engine.describeJob job))
      let s := s.setQueue name q
      if run then (s.setEngine (s.engine.enqueue job)).answer reply else s.answer reply
    | none => s.answer (.job none)
  | .detachedClear name => (s.setQueue name (s.queue name).clear).answer .ok
  | .detachedState name =>
    let q := s.queue name
    s.answer (.queueState q.length q.total)
  -- control
  | .repeatSteps rounds steps => .loop rounds steps

/-! ## Taking answers -/

/-- Take a job that came off the engine's queue to its destination. -/
def placeJob (s : State) (job : Job Snippet) : Destination → State
  | .dropped => s
  | .requeued => s.setEngine (s.engine.enqueue job)
  | .detached name => s.setQueue name ((s.queue name).enqueue job)

/-- The result of an action that the engine has answered. -/
def takeAnswer (s : State) (action : Action) (target : Option String) :
    Answer Snippet → State × Result
  | .done =>
    match action with
    | .setLimit limit => (s, ⟨.limit limit, none⟩)
    | _ => (s, ⟨.ok, none⟩)
  | .value (.ok v) => s.valueResult target v
  | .value (.error failure) => (s, s.failureResult failure)
  | .outcome (.ok o) => (s, ⟨.outcome o (s.render o.value) none, none⟩)
  | .outcome (.error error) => (s, s.failureResult (.engine error))
  | .stopped o f =>
    let s := match action with
      | .resumeFrame name _ _ => s.setFrame name f
      | _ => s
    let finished := match f with
      | .script f => some f.finished
      | _ => none
    (s, ⟨.outcome o (s.render o.value) finished, none⟩)
  | .resolving p onResolve onReject =>
    match action with
    | .newCapability resolveName rejectName =>
      (((s.bindTarget target (.promise p)).bindTarget resolveName (.function onResolve)).bindTarget
        rejectName (.function onReject), ⟨.ok, none⟩)
    | .resolvingFunctions _ resolveName rejectName =>
      ((s.bindTarget resolveName (.function onResolve)).bindTarget rejectName (.function onReject),
        ⟨.ok, none⟩)
    | _ => (s, ⟨.ok, none⟩)
  | .drained (.ok n) => (s, ⟨.count n, none⟩)
  | .drained (.error error) => (s, s.failureResult (.engine error))
  | .reasons vs => (s, ⟨.list (some (vs.map s.render)), none⟩)
  | .job none => (s, ⟨.job none, none⟩)
  | .job (some (id, job)) =>
    let reply := Reply.job (some (id, s.engine.describeJob job))
    let s := match action with
      | .popJob destination => s.placeJob job destination
      | _ => s
    (s, ⟨reply, none⟩)

end Microtask.Session.State
