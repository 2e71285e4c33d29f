import Microtask.Proofs.Effect

/-!
# What a move is about

The promises that a move may settle or makes means of settling for, the request
that it makes, the steps of generators that it may begin or end, and what it does by
itself to the job queue and to the records of rejections, its `Chore`.
`Rights.Covers` says that this is within some rights.
-/

namespace Microtask

variable {H : Type}

/-! ## What a move may settle -/

/-- The promises that running a piece of code may settle, among those that exist. -/
def Code.targets (e : Engine H) : Code H → List PromiseRef
  | .resolve p | .reject p | .wake (.body _ p) _ => [p]
  | .report t i _ => if (e.tally t).accepts i then [(e.tally t).result] else []
  | _ => []

/-- The tally that running a piece of code may count down. -/
def Code.tally? : Code H → Option TallyRef
  | .report t _ _ => some t
  | _ => none

/-- The tally that the machine may count down next. -/
def Control.tally? (e : Engine H) : Control H → Option TallyRef
  | .call f _ _ => (e.callable f).code.tally?
  | _ => none

def Purpose.targets : Purpose H → List PromiseRef
  | .body p _ _ => [p]
  | _ => []

def Stepper.targets : Stepper H → List PromiseRef
  | .generator _ purpose => purpose.targets
  | .host _ => []

def Caller.targets : Caller H → List PromiseRef
  | .reaction capability _ => capability.toList
  | .executor p _ => [p]
  | _ => []

/-- A reaction without a handler settles its capability at once. -/
def Job.targets : Job H → List PromiseRef
  | .reaction ⟨_, none, capability⟩ _ => capability.toList
  | _ => []

def Control.targets (e : Engine H) : Control H → List PromiseRef
  | .call f _ _ => if (e.callable f).usage = .spent then [] else (e.callable f).code.targets e
  | .deliver _ k => k.targets
  | .resume _ _ s | .run _ s => s.targets
  | .drain (.loop limit executed _) =>
    if e.limitReached limit executed then []
    else (e.jobs.pop?.map fun next => next.1.2.targets).getD []
  | .host _ _ | .serve _ _ _ => []

namespace Op

/-- The promises that an operation settles by itself. -/
def targets : Op H → List PromiseRef
  | .resolve p _ | .fulfill p _ | .reject p _ => [p]
  | _ => []

/-- The promises that an operation makes means of settling for. -/
def entrusts : Op H → List PromiseRef
  | .resolvingFunctions p => [p]
  | .performThen _ _ _ capability => capability.toList
  | _ => []

/-- Whether an operation drops the jobs that wait. -/
def clears : Op H → Bool
  | .clearJobs | .reset => true
  | _ => false

/-- The object that an operation changes. -/
def writes : Op H → List ObjectRef
  | .setProperty o _ _ => [o]
  | _ => []

/-- The completion that an operation asks an async generator to process. -/
def request? : Op H → Option (AsyncGeneratorRef × Completion)
  | .request a c => some (a, c)
  | .asyncGeneratorMethod (.asyncGenerator a) method args =>
    (Engine.methodCompletion? method (Value.argument args 0)).map (a, ·)
  | _ => none

end Op

namespace Move

def settles : Move H → List PromiseRef
  | .perform op => op.targets
  | _ => []

def entrusts : Move H → List PromiseRef
  | .perform op => op.entrusts
  | _ => []

def clears : Move H → Bool
  | .perform op => op.clears
  | _ => false

def request? : Move H → Option (AsyncGeneratorRef × Completion)
  | .perform op => op.request?
  | _ => none

/-- The functions that the host calls, or has called later. -/
def functions : Move H → List FunctionRef
  | .perform op => op.functions
  | _ => []

/-- The object that the host changes. -/
def writes : Move H → List ObjectRef
  | .perform op => op.writes
  | _ => []

end Move

namespace World

def ledger (w : World H) (issued : List (AsyncGeneratorRef × Request)) : Ledger H :=
  w.config.ledger w.held issued

/-- The promises that a move may settle, among those that exist. -/
def targets (w : World H) : Move H → List PromiseRef
  | .tick => w.config.control.targets w.config.engine
  | .perform op => op.targets
  | .finishFrame _ _ =>
    match w.config.control with
    | .host (.frame s) _ => s.targets
    | _ => []
  | _ => []

end World

/-! ## The steps of generators that a move begins or ends -/

/-- The duty that a step of the generator is for, if it is for any. -/
def Purpose.duty? (g : GeneratorRef) : Purpose H → Option Duty
  | .outcome _ | .iterator _ => none
  | .serving a r _ _ => some (.serve a r)
  | .body p _ _ => some (.body g p)

/-- The step that a waiter may go on with. One that waits for a final result only moves
the duty. -/
def Waiter.drives (e : Engine H) : Waiter H → List (GeneratorRef × Option Duty)
  | .yielding a r | .awaiting a r | .returning a r =>
    [((e.asyncGenerator a).inner, some (.serve a r))]
  | .body g p => [(g, some (.body g p))]
  | .host _ _ => []

def Code.drives (e : Engine H) : Code H → List (GeneratorRef × Option Duty)
  | .wake w _ => w.drives e
  | _ => []

def Stepper.drives : Stepper H → List (GeneratorRef × Option Duty)
  | .host _ => []
  | .generator g purpose => [(g, purpose.duty? g)]

/-- The step that the next request of an async generator asks for, if there is one. -/
def AsyncGenerator.drives (a : AsyncGeneratorRef) (r : AsyncGenerator) :
    List (GeneratorRef × Option Duty) :=
  (r.queue.head?.map fun next => (r.inner, some (.serve a next))).toList

def Control.drives (e : Engine H) : Control H → List (GeneratorRef × Option Duty)
  | .call f _ _ => (e.callable f).code.drives e
  | .resume _ _ s | .run _ s => s.drives
  | .serve a _ _ => (e.asyncGenerator a).drives a
  | .host _ _ | .deliver _ _ | .drain _ => []

/-- A generator is resumed for the next request only. -/
theorem Engine.takeRequest_resume {e : Engine H} {a : AsyncGeneratorRef} {e' : Engine H} {inner : GeneratorRef}
    {r : Request} (h : e.takeRequest a = (e', .resume inner r)) :
    (inner, some (.serve a r)) ∈ (e.asyncGenerator a).drives a := by
  unfold Engine.takeRequest at h
  dsimp only at h
  split at h
  · cases h
  · split at h
    · cases h
    · next hq =>
      split at h
      · cases h
      · cases h
      · cases h
      · cases h
        simp [AsyncGenerator.drives, hq]

namespace Op

/-- The steps that an operation begins, with those of the generators that it
finishes. An async function is started with a first step of its body. -/
def drives (e : Engine H) : Op H → List (GeneratorRef × Option Duty)
  | .stepGenerator g _ | .advanceGenerator g _ | .closeGenerator g | .dropFrame g
  | .generatorMethod (.generator g) _ _ => [(g, none)]
  | .startAsync _ =>
    [(⟨e.generators.size⟩, some (.body ⟨e.generators.size⟩ ⟨e.promises.size⟩))]
  | _ => []

end Op

namespace World

/-- The steps of generators that a move may begin or end, each with the duty that it
is for. -/
def drives (w : World H) : Move H → List (GeneratorRef × Option Duty)
  | .tick => w.config.control.drives w.config.engine
  | .perform op => op.drives w.config.engine
  | .finishFrame _ _ =>
    match w.config.control with
    | .host (.frame s) _ => s.drives
    | _ => []
  | _ => []

end World

/-! ## What a move does about jobs and rejections -/

/-- What a move does to the job queue or to the records of rejections by itself,
before anything else happens. -/
inductive Chore (H : Type) where
  | nothing
  /-- Take the first job off the queue, if there is one. -/
  | next
  /-- Report the rejections that nobody handled. -/
  | report
  /-- Hand over the reasons that were reported. -/
  | handOver
  | put (j : Job H)
  | clear
  | reset

def Op.chore : Op H → Chore H
  | .takeReported => .handOver
  | .enqueue j => .put j
  | .clearJobs => .clear
  | .popJob => .next
  | .reset => .reset
  | _ => .nothing

/-- A drain takes a job or, if none is left, reports. -/
def World.chore (w : World H) : Move H → Chore H
  | .tick =>
    match w.config.control with
    | .drain (.loop limit executed _) =>
      if w.config.engine.limitReached limit executed then .nothing
      else
        match w.config.engine.jobs.pop? with
        | some _ => .next
        | none => .report
    | _ => .nothing
  | .perform op => op.chore
  | _ => .nothing

/-- A tick has a chore only in a round of a drain. -/
theorem World.chore_tick (w : World H) :
    w.chore .tick = .nothing ∨ w.chore .tick = .next ∨ w.chore .tick = .report := by
  simp only [chore]
  split
  · split
    · exact .inl rfl
    · split
      · exact .inr (.inl rfl)
      · exact .inr (.inr rfl)
  · exact .inl rfl

/-- Only the host drops the jobs that wait. -/
theorem World.chore_ne_clear {w : World H} {m : Move H} (hm : m ≠ .perform .clearJobs) :
    w.chore m ≠ .clear := by
  cases m with
  | tick => obtain h | h | h := w.chore_tick <;> rw [h] <;> rintro ⟨⟩
  | perform op =>
    cases op with
    | clearJobs => exact absurd rfl hm
    | _ => rintro ⟨⟩
  | _ => rintro ⟨⟩

theorem World.chore_ne_reset {w : World H} {m : Move H} (hm : m ≠ .perform .reset) :
    w.chore m ≠ .reset := by
  cases m with
  | tick => obtain h | h | h := w.chore_tick <;> rw [h] <;> rintro ⟨⟩
  | perform op =>
    cases op with
    | reset => exact absurd rfl hm
    | _ => rintro ⟨⟩
  | _ => rintro ⟨⟩

namespace Chore

/-- The engine after a chore. -/
def apply (e : Engine H) : Chore H → Engine H
  | nothing => e
  | next =>
    match e.jobs.pop? with
    | some (_, jobs) => { e with jobs }
    | none => e
  | report => e.reportUnhandled
  | handOver => e.takeReported.2
  | put j => e.enqueue j
  | clear => { e with jobs := e.jobs.clear }
  | reset => e.reset

/-- The jobs that a chore takes off the queue. -/
def takes (e : Engine H) : Chore H → List (Job H)
  | next => (e.jobs.pop?.map (·.1.2)).toList
  | _ => []

end Chore

/-! ## Requests and rights -/

namespace Op

/-- The requests that have been made after an operation. Its own one gets a new
promise for an answer. -/
def issued (e : Engine H) (before : List (AsyncGeneratorRef × Request)) (op : Op H) :
    List (AsyncGeneratorRef × Request) :=
  match op.request? with
  | some (a, c) => before ++ [(a, ⟨c, e.newPromise.1⟩)]
  | none => before

end Op

/-- The requests that have been made after a move. -/
def World.issued (w : World H) (before : List (AsyncGeneratorRef × Request)) :
    Move H → List (AsyncGeneratorRef × Request)
  | .perform op => op.issued w.config.engine before
  | _ => before

/-- Only a request is added to those that have been made. -/
theorem World.issued_eq {m : Move H} (hm : m.request? = none) (w : World H)
    (issued : List (AsyncGeneratorRef × Request)) : w.issued issued m = issued := by
  cases m with
  | perform op =>
    have hop : op.request? = none := hm
    simp only [World.issued, Op.issued, hop]
  | _ => rfl

theorem World.subset_issued (w : World H) (m : Move H)
    (issued : List (AsyncGeneratorRef × Request)) : issued ⊆ w.issued issued m := by
  cases m with
  | perform op =>
    simp only [World.issued, Op.issued]
    split
    · exact List.subset_append_left _ _
    · exact List.Subset.refl _
  | _ => exact List.Subset.refl _

/-- The requests that have been made in the course of some events, in order. -/
def requestsIn : List (Event H) → List (AsyncGeneratorRef × Request)
  | [] => []
  | ev :: es => ev.before.issued (requestsIn es) ev.move

/-- The rights cover what a move settles, what it makes means of settling for, the
request that it makes, what it does to the job queue, the steps of generators that it
begins or ends with their duties, that it may lose everything, the functions that it may
have called later, the object that it changes, and the tally that it counts down. -/
structure Rights.Covers (R : Rights) (w : World H) (m : Move H) : Prop where
  fresh : R.Fresh w.config.engine
  targets : ∀ p ∈ w.targets m, R.May w.config.engine p
  entrusted : ∀ p ∈ m.entrusts, R.entrusted p
  request : m.request?.isSome = true → R.request
  manage : w.chore m ≠ .nothing → R.manage
  drive : ∀ x ∈ w.drives m, R.Carries x
  abandon : m = .abandon → R.abandon
  attach : ∀ f ∈ m.functions, R.attach f
  write : ∀ o ∈ m.writes, R.write o
  count : ∀ t ∈ w.config.control.tally? w.config.engine, R.count t
  spend : ∀ f ∈ w.config.control.callee?, R.spend f

theorem Rights.all_covers (w : World H) (m : Move H) : Rights.all.Covers w m where
  fresh := ⟨fun _ _ => trivial, fun _ _ => trivial, fun _ _ => trivial⟩
  targets _ _ _ := trivial
  entrusted _ _ := trivial
  request _ := trivial
  manage _ := trivial
  drive _ _ := ⟨trivial, fun _ _ => trivial⟩
  abandon _ := trivial
  attach _ _ := trivial
  write _ _ := trivial
  count _ _ := trivial
  spend _ _ := trivial

end Microtask
