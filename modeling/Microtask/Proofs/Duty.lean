import Microtask.Proofs.Access
import Microtask.Proofs.Run

/-!
# Duties

What the engine still has to do once something else has happened: pass the
settlement of an adopted promise on, go on with a request or an async function
after an await, settle a promise with the result of a function that is running.

A duty sits in a callback that the engine made (`Code.engagement?`), and with it
in the reactions and jobs that carry the callback, or on the control stack
(`Control.duties`). `Ledger` is the part of a world that duties are about.
-/

namespace Microtask

variable {H : Type}

inductive Duty where
  /-- Settle the promise like the one that it adopts. -/
  | adopt (p : PromiseRef)
  /-- Answer the request. -/
  | serve (a : AsyncGeneratorRef) (r : Request)
  /-- Settle the promise of an async function whose body is the generator. -/
  | body (g : GeneratorRef) (result : PromiseRef)
  /-- Settle the capability of a reaction that is running. -/
  | result (p : PromiseRef)
  /-- Settle the promise whose executor is running. -/
  | construct (p : PromiseRef)
  deriving DecidableEq, Repr

/-- The duty is what a step of a generator is for. -/
def Duty.OfStep : Duty → Prop
  | .serve _ _ | .body _ _ => True
  | .adopt _ | .result _ | .construct _ => False

/-! ## Callbacks with a duty -/

/-- The duty of whoever waits; the host has none. -/
def Waiter.duty? : Waiter H → Option Duty
  | .yielding a r | .awaiting a r | .returning a r => some (.serve a r)
  | .body g p => some (.body g p)
  | .host _ _ => none

/-- The duty that a piece of code fulfills, and the way of settling it is for. -/
def Code.engagement? : Code H → Option (Duty × Settling)
  | .adopt p kind => some (.adopt p, kind)
  | .wake w kind => w.duty?.map (·, kind)
  | _ => none

namespace Engine

/-- The engagement of a function. -/
def engagement? (e : Engine H) (f : FunctionRef) : Option (Duty × Settling) :=
  (e.callable f).code.engagement?

/-- A callback of whoever waits is engaged for their duty. -/
theorem engagement?_of_wake {e : Engine H} {f : FunctionRef} {waiter : Waiter H} {kind : Settling}
    {d : Duty} (hcode : (e.callable f).code = .wake waiter kind) (hd : waiter.duty? = some d) :
    e.engagement? f = some (d, kind) := by
  rw [engagement?, hcode, Code.engagement?, hd]
  rfl

/-- A callback of an adoption is engaged for it. -/
theorem engagement?_of_adopt {e : Engine H} {f : FunctionRef} {p : PromiseRef} {kind : Settling}
    (hcode : (e.callable f).code = .adopt p kind) : e.engagement? f = some (.adopt p, kind) := by
  rw [engagement?, hcode]
  rfl

/-- The duty of a reaction: that of its handler. -/
def reactionDuty? (e : Engine H) (r : Reaction) : Option Duty :=
  r.handler.bind fun f => (e.engagement? f).map (·.1)

def jobDuty? (e : Engine H) : Job H → Option Duty
  | .reaction r _ => e.reactionDuty? r
  | .adoption p _ => some (.adopt p)
  | .callback _ _ => none

/-- A function that exists and has no duty. -/
structure Plain (e : Engine H) (f : FunctionRef) : Prop where
  allocated : f.index < e.callables.size
  free : e.engagement? f = none

def PlainHandler (e : Engine H) (handler : Option FunctionRef) : Prop := ∀ f ∈ handler, e.Plain f

theorem Plain.of_isPublic {e : Engine H} {f : FunctionRef}
    (h : (e.callable f).code.isPublic = true) : e.Plain f := by
  refine ⟨?_, ?_⟩
  · -- an unused cell of the store holds a function that is not public
    refine Nat.lt_of_not_le fun hle => ?_
    rw [callable, Store.get_of_size_le hle] at h
    cases h
  · rw [engagement?]
    cases hc : (e.callable f).code <;> simp [hc, Code.isPublic] at h <;> rfl

end Engine

/-! ## Duties on the control stack -/

mutual

def Caller.duties : Caller H → List Duty
  | .host h => h.duties
  | .reaction capability d => capability.toList.map .result ++ d.duties
  | .executor p h => .construct p :: h.duties
  | .finalizer _ _ k => k.duties
  | .discarding k => k.duties

def Stepper.duties : Stepper H → List Duty
  | .host h => h.duties
  | .generator g purpose => purpose.duties g

/-- The duties of a step of the given generator and of those that wait for it. -/
def Purpose.duties (g : GeneratorRef) : Purpose H → List Duty
  | .outcome h | .iterator h => h.duties
  | .serving a r _ k => .serve a r :: k.duties
  | .body p _ k => .body g p :: k.duties

def Activation.duties : Activation H → List Duty
  | .main => []
  | .function k => k.duties
  | .frame s => s.duties
  | .job _ d => d.duties

def Drain.duties : Drain H → List Duty
  | .loop _ _ h => h.duties

end

namespace Control

def duties : Control H → List Duty
  | .host h _ => h.duties
  | .call _ _ k | .deliver _ k | .serve _ _ k => k.duties
  | .resume _ _ s | .run _ s => s.duties
  | .drain d => d.duties

/-- The async generator whose queue is being looked at. -/
def serving? : Control H → Option AsyncGeneratorRef
  | .serve a _ _ => some a
  | _ => none

/-- The function that is being called. -/
def callee? : Control H → Option FunctionRef
  | .call f _ _ => some f
  | _ => none

/-- The function with a duty that is being called. -/
def called? (e : Engine H) : Control H → Option FunctionRef
  | .call f _ _ => if (e.engagement? f).isSome then some f else none
  | _ => none

theorem called?_call {e : Engine H} {f : FunctionRef} {x : Duty × Settling}
    (h : e.engagement? f = some x) (args : List Value) (k : Caller H) :
    (Control.call f args k).called? e = some f := by
  rw [called?, h]
  rfl

theorem called?_of_callee {c : Control H} (h : c.callee? = none) (e : Engine H) :
    c.called? e = none := by
  cases c with
  | call f args k => cases h
  | _ => rfl

end Control

/-! ## Ledgers -/

/-- The engine together with the duties that are on their way, and the requests
that have been made, in order. -/
structure Ledger (H : Type) where
  engine : Engine H
  /-- The jobs that the host has taken off the queue. -/
  held : List (Job H) := []
  /-- A function with a duty that is being called. -/
  called : Option FunctionRef := none
  /-- The duties on the control stack, innermost first. -/
  stack : List Duty := []
  /-- An async generator whose queue is being looked at. -/
  serving : Option AsyncGeneratorRef := none
  issued : List (AsyncGeneratorRef × Request) := []

def Config.ledger (c : Config H) (held : List (Job H)) (issued : List (AsyncGeneratorRef × Request)) :
    Ledger H where
  engine := c.engine
  held := held
  called := c.control.called? c.engine
  stack := c.control.duties
  serving := c.control.serving?
  issued := issued

namespace Ledger

/-- The jobs that are still to be run. -/
def jobs (l : Ledger H) : List (Job H) := l.engine.waitingJobs ++ l.held

/-- The jobs after the engine has enqueued some. -/
theorem mem_jobs_append {l : Ledger H} {e' : Engine H} {js : List (Job H)}
    (hw : e'.waitingJobs = l.engine.waitingJobs ++ js) {j : Job H}
    (hj : j ∈ ({ l with engine := e' } : Ledger H).jobs) : j ∈ l.jobs ∨ j ∈ js := by
  simp only [jobs, hw, List.mem_append] at hj ⊢
  rcases hj with (hj | hj) | hj
  · exact .inl (.inl hj)
  · exact .inr hj
  · exact .inl (.inr hj)

/-- The jobs before the next one is taken off the queue. -/
theorem jobs_pop {l : Ledger H} {id : Nat} {j : Job H} {jobs : JobQueue (Job H)}
    (hpop : l.engine.jobs.pop? = some ((id, j), jobs)) :
    l.jobs = j :: (({ l.engine with jobs } : Engine H).waitingJobs ++ l.held) := by
  rw [Ledger.jobs, Engine.waitingJobs_pop hpop, List.cons_append]

/-- The host takes a job off the queue. -/
theorem jobs_takeOff {l : Ledger H} {id : Nat} {j : Job H} {jobs : JobQueue (Job H)}
    (hpop : l.engine.jobs.pop? = some ((id, j), jobs)) :
    ({ l with engine := { l.engine with jobs }, held := j :: l.held } : Ledger H).jobs.Perm
      l.jobs := by
  rw [jobs_pop hpop]
  exact List.perm_middle

/-- The host puts one of its jobs back. -/
theorem jobs_putBack {l : Ledger H} {before after : List (Job H)} {j : Job H}
    (hh : l.held = before ++ j :: after) :
    ({ l with engine := l.engine.enqueue j, held := before ++ after } : Ledger H).jobs.Perm
      l.jobs := by
  simp only [jobs, Engine.waitingJobs_enqueue, hh, List.append_assoc, List.singleton_append]
  exact List.perm_middle.symm.append_left _

end Ledger

end Microtask
