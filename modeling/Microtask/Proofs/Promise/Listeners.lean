import Microtask.Proofs.Calls
import Microtask.Proofs.Continuations
import Microtask.Proofs.Places
import Microtask.Proofs.Promise.Lifecycle
import Microtask.Proofs.Promise.Reactions

/-!
# Listeners

A `Listener` is a pair of callbacks that the engine has attached to a promise for itself, and
that nobody else has called or called later. What happens to it has four stages
(`World.Attends`): its reactions wait in the promise, its job waits in the queue, its callback
is being called, its callback has been called. Every step keeps a listener in its stage or
takes it to the next one (`Step.attends`), so when no job is left, the callback of a promise
that has settled has been called (`World.Attends.called_of_idle`).

Conversely the callbacks are called for nothing else, if the host leaves them alone: whenever
one of them is called, it is called with what the promise of a listener has been settled with
(`Step.confines`, and `Steps.confines` for all that has happened).
-/

namespace Microtask

variable {H : Type}

/-- A pair of callbacks on a promise. -/
structure Listener where
  input : PromiseRef
  onFulfilled : FunctionRef
  onRejected : FunctionRef
  deriving DecidableEq

namespace Listener

variable (x : Listener) (kind : Settling) (v : Value)

def registration : Registration := ⟨some x.onFulfilled, some x.onRejected, none⟩

/-- The callback for a way of settling. -/
def handler : Settling → FunctionRef
  | .fulfill => x.onFulfilled
  | .reject => x.onRejected

def reaction : Reaction := x.registration.reaction kind

def job : Job H := x.registration.job kind v

theorem reaction_eq : x.reaction kind = ⟨kind, some (x.handler kind), none⟩ := by cases kind <;> rfl

theorem job_eq : (x.job kind v : Job H) = .reaction (x.reaction kind) v := rfl

end Listener

/-! ## Stages -/

namespace Engine

/-- Both reactions of the registration wait in the promise. -/
structure Stores (e : Engine H) (p : PromiseRef) (r : Registration) : Prop where
  pending : (e.promise p).state = .pending
  reactions : ∀ kind, r.reaction kind ∈ (e.promise p).reactions kind

/-- The promise has been settled, and the job for that waits in the queue. -/
def Dispatches (e : Engine H) (p : PromiseRef) (r : Registration) : Prop :=
  ∃ kind v, (e.promise p).state = kind.state v ∧ r.job kind v ∈ e.waitingJobs

/-- Both reactions of the listener wait in its promise. -/
structure Listens (e : Engine H) (x : Listener) : Prop where
  pending : (e.promise x.input).state = .pending
  reactions : ∀ kind, x.reaction kind ∈ (e.promise x.input).reactions kind

/-- The promise of the listener has been settled, and the job for that waits in the queue. -/
def Notifies (e : Engine H) (x : Listener) : Prop :=
  ∃ kind v, (e.promise x.input).state = kind.state v ∧ x.job kind v ∈ e.waitingJobs

variable {e e' : Engine H} {p : PromiseRef} {r : Registration} {x : Listener}

theorem listens_iff : e.Listens x ↔ e.Stores x.input x.registration :=
  ⟨fun h => ⟨h.pending, h.reactions⟩, fun h => ⟨h.pending, h.reactions⟩⟩

theorem Stores.of_eq (h : e.Stores p r) (hstate : (e'.promise p).state = (e.promise p).state)
    (hreactions : ∀ kind, (e'.promise p).reactions kind = (e.promise p).reactions kind) :
    e'.Stores p r :=
  ⟨hstate.trans h.pending, fun kind => hreactions kind ▸ h.reactions kind⟩

/-- A registration waits, or its job does. -/
theorem registered_performThen (e : Engine H) (p : PromiseRef) (r : Registration) :
    (e.performThen p r.onFulfilled r.onRejected r.capability).Stores p r ∨
      (e.performThen p r.onFulfilled r.onRejected r.capability).Dispatches p r := by
  have hstate := read_performThen e p r.onFulfilled r.onRejected r.capability Promise.state
    (fun _ _ _ => rfl) p
  have hself := promise_performThen e p r.onFulfilled r.onRejected r.capability p
  rw [if_pos rfl] at hself
  rcases (e.promise p).state.cases_settled with hs | ⟨kind, v, hs⟩
  · refine .inl ⟨hstate.trans hs, fun kind => ?_⟩
    rw [hself, Promise.reactions_attach hs]
    exact List.mem_append_right _ (List.mem_singleton_self _)
  · refine .inr ⟨kind, v, hstate.trans hs, ?_⟩
    rw [waitingJobs_performThen, Promise.attachJobs_settled hs]
    exact List.mem_append_right _ (List.mem_singleton_self _)

theorem Happens.stores {hap : Happening} (hh : e.Happens hap e') (h : e.Stores p r) :
    e'.Stores p r ∨ e'.Dispatches p r := by
  cases hh with
  | created =>
    exact .inl (h.of_eq (read_newPromise Promise.state (fun _ => rfl) e _) (reactions_newPromise e _))
  | registered q s =>
    refine .inl ⟨?_, fun kind => ?_⟩
    · exact (read_performThen e q _ _ _ Promise.state (fun _ _ _ => rfl) _).trans h.pending
    · rw [promise_performThen]
      split
      · next hp =>
        rw [← hp, Promise.reactions_attach h.pending]
        exact List.mem_append_left _ (h.reactions kind)
      · exact h.reactions kind
  | @settled q kind v hq =>
    by_cases hp : p = q
    · refine .inr ⟨kind, v, ?_, ?_⟩
      · rw [promise_settleNow hq, if_pos hp]
        rfl
      · rw [waitingJobs_settleNow hq, ← hp]
        exact List.mem_append_right _ (List.mem_map_of_mem (h.reactions kind))
    · refine .inl (h.of_eq ?_ fun kind' => ?_) <;> rw [promise_settleNow hq, if_neg hp]
  | adopted q s =>
    exact .inl (h.of_eq (read_link Promise.state (fun _ _ => rfl) e q s _) (reactions_link e q s _))

/-- A promise that has been settled stays as it is. -/
theorem Happens.settled_state {hap : Happening} (hh : e.Happens hap e') {p : PromiseRef}
    (hp : (e.promise p).state ≠ .pending) : (e'.promise p).state = (e.promise p).state := by
  cases hh with
  | created => exact read_newPromise Promise.state (fun _ => rfl) e p
  | registered q r => exact read_performThen e q _ _ _ Promise.state (fun _ _ _ => rfl) p
  | @settled q kind v hq =>
    rw [promise_settleNow hq, if_neg]
    rintro rfl
    exact hp hq
  | adopted q s => exact read_link Promise.state (fun _ _ => rfl) e q s p

/-- What has been settled and queued stays so, as long as jobs are only added. -/
theorem Happens.dispatches {hap : Happening} (hh : e.Happens hap e') (h : e.Dispatches p r) :
    e'.Dispatches p r := by
  obtain ⟨kind, v, hstate, hjob⟩ := h
  obtain ⟨jobs, hj⟩ := hh.queues
  refine ⟨kind, v, ?_, hj ▸ List.mem_append_left _ hjob⟩
  exact (hh.settled_state (hstate ▸ kind.state_ne_pending v)).trans hstate

theorem Recounted.stores (h : e.Recounted e') (hr : e.Stores p r) :
    e'.Stores p r ∨ e'.Dispatches p r := by
  obtain ⟨new, h⟩ := h
  induction h with
  | refl => exact .inl hr
  | still _ hs ih =>
    rcases ih with ih | ⟨kind, v, hstate, hjob⟩
    · exact .inl (ih.of_eq (hs.state _) (hs.reactions _))
    · exact .inr ⟨kind, v, (hs.state _).trans hstate, hs.waitingJobs ▸ hjob⟩
  | happens _ hh _ ih =>
    rcases ih with ih | ih
    · exact hh.stores ih
    · exact .inr (hh.dispatches ih)

end Engine

/-! ## Jobs on their way -/

section Steps

variable {w w' : World H} {m : Move H} {es : List (Event H)}

/-- Without a chore the host keeps the jobs that it has. -/
theorem Step.held_of_nothing (h : Step w m w') (hm : w.chore m = .nothing) : w'.held = w.held := by
  cases h with
  | @perform e a prompt held op hop =>
    cases op with
    | popJob => cases hm
    | _ => rfl
  | putBack => cases hm
  | _ => rfl

/-- Jobs stay when others are appended. -/
theorem World.mem_jobs_of_append {e : Engine H} {held new : List (Job H)} {j : Job H}
    (hj : j ∈ e.waitingJobs ++ held)
    (happend : w'.config.engine.waitingJobs = e.waitingJobs ++ new) (hheld : w'.held = held) :
    j ∈ w'.jobs := by
  rw [World.jobs, happend, hheld, List.append_assoc]
  rcases List.mem_append.1 hj with hj | hj
  · exact List.mem_append_left _ hj
  · exact List.mem_append_right _ (List.mem_append_right _ hj)

/-- **A job stays until it is run**, if no jobs are dropped. -/
theorem Step.keeps_job (h : Step w m w') (hm : m.clears = false)
    (hbacked : w.config.engine.Backed) {j : Job H} (hj : j ∈ w.jobs) :
    j ∈ w'.jobs ∨ m = .tick ∧ w.takes .tick = [j] := by
  by_cases hc : w.chore m = .nothing
  · left
    obtain ⟨new, hr⟩ := h.recounted hbacked
    rw [hc] at hr
    exact World.mem_jobs_of_append hj hr.waitingJobs (h.held_of_nothing hc)
  · cases h with
    | tick c held =>
      cases hd : c.control with
      | drain d =>
        obtain ⟨hnone, -⟩ | ⟨-, a, n, ht⟩ | ⟨hnext, id, j', jobs, d', hpop, ht⟩ :=
          World.round (w := ⟨c, held⟩) hd
        · exact absurd hnone hc
        · left
          rw [World.jobs, show c.tick = _ from ht]
          exact hj
        · -- the round takes the first job off the queue
          have ht : c.tick = _ := ht
          rw [World.jobs, Engine.waitingJobs_pop hpop] at hj
          rcases List.mem_cons.1 hj with rfl | hj
          · exact .inr ⟨rfl, World.takes_of_pop hnext hpop⟩
          · left
            obtain ⟨new, hr⟩ := Engine.runJob_recounted ({ c.engine with jobs }) id d' j'
            exact World.mem_jobs_of_append hj (ht ▸ hr.waitingJobs) rfl
      | _ => exact absurd (by simp only [World.chore, hd]) hc
    | @perform e a prompt held op hop =>
      left
      cases op with
      | takeReported => exact hj
      | enqueue j' =>
        exact World.mem_jobs_of_append hj (Engine.waitingJobs_enqueue e j') rfl
      | popJob =>
        simp only [World.jobs, Engine.perform, Op.takes]
        cases hpop : e.jobs.pop? with
        | none => exact hj
        | some next =>
          obtain ⟨⟨id, j'⟩, jobs⟩ := next
          rw [World.jobs, Engine.waitingJobs_pop hpop] at hj
          exact List.perm_middle.symm.mem_iff.1 hj
      | clearJobs | reset => cases hm
      | _ => exact absurd rfl hc
    | @putBack e a prompt before after j' =>
      exact .inl ((Ledger.jobs_putBack (l := { engine := e, held := before ++ j' :: after })
        rfl).symm.mem_iff.1 hj)
    | _ => exact absurd rfl hc

/-- **A registration waits until its promise has been settled**, and then its job does. -/
theorem Step.stores (h : Step w m w') (hbacked : w.config.engine.Backed) {p : PromiseRef}
    {r : Registration} (hr : w.config.engine.Stores p r) :
    w'.config.engine.Stores p r ∨ w'.config.engine.Dispatches p r := by
  have hp : ∀ q, ((w.chore m).apply w.config.engine).promise q = w.config.engine.promise q :=
    fun q => by rw [Engine.promise, Engine.promise, Chore.promises_apply]
  exact (h.recounted hbacked).stores (hr.of_eq (by rw [hp]) fun kind => by rw [hp])

/-! ## Stages of a listener -/

/-- A function is called with the arguments in the course of the events. -/
def Called (es : List (Event H)) (f : FunctionRef) (args : List Value) : Prop :=
  ∃ ev ∈ es, ∃ k, ev.before.config.control = .call f args k

theorem Called.later {f : FunctionRef} {args : List Value} (h : Called es f args)
    (ev : Event H) : Called (ev :: es) f args := by
  obtain ⟨ev', hev', hc⟩ := h
  exact ⟨ev', List.mem_cons_of_mem _ hev', hc⟩

/-- The stages of a listener, with the events since it was attached. -/
inductive World.Attends (w : World H) (es : List (Event H)) (x : Listener) : Prop where
  | waiting : w.config.engine.Listens x → Attends w es x
  | queued {kind : Settling} {v : Value} : (w.config.engine.promise x.input).state = kind.state v →
      x.job kind v ∈ w.jobs → Attends w es x
  | calling {kind : Settling} {v : Value} {k : Caller H} :
      (w.config.engine.promise x.input).state = kind.state v →
      w.config.control = .call (x.handler kind) [v] k → Attends w es x
  | called {kind : Settling} {v : Value} : (w.config.engine.promise x.input).state = kind.state v →
      Called es (x.handler kind) [v] → Attends w es x

/-- **A listener stays in its stage or comes to the next one.** -/
theorem Step.attends (h : Step w m w') (hm : m.clears = false) (hw : w.Lawful) {x : Listener}
    (hx : w.Attends es x) : w'.Attends (⟨w, m⟩ :: es) x := by
  cases hx with
  | waiting hx =>
    rcases h.stores hw.1 (Engine.listens_iff.1 hx) with hx | ⟨kind, v, hs, hj⟩
    · exact .waiting (Engine.listens_iff.2 hx)
    · exact .queued hs (List.mem_append_left _ hj)
  | @queued kind v hs hj =>
    rcases h.keeps_job hm hw.1 hj with hj | ⟨rfl, htakes⟩
    · exact .queued (h.keeps_state hw hs) hj
    · obtain ⟨id, d, hrun⟩ := World.tick_takes htakes
      rw [← h.config_tick, x.job_eq, x.reaction_eq] at hrun
      exact .calling (h.keeps_state hw hs) (congrArg Config.control hrun)
  | calling hs hc => exact .called (h.keeps_state hw hs) ⟨_, List.mem_cons_self, _, hc⟩
  | called hs hc => exact .called (h.keeps_state hw hs) (hc.later _)

theorem Steps.attends (h : Steps w es w') (hes : ∀ ev ∈ es, ev.move.clears = false)
    (hw : w.Lawful) {x : Listener} (hx : w.Attends [] x) : w'.Attends es x := by
  induction h with
  | refl => exact hx
  | step h hs ih =>
    obtain ⟨hm, hes⟩ := List.forall_mem_cons.1 hes
    exact hs.attends hm (h.preserve (fun hs hw => (hs.lawful hw).1) hw) (ih hes)

/-- **When no job is left, the callback has been called** that the settlement of the promise is
for. -/
theorem World.Attends.called_of_idle {x : Listener} (h : w.Attends es x)
    (hhost : w.config.atHost = true) (hj : w.jobs = []) {kind : Settling} {v : Value}
    (hs : (w.config.engine.promise x.input).state = kind.state v) :
    Called es (x.handler kind) [v] := by
  cases h with
  | waiting hx => exact absurd (hx.pending.symm.trans hs).symm (kind.state_ne_pending v)
  | queued _ hjob =>
    rw [hj] at hjob
    cases hjob
  | calling _ hc =>
    rw [Config.atHost, hc] at hhost
    cases hhost
  | called hs' hc =>
    obtain ⟨rfl, rfl⟩ := Settling.state_inj (hs'.symm.trans hs)
    exact hc

/-! ## Calls of listeners -/

/-- A callback of the listeners is handed what the promise of one of them has been settled
with. -/
def Engine.Hands (e : Engine H) (xs : List Listener) (f : FunctionRef) (v : Value) : Prop :=
  ∃ x ∈ xs, ∃ kind, x.handler kind = f ∧ (e.promise x.input).state = kind.state v

/-- The functions are kept for the listeners only. -/
structure Ledger.Confines (l : Ledger H) (own : FunctionRef → Prop) (xs : List Listener) :
    Prop where
  plain : ∀ f, own f → l.engine.Plain f
  reaction : ∀ q kind, ∀ r ∈ (l.engine.promise q).reactions kind, ∀ f, r.handler = some f →
    own f → ∃ x ∈ xs, x.input = q ∧ x.handler kind = f
  job : ∀ r v, .reaction r v ∈ l.jobs → ∀ f, r.handler = some f → own f →
    l.engine.Hands xs f v
  afterwards : l.engine.Codes fun _ _ c => ∀ callback kind, c = .afterwards callback kind →
    ¬ own callback

variable {own : FunctionRef → Prop} {xs : List Listener}

theorem Engine.Hands.persists {e e' : Engine H} {f : FunctionRef} {v : Value}
    (h : e.Hands xs f v)
    (hp : ∀ p, (e.promise p).state ≠ .pending → (e'.promise p).state = (e.promise p).state) :
    e'.Hands xs f v := by
  obtain ⟨x, hx, kind, hf, hs⟩ := h
  exact ⟨x, hx, kind, hf, (hp x.input (hs ▸ kind.state_ne_pending v)).trans hs⟩

theorem Acts.confines {R : Rights} {l l' : Ledger H} (h : Acts R l l')
    (hR : ∀ f, R.attach f → ¬ own f) (hl : l.Confines own xs) : l'.Confines own xs := by
  have htraces : ∀ f, own f → Ledger.Traces f l l' := fun f hf =>
    h.traces ⟨(hl.plain f hf).allocated, fun ha => absurd hf (hR f ha)⟩
  refine ⟨fun f hf => (Acts.grows h).plain (hl.plain f hf), fun q kind r hr f hf hown => ?_,
    fun r v hj f hf hown => ?_, ?_⟩
  · exact hl.reaction q kind r ((htraces f hown).reaction q kind r hr hf) f hf hown
  · rcases (htraces f hown).job r v hj hf with hj | ⟨q, kind, hr, hs⟩
    · exact (hl.job r v hj f hf hown).persists (htraces f hown).settled
    · obtain ⟨x, hx, rfl, hkind⟩ := hl.reaction q kind r hr f hf hown
      exact ⟨x, hx, kind, hkind, hs⟩
  · refine h.preserve (P := fun l => l.engine.Codes _) (fun ha => ha.codes ?_) hl.afterwards
    refine ⟨fun _ hc => hc, ?_, ?_⟩
    · rintro e f c hc callback kind rfl
      exact hR callback hc.2
    · rintro e f c x hc callback kind rfl
      cases hc

/-- The functions are called for the listeners only. -/
structure World.Confines (w : World H) (own : FunctionRef → Prop) (xs : List Listener) :
    Prop where
  ledger : (w.ledger []).Confines own xs
  call : ∀ f args k, w.config.control = .call f args k → own f →
    ∃ v, args = [v] ∧ w.config.engine.Hands xs f v

/-- **A step calls the callbacks of listeners with what their promises have been settled
with**, and keeps them for that only. -/
theorem Step.confines (h : Step w m w') (hm : m.clears = false) (hw : w.Lawful)
    (hhost : ∀ f ∈ m.functions, ¬ own f) (hx : w.Confines own xs) :
    w'.Confines own xs := by
  let R : Rights := { Rights.all with attach := (¬ own ·) }
  have hcovers : R.Covers w m := { Rights.all_covers w m with
    fresh := ⟨fun _ _ => trivial, fun f hle hf =>
      absurd (hx.ledger.plain f hf).allocated (Nat.not_lt_of_le hle), fun _ _ => trivial⟩
    attach := hhost }
  have hacts := h.acts hm hcovers hw.1 []
  have hconfines := hacts.confines (fun _ ha => ha) hx.ledger
  refine ⟨⟨hconfines.plain, hconfines.reaction, hconfines.job, hconfines.afterwards⟩,
    fun f args k hc hf => ?_⟩
  cases h.begins hc with
  | @job d d' id r v jobs _ _ hpop hr hargs =>
    have hmem : .reaction r v ∈ (w.ledger []).jobs := by
      rw [Ledger.jobs_pop hpop]
      exact List.mem_cons_self
    exact ⟨v, hargs, (hx.ledger.job r v hmem f hr hf).persists fun p =>
      ((h.lawful hw).2 p).settled⟩
  | host hmem => exact absurd hf (hhost f hmem)
  | @afterwards g _ _ kind _ _ hcode => exact absurd hf (hx.ledger.afterwards g f kind hcode)

/-- What the callbacks have been called with so far. -/
theorem Steps.confines (h : Steps w es w') (hes : ∀ ev ∈ es, ev.move.clears = false)
    (hw : w.Lawful) (hhost : ∀ ev ∈ es, ∀ f ∈ ev.move.functions, ¬ own f)
    (hx : w.Confines own xs) :
    w'.Confines own xs ∧ ∀ f args, Called es f args → own f →
      ∃ v, args = [v] ∧ w'.config.engine.Hands xs f v := by
  induction h with
  | refl =>
    refine ⟨hx, ?_⟩
    rintro f args ⟨ev, hev, -⟩
    cases hev
  | @step es w₁ w' m h hs ih =>
    obtain ⟨hm, hes⟩ := List.forall_mem_cons.1 hes
    obtain ⟨hfun, hhost⟩ := List.forall_mem_cons.1 hhost
    have hw₁ : w₁.Lawful := h.preserve (fun hs hw => (hs.lawful hw).1) hw
    obtain ⟨hx₁, hcalls⟩ := ih hes hhost
    have hkeep : ∀ p, (w₁.config.engine.promise p).state ≠ .pending →
        (w'.config.engine.promise p).state = (w₁.config.engine.promise p).state :=
      fun p => ((hs.lawful hw₁).2 p).settled
    refine ⟨hs.confines hm hw₁ hfun hx₁, ?_⟩
    rintro f args ⟨ev, hev, k, hc⟩ hf
    rcases List.mem_cons.1 hev with rfl | hev
    · obtain ⟨v, hargs, hv⟩ := hx₁.call f args k hc hf
      exact ⟨v, hargs, hv.persists hkeep⟩
    · obtain ⟨v, hargs, hv⟩ := hcalls f args ⟨ev, hev, k, hc⟩ hf
      exact ⟨v, hargs, hv.persists hkeep⟩

end Steps

end Microtask
