import Microtask.Proofs.Drain.Numbers
import Microtask.Proofs.Play
import Microtask.Proofs.Promise.Reactions
import Microtask.Proofs.Promise.Settlements
import Microtask.Proofs.Promise.Spared

/-!
# Nothing runs at once

The operations on promises, from settling one to the combinators. Each is a function from engines
to engines, so it can neither call a function nor resume a frame; a host that asks for one has the
floor again with the next step (`Op.perform_promiseOp`). What is to run later goes to the end of
the job queue. Generators and objects stay as they are, and so do the states of all promises but
the one that is to be settled (`Engine.Defers`).

Main statement: `Run.nothing_at_once`.
-/

namespace Microtask

variable {H : Type}

/-! ## Operations on promises -/

/-- An operation on promises. Engine code waits in the same way as the host, with waiters of its
own. -/
inductive PromiseOp (H : Type) where
  | resolve (p : PromiseRef) (v : Value)
  | fulfill (p : PromiseRef) (v : Value)
  | reject (p : PromiseRef) (reason : Value)
  | performThen (p : PromiseRef) (onFulfilled onRejected : Option FunctionRef)
      (capability : Option PromiseRef)
  | promiseThen (p : PromiseRef) (onFulfilled onRejected : Option FunctionRef)
  | promiseCatch (p : PromiseRef) (onRejected : Option FunctionRef)
  | promiseFinally (p : PromiseRef) (callback : Option FunctionRef)
  | promiseOf (v : Value)
  | rejectedPromise (reason : Value)
  | await (v : Value) (w : Waiter H)
  | collect (c : Collection) (items : List Value)
  | race (items : List Value)

namespace PromiseOp

/-- The engine after the operation. -/
def after (e : Engine H) : PromiseOp H → Engine H
  | .resolve p v => e.resolve p v
  | .fulfill p v => e.fulfill p v
  | .reject p reason => e.reject p reason
  | .performThen p f g capability => e.performThen p f g capability
  | .promiseThen p f g => (e.promiseThen p f g).2
  | .promiseCatch p f => (e.promiseCatch p f).2
  | .promiseFinally p callback => (e.promiseFinally p callback).2
  | .promiseOf v => (e.promiseOf v).2
  | .rejectedPromise reason => (e.rejectedPromise reason).2
  | .await v w => e.await v w
  | .collect c items => (e.collect c items).2
  | .race items => (e.race items).2

/-- The promise that the operation is to settle. -/
def target? : PromiseOp H → Option PromiseRef
  | .resolve p _ | .fulfill p _ | .reject p _ => some p
  | _ => none

end PromiseOp

/-- The operation on promises that the host asks for. -/
def Op.promiseOp? : Op H → Option (PromiseOp H)
  | .resolve p v => some (.resolve p v)
  | .fulfill p v => some (.fulfill p v)
  | .reject p reason => some (.reject p reason)
  | .performThen p f g capability => some (.performThen p f g capability)
  | .promiseThen p f g => some (.promiseThen p f g)
  | .promiseCatch p f => some (.promiseCatch p f)
  | .promiseFinally p callback => some (.promiseFinally p callback)
  | .promiseOf v => some (.promiseOf v)
  | .rejectedPromise reason => some (.rejectedPromise reason)
  | .await v onFulfilled onRejected => some (.await v (.host onFulfilled onRejected))
  | .collect c items => some (.collect c items)
  | .race items => some (.race items)
  | _ => none

/-- **The host is answered at once.** -/
theorem Op.perform_promiseOp {op : Op H} {o : PromiseOp H} (h : op.promiseOp? = some o)
    (e : Engine H) : ∃ x, ∀ a, e.perform a op = (o.after e).reply a x := by
  cases op <;> cases h <;> exact ⟨_, fun _ => rfl⟩

/-! ## What is left alone -/

namespace Engine

/-- Generators, async generators and the objects that existed before are the same, jobs are only
appended to the queue, and of the promises that existed before, all but the target are in the
state that they were in. -/
structure Defers (target : Option PromiseRef) (e e' : Engine H) : Prop where
  spares : e.Spares e'
  queues : e.Queues e'
  states : ∀ p, p.index < e.promises.size → p ∉ target →
    (e'.promise p).state = (e.promise p).state

variable {e e' : Engine H} {target : Option PromiseRef}

/-- The right to settle the target and what does not exist yet. -/
def rightsOver (e : Engine H) (target : Option PromiseRef) : Rights :=
  { Rights.all with settle := fun p => p ∈ target ∨ e.promises.size ≤ p.index }

theorem fresh_rightsOver (e : Engine H) (target : Option PromiseRef) :
    (e.rightsOver target).Fresh e :=
  ⟨fun _ hq => .inr hq, fun _ _ => trivial, fun _ _ => trivial⟩

theorem may_target (e : Engine H) (p : PromiseRef) : (e.rightsOver (some p)).May e p :=
  fun _ => .inl rfl

/-- Effects with that right defer what is to run. -/
theorem Effects.defers (h : Effects (e.rightsOver target) e e') (hs : e.Spares e') :
    Defers target e e' :=
  ⟨hs, h.queues, fun _ hp ht => h.state fun hR => hR.elim ht (Nat.not_le_of_lt hp)⟩

theorem Defers.trans {e'' : Engine H} (h : Defers target e e') (h' : Defers none e' e'')
    (hsize : e.promises.size ≤ e'.promises.size) : Defers target e e'' where
  spares := h.spares.trans h'.spares
  queues := h.queues.trans h'.queues
  states p hp ht := (h'.states p (hp.trans_le hsize) nofun).trans (h.states p hp ht)

theorem defers_newPromise (e : Engine H) : Defers none e e.newPromise.2 :=
  (newPromise_effects e).defers (spares_newPromise e)

theorem defers_newFunction (e : Engine H) (c : Callable H) : Defers none e (e.newFunction c).2 :=
  ⟨spares_newFunction e c, .of_eq rfl, fun _ _ _ => rfl⟩

section Attaching

variable (e : Engine H) (p : PromiseRef) (f g : Option FunctionRef)

theorem defers_performThen (capability : Option PromiseRef) :
    Defers none e (e.performThen p f g capability) :=
  ⟨spares_performThen e p f g capability, queues_performThen e p f g capability,
    fun q _ _ => read_performThen e p f g capability Promise.state (fun _ _ _ => rfl) q⟩

theorem defers_promiseThen : Defers none e (e.promiseThen p f g).2 :=
  (defers_newPromise e).trans (defers_performThen _ p f g _) (grows_newPromise e).promises

/-- A pair of functions is attached to the promise that a change before has led to. -/
theorem defers_engage (c c' : Callable H) : Defers none e (e.engage p c c') :=
  ((defers_newFunction e c).trans (defers_newFunction _ c') le_rfl).trans
    (defers_performThen _ p _ _ none) le_rfl

theorem defers_promiseFinally : Defers none e (e.promiseFinally p f).2 := by
  cases f with
  | none => exact defers_promiseThen e p none none
  | some f =>
    exact ((defers_newFunction e _).trans (defers_newFunction _ _) le_rfl).trans
      (defers_promiseThen _ p _ _) le_rfl

end Attaching

theorem defers_await (e : Engine H) (v : Value) (w : Waiter H) : Defers none e (e.await v w) := by
  have hv : Effects (e.rightsOver none) e (e.promiseOf v).2 :=
    promiseOf_effects (e.fresh_rightsOver none) v
  exact (hv.defers (spares_promiseOf e v)).trans (defers_engage _ (e.promiseOf v).1 _ _)
    hv.grows.promises

/-- **Every operation on promises defers what is to run.** -/
theorem defers_after (e : Engine H) (o : PromiseOp H) : Defers o.target? e (o.after e) := by
  have hfresh : (e.rightsOver none).Fresh e := e.fresh_rightsOver none
  cases o with
  | resolve p v => exact (resolve_effects (e.may_target p) v).defers (spares_resolve e p v)
  | fulfill p v => exact (fulfill_effects (e.may_target p) v).defers (spares_fulfill e p v)
  | reject p v => exact (reject_effects (e.may_target p) v).defers (spares_reject e p v)
  | performThen p f g capability => exact defers_performThen e p f g capability
  | promiseThen p f g => exact defers_promiseThen e p f g
  | promiseCatch p f => exact defers_promiseThen e p none f
  | promiseFinally p f => exact defers_promiseFinally e p f
  | promiseOf v => exact (promiseOf_effects hfresh v).defers (spares_promiseOf e v)
  | rejectedPromise v =>
    exact (rejectedPromise_effects hfresh v).defers (spares_rejectedPromise e v)
  | await v w => exact defers_await e v w
  | collect c items => exact (collect_effects hfresh c items).defers (spares_collect e c items)
  | race items => exact (race_effects hfresh items).defers (spares_race e items)

/-! ## What settling queues -/

/-- Settling a promise queues its matching reactions. -/
theorem jobs_settleNow {p : PromiseRef} (h : (e.promise p).state = .pending) (kind : Settling)
    (v : Value) :
    (e.settleNow p kind v).jobs =
      e.jobs.enqueueAll (((e.promise p).reactions kind).map (.reaction · v)) := by
  cases kind with
  | fulfill =>
    rw [settleNow, fulfillNow]
    simp only [h]
    rfl
  | reject =>
    rw [settleNow, rejectNow]
    simp only [h]
    cases (e.promise p).handled <;> rfl

/-- The fate of the target is decided, unless it was decided before. -/
theorem after_target {o : PromiseOp H} {p : PromiseRef} (h : p ∈ o.target?) :
    ((e.promise p).resolved = true → o.after e = e) ∧
      ((e.promise p).resolved = false →
        ∃ e₁, Aside Rights.all (e.lock p) e₁ ∧ Fate p e₁ (o.after e)) := by
  have hkeep (next : Engine H → Engine H) (hr : (e.promise p).resolved = true) :
      e.decideFate p next = e := if_pos hr
  cases o with
  | resolve q v =>
    cases h
    refine ⟨hkeep (·.resolveNow p v), fun hr => ?_⟩
    rw [PromiseOp.after, resolve, decideFate_of_unresolved hr]
    exact resolveNow_fate (e.lock p) p v
  | fulfill q v =>
    cases h
    refine ⟨hkeep (·.fulfillNow p v), fun hr => ⟨_, .refl (e.lock p), ?_⟩⟩
    rw [PromiseOp.after, fulfill, decideFate_of_unresolved hr]
    exact .settled .fulfill v
  | reject q v =>
    cases h
    refine ⟨hkeep (·.rejectNow p v), fun hr => ⟨_, .refl (e.lock p), ?_⟩⟩
    rw [PromiseOp.after, reject, decideFate_of_unresolved hr]
    exact .settled .reject v
  | _ => cases h

/-- **An operation that settles its target** queues the matching reactions, in order. -/
theorem jobs_after {o : PromiseOp H} {p : PromiseRef} (h : p ∈ o.target?)
    (hpending : (e.promise p).state = .pending) {kind : Settling} {v : Value}
    (hsettled : ((o.after e).promise p).state = kind.state v) :
    (o.after e).jobs = e.jobs.enqueueAll (((e.promise p).reactions kind).map (.reaction · v)) := by
  obtain ⟨hsame, hfate⟩ := after_target (e := e) h
  cases hr : (e.promise p).resolved with
  | true =>
    rw [hsame hr, hpending] at hsettled
    exact absurd hsettled.symm (kind.state_ne_pending v)
  | false =>
    obtain ⟨e₁, haside, hfate⟩ := hfate hr
    have hpending₁ : (e₁.promise p).state = .pending := by
      rw [haside.promise]
      exact (read_lock Promise.state (fun _ => rfl) e p p).trans hpending
    have hreactions : (e₁.promise p).reactions kind = (e.promise p).reactions kind := by
      rw [haside.promise, reactions_lock]
    generalize o.after e = e' at hsettled hfate
    cases hfate with
    | settled kind' v' =>
      rw [promise_settleNow hpending₁, if_pos rfl] at hsettled
      obtain ⟨rfl, rfl⟩ := Settling.state_inj hsettled
      rw [jobs_settleNow hpending₁, hreactions, haside.jobs]
      rfl
    | adopts hc =>
      rw [read_link Promise.state (fun _ _ => rfl), hpending₁] at hsettled
      exact absurd hsettled.symm (kind.state_ne_pending v)

end Engine

/-! ## Runs -/

variable {es : List (Event H)} {w : World H}

/-- **Nothing runs at once.** A host that does an operation on promises has the floor again
after that step. The operation may only append jobs, create objects and settle its target. If the
target settles, the jobs are those of its registrations, in order; if its fate was decided before,
nothing changes at all. -/
theorem Run.nothing_at_once (h : Run es w) (o : PromiseOp H) :
    (∀ op w', op.promiseOp? = some o → Step w (.perform op) w' →
      ∃ a prompt x, w.config.control = .host a prompt ∧
        w'.config = ⟨o.after w.config.engine, .host a (.answered x)⟩) ∧
    w.config.engine.Defers o.target? (o.after w.config.engine) ∧
    (∀ p ∈ o.target?, (w.config.engine.promise p).resolved = true →
      o.after w.config.engine = w.config.engine) ∧
    (∃ hs, Chronicle es w hs) ∧
    ∀ hs, Chronicle es w hs → ∀ p ∈ o.target?, ∀ kind v,
      (w.config.engine.promise p).state = .pending →
      ((o.after w.config.engine).promise p).state = kind.state v →
      (o.after w.config.engine).jobs =
        w.config.engine.jobs.enqueueAll ((registrationsOf p hs).map (·.job kind v)) := by
  refine ⟨fun op w' hop hs => ?_, Engine.defers_after _ o, fun p hp => (Engine.after_target hp).1,
    h.chronicle, fun hs hc p hp kind v hpending hsettled => ?_⟩
  · obtain ⟨x, hx⟩ := Op.perform_promiseOp hop w.config.engine
    cases hs with
    | perform => exact ⟨_, _, x, rfl, hx _⟩
    | putBack => cases hop
  · rw [Engine.jobs_after hp hpending hsettled, (hc.scheduled p).waiting hpending, List.map_map]
    rfl

/-- A promise with two registrations is fulfilled, and nothing happens to it after that. -/
theorem Run.nothing_at_once_fulfill :
    let ms : List (Move Unit) := [.perform .newPromise, .perform (.promiseThen ⟨0⟩ none none),
      .perform (.promiseCatch ⟨0⟩ none)]
    let w := ({} : World Unit).after ms
    let w' := w.after [.perform (.fulfill ⟨0⟩ .null)]
    w'.config.engine.waitingJobs =
        [.reaction ⟨.fulfill, none, some ⟨1⟩⟩ .null, .reaction ⟨.fulfill, none, some ⟨2⟩⟩ .null] ∧
      w.config.engine.Defers (some ⟨0⟩) w'.config.engine ∧
      w'.config.engine.reject ⟨0⟩ .undefined = w'.config.engine := by
  intro ms w w'
  have h : Run (({} : World Unit).events ms) w := World.steps_after (by decide +kernel)
  have hs : Step w (.perform (.fulfill ⟨0⟩ .null)) w' := World.step_after (by decide +kernel)
  obtain ⟨hat, hdefers, -⟩ := Run.nothing_at_once h (.fulfill ⟨0⟩ .null)
  obtain ⟨a, prompt, x, -, hw'⟩ := hat _ _ rfl hs
  obtain ⟨-, -, hsame, -⟩ := Run.nothing_at_once (h.step hs) (.reject ⟨0⟩ .undefined)
  refine ⟨by rfl, ?_, hsame ⟨0⟩ rfl (by decide +kernel)⟩
  rw [hw']
  exact hdefers

end Microtask
