import Microtask.Proofs.Generator.Resuming

/-!
# Answers that nobody waits for

A new promise that nobody else has seen has no reactions, and no job is queued when it
settles (`Engine.Open.settles`). So the answer to a request, or its rejection, changes
nothing but that promise (`Engine.Settles`). An iterator result or an exception shows the
outcome of a step (`Engine.Renders`), and goes on to do so (`Engine.Lasts`).
-/

namespace Microtask

variable {H : Type}

namespace Engine

/-! ## What lasts -/

/-- Objects that exist stay as they are, and so do the states of promises that have
settled. -/
structure Lasts (e e' : Engine H) : Prop where
  size : e.objects.size ≤ e'.objects.size
  object : ∀ o : ObjectRef, o.index < e.objects.size → e'.object o = e.object o
  state : ∀ p, (e.promise p).state ≠ .pending → (e'.promise p).state = (e.promise p).state

namespace Lasts

variable {e e' e'' : Engine H}

theorem of_eq (ho : e'.objects = e.objects) (hp : e'.promises = e.promises) : e.Lasts e' :=
  ⟨ho ▸ le_rfl, fun o _ => by rw [Engine.object, Engine.object, ho],
    fun p _ => by rw [promise, promise, hp]⟩

theorem refl (e : Engine H) : e.Lasts e := of_eq rfl rfl

theorem trans (h : e.Lasts e') (h' : e'.Lasts e'') : e.Lasts e'' where
  size := h.size.trans h'.size
  object o ho := (h'.object o (ho.trans_le h.size)).trans (h.object o ho)
  state p hp := (h'.state p (h.state p hp ▸ hp)).trans (h.state p hp)

end Lasts

/-- What is seen of the outcome of a step: an iterator result, or an exception. -/
inductive Renders (e : Engine H) : Outcome → Except Value Value → Prop where
  | yielded {v : Value} {o : ObjectRef} : o.index < e.objects.size →
      e.object o = .iteratorResult v false → Renders e (.yielded v) (.ok (.object o))
  | returned {v : Value} {o : ObjectRef} : o.index < e.objects.size →
      e.object o = .iteratorResult v true → Renders e (.returned v) (.ok (.object o))
  | threw (v : Value) : Renders e (.threw v) (.error v)

theorem Renders.lasts {e e' : Engine H} {o : Outcome} {r : Except Value Value}
    (h : e.Renders o r) (hlasts : e.Lasts e') : e'.Renders o r := by
  cases h with
  | yielded ho h => exact .yielded (ho.trans_le hlasts.size) ((hlasts.object _ ho).trans h)
  | returned ho h => exact .returned (ho.trans_le hlasts.size) ((hlasts.object _ ho).trans h)
  | threw v => exact .threw v

/-- The iterator result that is made for an outcome. -/
theorem renders_newIteratorResult (e : Engine H) (v : Value) (done : Bool) :
    (e.newIteratorResult v done).2.Renders (if done then .returned v else .yielded v)
      (.ok (e.newIteratorResult v done).1) := by
  have hlt : e.objects.size < (e.newIteratorResult v done).2.objects.size := by
    simp [newIteratorResult, newObject]
  have hobject : (e.newIteratorResult v done).2.object ⟨e.objects.size⟩ =
      .iteratorResult v done := by
    simp [newIteratorResult, newObject, object, Store.get_push]
  cases done with
  | false => exact .yielded hlt hobject
  | true => exact .returned hlt hobject

/-- The state of a promise with the result. -/
def resultState : Except Value Value → PromiseState
  | .ok v => .fulfilled v
  | .error v => .rejected v

/-- The promise shows the outcome of a step. -/
def Tells (e : Engine H) (p : PromiseRef) (o : Outcome) : Prop :=
  ∃ r, e.Renders o r ∧ (e.promise p).state = resultState r

theorem Tells.settled {e : Engine H} {p : PromiseRef} {o : Outcome} (h : e.Tells p o) :
    (e.promise p).state ≠ .pending := by
  obtain ⟨r, -, hp⟩ := h
  rw [hp]
  cases r <;> simp [resultState]

theorem Tells.lasts {e e' : Engine H} {p : PromiseRef} {o : Outcome} (h : e.Tells p o)
    (hlasts : e.Lasts e') : e'.Tells p o := by
  have hsettled := h.settled
  obtain ⟨r, hr, hp⟩ := h
  exact ⟨r, hr.lasts hlasts, (hlasts.state p hsettled).trans hp⟩

/-! ## Promises that are unresolved -/

section Unresolved

variable {e : Engine H} {p : PromiseRef} {kind : Settling} {v : Value}
  (hr : (e.promise p).resolved = false) (hp : (e.promise p).state = .pending)
  (hv : kind = .fulfill → ∀ q, v ≠ .promise q)
include hr hp hv

/-- An unresolved promise settles at once with a value that is no promise. -/
theorem state_settle (q : PromiseRef) :
    ((e.settle p kind v).promise q).state =
      if q = p then kind.state v else (e.promise q).state := by
  have hlock : ((e.lock p).promise p).state = .pending :=
    (read_lock Promise.state (fun _ => rfl) e p p).trans hp
  rw [settle_of_unresolved hr hv, promise_settleNow hlock]
  split
  · rfl
  · exact read_lock Promise.state (fun _ => rfl) e p q

theorem lasts_settle : e.Lasts (e.settle p kind v) where
  size := (spares_settle e p kind v).size
  object := (spares_settle e p kind v).objects
  state q hq := by
    rw [state_settle hr hp hv, if_neg]
    rintro rfl
    exact hq hp

/-- It shows the outcome that it has been settled with. -/
theorem tells_settle {o : Outcome} {r : Except Value Value} (hren : e.Renders o r)
    (hstate : resultState r = kind.state v) : (e.settle p kind v).Tells p o :=
  ⟨r, hren.lasts (lasts_settle hr hp hv), by rw [state_settle hr hp hv, if_pos rfl, hstate]⟩

end Unresolved

/-- An unresolved promise shows the answer to a request. -/
theorem tells_answer {e : Engine H} {r : Request}
    (hr : (e.promise r.capability).resolved = false)
    (hp : (e.promise r.capability).state = .pending) (v : Value) (done : Bool) :
    (e.answerRequest r v done).Tells r.capability (if done then .returned v else .yielded v) := by
  let e₁ := (e.newIteratorResult v done).2
  have hplain : Settling.fulfill = .fulfill →
      ∀ q, (e.newIteratorResult v done).1 ≠ .promise q := fun _ q h => by cases h
  exact tells_settle (e := e₁) hr hp hplain (renders_newIteratorResult e v done) rfl

theorem tells_reject {e : Engine H} {p : PromiseRef} (hr : (e.promise p).resolved = false)
    (hp : (e.promise p).state = .pending) (v : Value) : (e.reject p v).Tells p (.threw v) :=
  tells_settle hr hp (nofun : Settling.reject = .fulfill → _) (.threw v) rfl

/-! ## Promises that nobody has seen -/

/-- A promise whose fate is not decided, and that nobody waits for. -/
structure Open (e : Engine H) (p : PromiseRef) : Prop where
  lt_size : p.index < e.promises.size
  new : ∃ id, e.promise p = { id }

theorem open_newPromise (e : Engine H) : e.newPromise.2.Open e.newPromise.1 where
  lt_size := by simp [newPromise]
  new := ⟨e.nextId, (promise_newPromise e _).trans (if_pos rfl)⟩

theorem lasts_newPromise (e : Engine H) : e.Lasts e.newPromise.2 where
  size := le_rfl
  object _ _ := rfl
  state p _ := read_newPromise Promise.state (fun _ => rfl) e p

theorem promise_newPromise_of_lt {e : Engine H} {p : PromiseRef} (h : p.index < e.promises.size) :
    e.newPromise.2.promise p = e.promise p := by
  rw [promise_newPromise, if_neg]
  rintro rfl
  exact absurd h (lt_irrefl _)

/-- Nothing but promises, objects and recorded rejections has changed. -/
structure Steady (e e' : Engine H) : Prop where
  generators : e'.generators = e.generators
  asyncGenerators : e'.asyncGenerators = e.asyncGenerators
  callables : e'.callables = e.callables
  waitingJobs : e'.waitingJobs = e.waitingJobs
  draining : e'.draining = e.draining
  limit : e'.limit = e.limit

/-- One promise shows an outcome now, and that is all. -/
structure Settles (e e' : Engine H) (p : PromiseRef) (o : Outcome) : Prop where
  steady : e.Steady e'
  lasts : e.Lasts e'
  tells : e'.Tells p o
  others : ∀ q, q ≠ p → e'.promise q = e.promise q
  size : e.promises.size ≤ e'.promises.size

theorem Settles.open {e e' : Engine H} {p q : PromiseRef} {o : Outcome} (h : e.Settles e' p o)
    (hq : e.Open q) (hne : q ≠ p) : e'.Open q :=
  ⟨hq.lt_size.trans_le h.size, hq.new.imp fun _ hnew => (h.others q hne).trans hnew⟩

namespace Open

variable {e : Engine H} {p : PromiseRef}

theorem unresolved (h : e.Open p) : (e.promise p).resolved = false := by
  obtain ⟨id, hnew⟩ := h.new
  rw [hnew]

theorem pending (h : e.Open p) : (e.promise p).state = .pending := by
  obtain ⟨id, hnew⟩ := h.new
  rw [hnew]

theorem settle_eq (h : e.Open p) {kind : Settling} {v : Value}
    (hv : kind = .fulfill → ∀ q, v ≠ .promise q) :
    e.settle p kind v = (e.lock p).settleNow p kind v :=
  settle_of_unresolved h.unresolved hv

theorem promise_lock (h : e.Open p) :
    ∃ id, (e.lock p).promise p = ({ id, resolved := true } : Promise) := by
  obtain ⟨id, hnew⟩ := h.new
  exact ⟨id, by rw [Engine.promise_lock, if_pos rfl, hnew]⟩

theorem steady_settle (h : e.Open p) {kind : Settling} {v : Value}
    (hv : kind = .fulfill → ∀ q, v ≠ .promise q) : e.Steady (e.settle p kind v) := by
  obtain ⟨id, hlock⟩ := h.promise_lock
  have hframe : ∀ {α : Type} (read : Engine H → α),
      (∀ (e : Engine H) promises jobs unhandled,
        read { e with promises, jobs, unhandled } = read e) →
      read (e.settle p kind v) = read (e.lock p) := fun read hread => by
    rw [h.settle_eq hv]
    exact frame_settleNow read hread (e.lock p) p kind v
  refine ⟨hframe Engine.generators fun _ _ _ _ => rfl,
    hframe Engine.asyncGenerators fun _ _ _ _ => rfl, hframe Engine.callables fun _ _ _ _ => rfl,
    ?_, hframe Engine.draining fun _ _ _ _ => rfl, hframe Engine.limit fun _ _ _ _ => rfl⟩
  rw [h.settle_eq hv, waitingJobs_settleNow (by rw [hlock]), hlock]
  cases kind <;> exact List.append_nil _

theorem promise_settle_of_ne (h : e.Open p) {kind : Settling} {v : Value}
    (hv : kind = .fulfill → ∀ q, v ≠ .promise q) {q : PromiseRef} (hne : q ≠ p) :
    (e.settle p kind v).promise q = e.promise q := by
  obtain ⟨id, hlock⟩ := h.promise_lock
  rw [h.settle_eq hv, promise_settleNow (by rw [hlock]), if_neg hne, Engine.promise_lock,
    if_neg hne]

theorem size_settle (h : e.Open p) {kind : Settling} {v : Value}
    (hv : kind = .fulfill → ∀ q, v ≠ .promise q) :
    e.promises.size ≤ (e.settle p kind v).promises.size := by
  obtain ⟨id, hlock⟩ := h.promise_lock
  rw [h.settle_eq hv, size_settleNow (by rw [hlock]), lock, size_modifyPromise]
  omega

/-- **An open promise settles**, and nothing else happens. -/
theorem settles (h : e.Open p) {o : Outcome} {r : Except Value Value} {kind : Settling} {v : Value}
    (hv : kind = .fulfill → ∀ q, v ≠ .promise q) (hr : e.Renders o r)
    (hstate : resultState r = kind.state v) : e.Settles (e.settle p kind v) p o where
  steady := h.steady_settle hv
  lasts := lasts_settle h.unresolved h.pending hv
  tells := tells_settle h.unresolved h.pending hv hr hstate
  others _ hne := h.promise_settle_of_ne hv hne
  size := h.size_settle hv

/-- The rejection of a request. -/
theorem reject (h : e.Open p) (v : Value) : e.Settles (e.reject p v) p (.threw v) :=
  h.settles (nofun : Settling.reject = .fulfill → _) (.threw v) rfl

/-- The answer to a request. -/
theorem answer {r : Request} (h : e.Open r.capability) (v : Value) (done : Bool) :
    e.Settles (e.answerRequest r v done) r.capability
      (if done then .returned v else .yielded v) := by
  have hopen : (e.newIteratorResult v done).2.Open r.capability := ⟨h.lt_size, h.new⟩
  have hplain : Settling.fulfill = .fulfill →
      ∀ q, (e.newIteratorResult v done).1 ≠ .promise q := fun _ q h => by cases h
  have hs : (e.newIteratorResult v done).2.Settles (e.answerRequest r v done) r.capability _ :=
    hopen.settles hplain (renders_newIteratorResult e v done) rfl
  have hspares := spares_newObject e (.iteratorResult v done)
  have hlasts : e.Lasts (e.newIteratorResult v done).2 :=
    ⟨hspares.size, hspares.objects, fun _ _ => rfl⟩
  exact ⟨⟨hs.steady.generators, hs.steady.asyncGenerators, hs.steady.callables,
      hs.steady.waitingJobs, hs.steady.draining, hs.steady.limit⟩,
    hlasts.trans hs.lasts, hs.tells, hs.others, hs.size⟩

end Open

/-! ## Waiting for a value -/

/-- A wait for a value that is no promise is over with the next job. -/
structure Waits (e e' : Engine H) (v : Value) (w : Waiter H) (f : FunctionRef) : Prop where
  jobs : e'.waitingJobs = e.waitingJobs ++ [.reaction ⟨.fulfill, some f, none⟩ v]
  callable : e'.callable f = ⟨"awaitFulfilled", .once, .wake w .fulfill⟩
  draining : e'.draining = e.draining
  limit : e'.limit = e.limit
  lasts : e.Lasts e'
  others : ∀ q : PromiseRef, q.index < e.promises.size → e'.promise q = e.promise q
  size : e.promises.size ≤ e'.promises.size

theorem waits_await (e : Engine H) {v : Value} (hv : ∀ q, v ≠ .promise q) (w : Waiter H) :
    ∃ f, e.Waits (e.await v w) v w f := by
  let p := e.newPromise.1
  let e₁ := e.newPromise.2
  let e₂ := e₁.resolve p v
  let f : FunctionRef := ⟨e₂.callables.size⟩
  let c : Callable H := ⟨"awaitFulfilled", .once, .wake w .fulfill⟩
  let c' : Callable H := ⟨"awaitRejected", .once, .wake w .reject⟩
  let e₃ := (e₂.newFunction c).2
  let e₄ := (e₃.newFunction c').2
  let f' : FunctionRef := ⟨e₃.callables.size⟩
  have heq : e.await v w = e₄.performThen p (some f) (some f') none := by
    cases v with
    | promise q => exact absurd rfl (hv q)
    | _ => rfl
  have hopen : e₁.Open p := open_newPromise e
  have hplain : Settling.fulfill = .fulfill → ∀ q, v ≠ .promise q := fun _ => hv
  have hsteady : e₁.Steady e₂ := hopen.steady_settle hplain
  have hstate : (e₄.promise p).state = .fulfilled v :=
    (state_settle hopen.unresolved hopen.pending hplain p).trans (if_pos rfl)
  have hne : ∀ {q : PromiseRef}, q.index < e.promises.size → q ≠ p := by
    rintro q hq rfl
    exact absurd hq (lt_irrefl _)
  have hothers : ∀ q : PromiseRef, q.index < e.promises.size →
      (e.await v w).promise q = e.promise q := fun q hq => by
    rw [heq, promise_performThen, if_neg (hne hq)]
    exact (hopen.promise_settle_of_ne hplain (hne hq)).trans (promise_newPromise_of_lt hq)
  have hsize : e.promises.size ≤ (e.await v w).promises.size := by
    have hgrows : e₁.promises.size ≤ e₄.promises.size := hopen.size_settle hplain
    have hnew : e₁.promises.size = e.promises.size + 1 := Store.size_push _ _
    rw [heq, size_performThen]
    omega
  refine ⟨f, ?_, ?_, ?_, ?_, ?_, hothers, hsize⟩
  · have hjobs : e₄.waitingJobs = e.waitingJobs := hsteady.waitingJobs
    rw [heq, waitingJobs_performThen, hjobs, Promise.attachJobs, hstate]
  · have hc : e₄.callable f = c := by
      have hlast : f ≠ f' := by
        intro hf
        have hindex : e₂.callables.size = e₂.callables.size + 1 :=
          (congrArg FunctionRef.index hf).trans (Store.size_push _ _)
        omega
      rw [callable_newFunction, if_neg hlast, callable_newFunction, if_pos rfl]
    rw [heq, callable, callables_performThen]
    exact hc
  · rw [heq]
    exact (frame_performThen e₄ p _ _ none draining fun _ _ _ _ => rfl).trans hsteady.draining
  · rw [heq]
    exact (frame_performThen e₄ p _ _ none limit fun _ _ _ _ => rfl).trans hsteady.limit
  · refine ⟨(spares_await e v w).size, (spares_await e v w).objects, fun q hq => ?_⟩
    by_cases hlt : q.index < e.promises.size
    · rw [hothers q hlt]
    · rw [promise_of_size_le (Nat.le_of_not_lt hlt)] at hq
      exact absurd rfl hq

end Engine

end Microtask
