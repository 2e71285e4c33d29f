import Microtask.Proofs.Generator.Agreement

/-!
# What answers and waits leave alone

A promise that nobody has seen settles without a job, and is recorded as unhandled if that is a
rejection (`Engine.Open.settled`). Waiting for a value, or for a promise fulfilled with it,
takes one job (`Engine.Offers.suspends`). Neither changes anything else that is of interest to
somebody who counts answers: what has been told already (`Engine.Records`), the promises that
are open, and the settings (`Engine.Conserves`).
-/

namespace Microtask

variable {H : Type}

/-- The promises that are rejected, with their reasons. -/
def thrown (told : List (PromiseRef × Outcome)) : List (PromiseRef × Value) :=
  told.filterMap fun x => match x.2 with
    | .threw v => some (x.1, v)
    | _ => none

namespace Engine

variable {e e' e'' : Engine H} {p : PromiseRef} {kind : Settling} {u v x : Value}
  {o : Outcome} {told : List (PromiseRef × Outcome)}

/-! ## What is kept -/

/-- What neither a request nor a job has a say in. -/
def settings (e : Engine H) : RejectionPolicy × Option Nat × Bool × List Value :=
  (e.policy, e.limit, e.draining, e.reported)

theorem settings_eq_iff {policy : RejectionPolicy} {limit : Option Nat} {draining : Bool}
    {reported : List Value} : e.settings = (policy, limit, draining, reported) ↔
      e.policy = policy ∧ e.limit = limit ∧ e.draining = draining ∧ e.reported = reported := by
  simp only [settings, Prod.mk.injEq]

/-- All promises that are not fulfilled are as before, but for one at most, and what has settled
goes on to show the same. -/
structure Conserves (e e' : Engine H) (except : Option PromiseRef) : Prop where
  lasts : e.Lasts e'
  size : e.promises.size ≤ e'.promises.size
  others : ∀ q : PromiseRef, q.index < e.promises.size → except ≠ some q →
    (∀ v, (e.promise q).state ≠ .fulfilled v) → e'.promise q = e.promise q
  settings : e'.settings = e.settings

namespace Conserves

variable {except : Option PromiseRef}

theorem of_eq (ho : e'.objects = e.objects) (hp : e'.promises = e.promises)
    (hs : e'.settings = e.settings) : e.Conserves e' except :=
  ⟨.of_eq ho hp, hp ▸ le_rfl, fun q _ _ _ => by rw [promise, promise, hp], hs⟩

theorem comp {except' : Option PromiseRef} (h : e.Conserves e' none) (h' : e'.Conserves e'' except)
    (hexcept : ∀ q : PromiseRef, q.index < e.promises.size → except' ≠ some q →
      except ≠ some q) : e.Conserves e'' except' where
  lasts := h.lasts.trans h'.lasts
  size := h.size.trans h'.size
  others q hq hne hv := by
    have hsame := h.others q hq nofun hv
    rw [h'.others q (hq.trans_le h.size) (hexcept q hq hne) (by rw [hsame]; exact hv), hsame]
  settings := h'.settings.trans h.settings

theorem trans (h : e.Conserves e' none) (h' : e'.Conserves e'' except) :
    e.Conserves e'' except :=
  h.comp h' fun _ _ hne => hne

/-- A promise that did not exist before is of no concern. -/
theorem trans_new (h : e.Conserves e' none) (h' : e'.Conserves e'' (some p))
    (hp : ¬ p.index < e.promises.size) : e.Conserves e'' none :=
  h.comp h' fun _ hq _ heq => hp (Option.some.inj heq ▸ hq)

theorem newPromise (e : Engine H) : e.Conserves e.newPromise.2 none where
  lasts := e.lasts_newPromise
  size := (Nat.le_succ _).trans_eq (Store.size_push ..).symm
  others _ hq _ _ := promise_newPromise_of_lt hq
  settings := rfl

theorem isOpen (h : e.Conserves e' except) (hp : e.Open p) (hne : except ≠ some p) : e'.Open p where
  lt_size := hp.lt_size.trans_le h.size
  new := by
    have hpending := hp.pending
    exact hp.new.imp fun id hnew => (h.others p hp.lt_size hne (by simp [hpending])).trans hnew

end Conserves

/-- What promises that have been answered show, and which of them nobody has handled. -/
structure Records (e : Engine H) (told : List (PromiseRef × Outcome)) : Prop where
  tells : ∀ x ∈ told, e.Tells x.1 x.2
  unhandled : e.unhandled = (thrown told).map (·.1)
  bare : ∀ x ∈ thrown told, (e.promise x.1).handled = false

theorem mem_thrown {y : PromiseRef × Value} (h : y ∈ thrown told) : (y.1, .threw y.2) ∈ told := by
  obtain ⟨⟨q, o⟩, hx, hy⟩ := List.mem_filterMap.1 h
  cases o with
  | threw v =>
    cases hy
    exact hx
  | _ => cases hy

theorem Records.rejected (h : e.Records told) {y : PromiseRef × Value} (hy : y ∈ thrown told) :
    (e.promise y.1).state = .rejected y.2 := by
  obtain ⟨r, hr, hstate⟩ := h.tells _ (mem_thrown hy)
  cases hr
  exact hstate

theorem Records.lt_size (h : e.Records told) {y : PromiseRef × Value} (hy : y ∈ thrown told) :
    y.1.index < e.promises.size := by
  by_contra hge
  have hstate := h.rejected hy
  rw [promise_of_size_le (Nat.le_of_not_lt hge)] at hstate
  cases hstate

theorem Records.of_eq (h : e.Records told) (ho : e'.objects = e.objects)
    (hp : e'.promises = e.promises) (hu : e'.unhandled = e.unhandled) : e'.Records told where
  tells x hx := (h.tells x hx).lasts (.of_eq ho hp)
  unhandled := hu.trans h.unhandled
  bare y hy := by
    rw [promise, hp]
    exact h.bare y hy

theorem Records.conserves (h : e.Records told) (hk : e.Conserves e' none)
    (hu : e'.unhandled = e.unhandled) : e'.Records told where
  tells x hx := (h.tells x hx).lasts hk.lasts
  unhandled := hu.trans h.unhandled
  bare y hy := by
    have hstate := h.rejected hy
    rw [hk.others y.1 (h.lt_size hy) nofun (by simp [hstate]), h.bare y hy]

/-! ## Settling -/

/-- An open promise has settled. -/
structure Settled (e e' : Engine H) (p : PromiseRef) (kind : Settling) : Prop where
  conserves : e.Conserves e' (some p)
  steady : e.Steady e'
  unhandled : e'.unhandled = e.unhandled ++ if kind = .reject then [p] else []
  bare : (e'.promise p).handled = false

theorem Open.settled (h : e.Open p) (hv : kind = .fulfill → ∀ q, v ≠ .promise q) :
    e.Settled (e.settle p kind v) p kind := by
  obtain ⟨id, hlock⟩ := h.promise_lock
  have hpending : ((e.lock p).promise p).state = .pending := by rw [hlock]
  have hsettle := h.settle_eq hv
  refine ⟨⟨lasts_settle h.unresolved h.pending hv, h.size_settle hv, fun q _ hne _ =>
    h.promise_settle_of_ne hv fun hq => hne (congrArg some hq.symm), ?_⟩, h.steady_settle hv,
    ?_, ?_⟩
  · rw [hsettle]
    exact (frame_settleNow settings (fun _ _ _ _ => rfl) (e.lock p) p kind v).trans rfl
  · rw [hsettle]
    cases kind with
    | fulfill =>
      simp only [settleNow, fulfillNow, hpending]
      exact (List.append_nil _).symm
    | reject =>
      simp only [settleNow, rejectNow, hlock]
      rfl
  · rw [hsettle, promise_settleNow hpending, if_pos rfl, hlock]
    cases kind <;> rfl

/-- An open promise has settled with an answer. -/
structure Answered (e e' : Engine H) (p : PromiseRef) (o : Outcome) : Prop where
  conserves : e.Conserves e' (some p)
  steady : e.Steady e'
  tells : e'.Tells p o
  unhandled : e'.unhandled = e.unhandled ++ (thrown [(p, o)]).map (·.1)
  bare : (e'.promise p).handled = false

theorem Open.answered_request {r : Request} (h : e.Open r.capability) (v : Value) (done : Bool) :
    e.Answered (e.answerRequest r v done) r.capability
      (if done then .returned v else .yielded v) := by
  let e₁ := (e.newIteratorResult v done).2
  have hconserves : e.Conserves e₁ none :=
    ⟨⟨(spares_newObject e _).size, (spares_newObject e _).objects, fun _ _ => rfl⟩, le_rfl,
      fun _ _ _ _ => rfl, rfl⟩
  have hplain : Settling.fulfill = .fulfill →
      ∀ q, (e.newIteratorResult v done).1 ≠ .promise q := fun _ q h => by cases h
  have hopen : e₁.Open r.capability := ⟨h.lt_size, h.new⟩
  have hsettled : e₁.Settled (e.answerRequest r v done) r.capability .fulfill :=
    hopen.settled hplain
  refine ⟨hconserves.trans hsettled.conserves, (h.answer v done).steady, (h.answer v done).tells,
    ?_, hsettled.bare⟩
  rw [hsettled.unhandled]
  cases done <;> rfl

theorem Open.answered_reject (h : e.Open p) (v : Value) :
    e.Answered (e.reject p v) p (.threw v) := by
  have hsettled : e.Settled (e.reject p v) p .reject :=
    h.settled (nofun : Settling.reject = .fulfill → ∀ q, v ≠ .promise q)
  exact ⟨hsettled.conserves, hsettled.steady, (h.reject v).tells, hsettled.unhandled, hsettled.bare⟩

theorem Records.answered (h : e.Records told) (hp : e.Open p) (ha : e.Answered e' p o) :
    e'.Records (told ++ [(p, o)]) := by
  have happend : thrown (told ++ [(p, o)]) = thrown told ++ thrown [(p, o)] :=
    List.filterMap_append
  refine ⟨fun x hx => ?_, ?_, fun y hy => ?_⟩
  · rcases List.mem_append.1 hx with hx | hx
    · exact (h.tells x hx).lasts ha.conserves.lasts
    · rw [List.mem_singleton.1 hx]
      exact ha.tells
  · rw [ha.unhandled, h.unhandled, happend, List.map_append]
  · rw [happend] at hy
    rcases List.mem_append.1 hy with hy | hy
    · have hstate := h.rejected hy
      have hne : some p ≠ some y.1 := by
        rintro ⟨⟩
        rw [hp.pending] at hstate
        cases hstate
      rw [ha.conserves.others y.1 (h.lt_size hy) hne (by simp [hstate]), h.bare y hy]
    · obtain ⟨rfl, -⟩ := Prod.mk.inj (List.mem_singleton.1 (mem_thrown hy))
      exact ha.bare

/-! ## Waiting -/

/-- What stands for a value: the value itself, or a promise fulfilled with it. -/
inductive Offers (e : Engine H) : Value → Value → Prop where
  | itself {u : Value} : (∀ q, u ≠ .promise q) → Offers e u u
  | promised {p : PromiseRef} {u : Value} : (∀ q, u ≠ .promise q) →
      (e.promise p).state = .fulfilled u → Offers e (.promise p) u

theorem Offers.lasts (h : e.Offers x u) (hlasts : e.Lasts e') : e'.Offers x u := by
  cases h with
  | itself hu => exact .itself hu
  | promised hu hp => exact .promised hu ((hlasts.state _ (by simp [hp])).trans hp)

/-- A wait is over with the next job. -/
structure Suspends (e e' : Engine H) (u : Value) (w : Waiter H) (f : FunctionRef) : Prop where
  conserves : e.Conserves e' none
  unhandled : e'.unhandled = e.unhandled
  jobs : e'.waitingJobs = e.waitingJobs ++ [.reaction ⟨.fulfill, some f, none⟩ u]
  callable : e'.callable f = ⟨"awaitFulfilled", .once, .wake w .fulfill⟩
  generators : e'.generators = e.generators
  asyncGenerators : e'.asyncGenerators = e.asyncGenerators

/-- Waiting for a promise that is fulfilled. -/
theorem suspends_await_promise (hp : (e.promise p).state = .fulfilled u) (w : Waiter H) :
    ∃ f, e.Suspends (e.await (.promise p) w) u w f := by
  let f : FunctionRef := ⟨e.callables.size⟩
  let c : Callable H := ⟨"awaitFulfilled", .once, .wake w .fulfill⟩
  let c' : Callable H := ⟨"awaitRejected", .once, .wake w .reject⟩
  let e₁ := (e.newFunction c).2
  let e₂ := (e₁.newFunction c').2
  have heq : e.await (.promise p) w =
      (e₂.modifyPromise p fun r => { r with handled := true }).enqueue
        (.reaction ⟨.fulfill, some f, none⟩ u) := by
    have hstate : (e₂.promise p).state = .fulfilled u := hp
    show e₂.performThen p (some f) (some (e₁.newFunction c').1) none = _
    rw [performThen]
    simp only [hstate]
  have hpromise : ∀ q, (e.await (.promise p) w).promise q =
      if q = p then { e.promise p with handled := true } else e.promise q := fun q => by
    rw [heq]
    exact promise_modifyPromise e₂ p q _
  refine ⟨f, ⟨⟨?_, ?_, fun q _ => ?_⟩, ?_, fun q _ _ hq => ?_, ?_⟩, ?_, ?_, ?_, ?_, ?_⟩
  · rw [heq]
    exact le_rfl
  · intro o ho
    rw [heq]
    rfl
  · rw [hpromise]
    split
    · next h => rw [h]
    · rfl
  · rw [heq]
    exact (le_max_left ..).trans_eq (size_modifyPromise e₂ p _).symm
  · rw [hpromise, if_neg]
    rintro rfl
    exact hq u hp
  · rw [heq]
    rfl
  · rw [heq]
    rfl
  · rw [heq]
    exact List.map_append
  · have hne : f ≠ ⟨e₁.callables.size⟩ := by
      intro hf
      have hsize : e.callables.size = e.callables.size + 1 :=
        (congrArg FunctionRef.index hf).trans (Store.size_push _ _)
      omega
    rw [heq]
    show e₂.callable f = c
    rw [callable_newFunction, if_neg hne, callable_newFunction, if_pos rfl]
  · rw [heq]
    rfl
  · rw [heq]
    rfl

/-- A value that is no promise gets one that is fulfilled with it. -/
theorem promiseOf_plain (e : Engine H) (hu : ∀ q, u ≠ .promise q) :
    ((e.promiseOf u).2.promise (e.promiseOf u).1).state = .fulfilled u ∧
      e.Conserves (e.promiseOf u).2 none ∧ e.Steady (e.promiseOf u).2 ∧
      (e.promiseOf u).2.unhandled = e.unhandled := by
  let e₁ := e.newPromise.2
  let p := e.newPromise.1
  have heq : e.promiseOf u = (p, e₁.resolve p u) := by
    cases u with
    | promise q => exact absurd rfl (hu q)
    | _ => rfl
  have hopen : e₁.Open p := open_newPromise e
  have hplain : Settling.fulfill = .fulfill → ∀ q, u ≠ .promise q := fun _ => hu
  have hsettled : e₁.Settled (e₁.resolve p u) p .fulfill := hopen.settled hplain
  have hconserves : e.Conserves (e₁.resolve p u) none :=
    (Conserves.newPromise e).trans_new hsettled.conserves (Nat.lt_irrefl _)
  have hsteady := hsettled.steady
  rw [heq]
  exact ⟨(state_settle hopen.unresolved hopen.pending hplain p).trans (if_pos rfl), hconserves,
    ⟨hsteady.generators, hsteady.asyncGenerators, hsteady.callables, hsteady.waitingJobs,
      hsteady.draining, hsteady.limit⟩, hsettled.unhandled.trans (List.append_nil _)⟩

/-- **A value that is offered is waited for with one job.** -/
theorem Offers.suspends (h : e.Offers x u) (w : Waiter H) :
    ∃ f, e.Suspends (e.await x w) u w f := by
  cases h with
  | promised hu hp => exact suspends_await_promise hp w
  | itself hu =>
    obtain ⟨hstate, hconserves, hsteady, hunhandled⟩ := e.promiseOf_plain hu
    have heq : e.await u w = (e.promiseOf u).2.await (.promise (e.promiseOf u).1) w := rfl
    obtain ⟨f, hs⟩ := suspends_await_promise hstate w
    rw [heq]
    exact ⟨f, hconserves.trans hs.conserves, hs.unhandled.trans hunhandled,
      by rw [hs.jobs, hsteady.waitingJobs], hs.callable, hs.generators.trans hsteady.generators,
      hs.asyncGenerators.trans hsteady.asyncGenerators⟩

end Engine

end Microtask
