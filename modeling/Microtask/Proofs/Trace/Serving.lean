import Microtask.Proofs.Trace.Settling

/-!
# Requests of a generator over values

The answers that the requests of an async generator over a list of values are due
(`answersDue`), whether the values are yielded as they are or as promises fulfilled with them
(`Engine.Offers`). Plain values are answered at once, each promise takes a job, and so does a
return before the frame has begun. So the async generator stands still with all requests
answered, or with one request whose job waits and the later ones in the queue
(`Engine.Stands`). In both cases it is settled what answers all requests will have got in the
end, and a request (`Engine.Stands.request`) or a drain (`Engine.Stands.drain`) keeps to that.

Both come with a bound on the number of ticks. Serving a request takes two ticks at most, and
each job takes four more.
-/

namespace Microtask

variable {H : Type}

/-! ## Ticks -/

namespace Config

/-- One configuration leads to the other one in that many ticks. -/
def Ticks (n : Nat) (c c' : Config H) : Prop := tick^[n] c = c'

variable {m n bound : Nat} {c c₁ c₂ c' : Config H}

theorem Ticks.trans (h : Ticks m c c₁) (h' : Ticks n c₁ c₂) : Ticks (m + n) c c₂ := by
  unfold Ticks at *
  rw [Nat.add_comm, Function.iterate_add_apply, h, h']

theorem ticks_one (h : c.tick = c') : Ticks 1 c c' := h

theorem tick_of_atHost (h : c.atHost = true) : c.tick = c := by
  obtain ⟨e, control⟩ := c
  cases control with
  | host => rfl
  | _ => cases h

theorem settle_eq_iterate (n : Nat) (c : Config H) : c.settle n = tick^[n] c := by
  induction n generalizing c with
  | zero => rfl
  | succ n ih =>
    rw [settle, Function.iterate_succ_apply]
    split
    · next h => rw [tick_of_atHost h, Function.iterate_fixed (tick_of_atHost h)]
    · exact ih c.tick

/-- The host gets the floor back within the bound. -/
theorem Ticks.settle (h : Ticks n c c') (hhost : c'.atHost = true) (hn : n ≤ bound) :
    c.settle bound = c' := by
  obtain ⟨rest, rfl⟩ := Nat.exists_eq_add_of_le hn
  rw [settle_eq_iterate, Nat.add_comm, Function.iterate_add_apply, show tick^[n] c = c' from h,
    Function.iterate_fixed (tick_of_atHost hhost)]

end Config

/-! ## Answers -/

/-- The answers that requests are due, while values are still to be yielded or when the
generator is done. -/
def answersDue : Option (List Value) → List Request → List (PromiseRef × Outcome)
  | _, [] => []
  | none, r :: rs => (r.capability, .returned .undefined) :: answersDue none rs
  | some us, r :: rs =>
    match r.completion.kind, us with
    | .normal, u :: us => (r.capability, .yielded u) :: answersDue (some us) rs
    | .normal, [] => (r.capability, .returned .undefined) :: answersDue none rs
    | .throw, _ => (r.capability, .threw r.completion.value) :: answersDue none rs
    | .return, _ => (r.capability, .returned r.completion.value) :: answersDue none rs

/-- The next answer due is that of the request, and the values that are left after it. -/
def Earns (us : Option (List Value)) (r : Request) (o : Outcome) (us' : Option (List Value)) :
    Prop :=
  ∀ later, answersDue us (r :: later) = (r.capability, o) :: answersDue us' later

namespace Earns

variable (us : List Value) (v : Value) (p : PromiseRef)

theorem yielding (u : Value) :
    Earns (some (u :: us)) ⟨⟨.normal, v⟩, p⟩ (.yielded u) (some us) := fun _ => rfl

theorem exhausted : Earns (some []) ⟨⟨.normal, v⟩, p⟩ (.returned .undefined) none := fun _ => rfl

theorem returning : Earns (some us) ⟨⟨.return, v⟩, p⟩ (.returned v) none := fun _ => rfl

theorem throwing : Earns (some us) ⟨⟨.throw, v⟩, p⟩ (.threw v) none := fun _ => rfl

end Earns

namespace Engine

variable {e e' : Engine H} {a : AsyncGeneratorRef} {g : GeneratorRef} {rest : Rest H}
  {us : Option (List Value)} {o : Outcome} {told : List (PromiseRef × Outcome)}
  {r : Request} {queue : List Request} {s : AsyncGeneratorState} {us' : Option (List Value)}

/-! ## Standing still -/

/-- What rests of the generator, and the values that it is still to yield. -/
inductive Yields (e : Engine H) : Rest H → Option (List Value) → Prop where
  | fresh {xs us : List Value} : List.Forall₂ e.Offers xs us →
      Yields e (.fresh (.values ⟨xs⟩)) (some us)
  | paused {xs us : List Value} : List.Forall₂ e.Offers xs us →
      Yields e (.paused (.values ⟨xs⟩)) (some us)
  | done : Yields e .done none

theorem Yields.lasts (h : e.Yields rest us) (hlasts : e.Lasts e') : e'.Yields rest us := by
  cases h with
  | fresh h => exact .fresh (h.imp fun _ _ hx => hx.lasts hlasts)
  | paused h => exact .paused (h.imp fun _ _ hx => hx.lasts hlasts)
  | done => exact .done

/-- What has been told, and the requests that have not been answered. -/
structure Faces (e : Engine H) (told : List (PromiseRef × Outcome)) (rs : List Request) :
    Prop where
  records : e.Records told
  opens : ∀ r ∈ rs, e.Open r.capability
  nodup : (rs.map Request.capability).Nodup
  plain : ∀ r ∈ rs, ∀ q, r.completion.value ≠ .promise q

namespace Faces

theorem of_eq {rs : List Request} (h : e.Faces told rs) (ho : e'.objects = e.objects)
    (hp : e'.promises = e.promises) (hu : e'.unhandled = e.unhandled) : e'.Faces told rs where
  records := h.records.of_eq ho hp hu
  opens r hr := by
    obtain ⟨hlt, hnew⟩ := h.opens r hr
    rw [promise, ← hp] at hnew
    exact ⟨hp ▸ hlt, hnew⟩
  nodup := h.nodup
  plain := h.plain

theorem conserves {rs : List Request} (h : e.Faces told rs) (hk : e.Conserves e' none)
    (hu : e'.unhandled = e.unhandled) : e'.Faces told rs where
  records := h.records.conserves hk hu
  opens r hr := hk.isOpen (h.opens r hr) nofun
  nodup := h.nodup
  plain := h.plain

/-- The first request is answered. -/
theorem answered (h : e.Faces told (r :: queue)) (ha : e.Answered e' r.capability o) :
    e'.Faces (told ++ [(r.capability, o)]) queue := by
  obtain ⟨hr, hopens⟩ := List.forall_mem_cons.1 h.opens
  obtain ⟨hnot, hnodup⟩ := List.nodup_cons.1 h.nodup
  refine ⟨h.records.answered hr ha, fun x hx => ha.conserves.isOpen (hopens x hx) ?_, hnodup,
    fun x hx => h.plain x (List.mem_cons_of_mem _ hx)⟩
  intro heq
  exact hnot (Option.some.inj heq ▸ List.mem_map_of_mem hx)

end Faces

/-- Nothing keeps the async generator from serving the requests that wait. -/
structure Ready (e : Engine H) (a : AsyncGeneratorRef) (g : GeneratorRef) (rest : Rest H)
    (us : Option (List Value)) (told : List (PromiseRef × Outcome)) (queue : List Request) :
    Prop where
  sits : e.Sits a g rest rest.asyncState queue
  yields : e.Yields rest us
  jobs : e.waitingJobs = []
  faces : e.Faces told queue

/-- What a wait for a value leads to. -/
inductive Resumes (a : AsyncGeneratorRef) (r : Request) (u : Value) :
    Rest H → Waiter H → Outcome → Prop where
  | yielding (f : Frame H) : Resumes a r u (.paused f) (.yielding a r) (.yielded u)
  | returning : Resumes a r u .done (.returning a r) (.returned u)

/-- A request will be answered by the job that waits. -/
structure Halted (e : Engine H) (a : AsyncGeneratorRef) (g : GeneratorRef)
    (told : List (PromiseRef × Outcome)) (r : Request) (o : Outcome) (us : Option (List Value))
    (queue : List Request) : Prop where
  waits : ∃ rest s f u w, e.Sits a g rest s queue ∧ s.isBusy = true ∧ e.Yields rest us ∧
    e.waitingJobs = [.reaction ⟨.fulfill, some f, none⟩ u] ∧
    e.callable f = ⟨"awaitFulfilled", .once, .wake w .fulfill⟩ ∧ Resumes a r u rest w o
  faces : e.Faces told (r :: queue)

/-- One request is answered, or its job waits. -/
inductive Proceeds (e : Engine H) (a : AsyncGeneratorRef) (g : GeneratorRef)
    (told : List (PromiseRef × Outcome)) (us : Option (List Value)) (r : Request)
    (queue : List Request) : Prop where
  | answered {rest : Rest H} {us' : Option (List Value)} {o : Outcome} :
      e.Ready a g rest us' (told ++ [(r.capability, o)]) queue → Earns us r o us' →
      Proceeds e a g told us r queue
  | halted {us' : Option (List Value)} {o : Outcome} : e.Halted a g told r o us' queue →
      Earns us r o us' → Proceeds e a g told us r queue

/-! ## Serving -/

section Ticks

variable {k : Caller H} {reply : Value}

open Config

theorem ticks_answered (h : e.takeRequest a = (e', .answered)) :
    Ticks 1 ⟨e, .serve a reply k⟩ ⟨e', .serve a reply k⟩ :=
  ticks_one (by simp only [Config.tick, serve, h])

/-- The requests wait or are all served. -/
theorem ticks_idle (h : (e.asyncGenerator a).state.isBusy = true ∨
    (e.asyncGenerator a).queue = []) :
    Ticks 1 ⟨e, .serve a reply k⟩ ⟨e, .deliver (.ok reply) k⟩ :=
  ticks_one (by simp only [Config.tick, serve, takeRequest_idle h])

variable (k reply)

/-- A frame that is resumed stops with the next tick. -/
theorem ticks_resume {f f' : ValuesFrame} (h : e.Sits a g rest rest.asyncState (r :: queue))
    (hrest : rest = .paused (.values f) ∨
      rest = .fresh (.values f) ∧ r.completion.kind = .normal)
    (hf : f.resume r.completion = (o, f')) :
    ∃ generators asyncGenerators,
      { e with generators, asyncGenerators }.Sits a g (.after o (.values f')) .executing queue ∧
      Ticks 2 ⟨e, .serve a reply k⟩
        ⟨{ e with generators, asyncGenerators }.absorbOutcome a r (.ok o), .serve a reply k⟩ := by
  let e₁ := (e.modifyAsyncGenerator a fun x => { x with queue }).setAsyncState a .executing
  have hsits : e₁.Sits a g rest .executing queue := (h.take queue).setState .executing
  have htake : e.takeRequest a = (e₁, .resume g r) := by
    rcases hrest with rfl | ⟨rfl, hkind⟩
    · simp [takeRequest, h.state, h.queue, h.inner, AsyncGeneratorState.isBusy,
        Rest.asyncState, e₁]
    · simp [takeRequest, h.state, h.queue, h.inner, hkind, AsyncGeneratorState.isBusy,
        Rest.asyncState, e₁]
  have hframe : (e₁.generator g).frame = some (.values f) := by
    rw [hsits.holds.frame]
    rcases hrest with rfl | ⟨rfl, -⟩ <;> rfl
  have htakes : (e₁.generator g).Takes r.completion := by
    rw [Generator.Takes, hsits.holds.state]
    rcases hrest with rfl | ⟨rfl, hkind⟩
    · exact .inl rfl
    · exact .inr ⟨rfl, by simp [Completion.isAbrupt, hkind]⟩
  let purpose : Purpose H := .serving a r reply k
  have hstep : e₁.stepGenerator g r.completion purpose =
      ⟨e₁.takeOut g, .resume (.values f) r.completion (.generator g purpose)⟩ := by
    rw [stepGenerator, beginStep_of_takes htakes hframe]
  let e₂ := (e₁.takeOut g).endStep g (.values f') o
  have hholds : e₂.Holds g (.after o (.values f')) := e₁.holds_endStep g (.values f') o
  have heq : e₂ = { e with
      generators := e₂.generators
      asyncGenerators := e₁.asyncGenerators } := by
    simp only [e₂, endStep]
    split <;> rfl
  have hbegin : Ticks 1 ⟨e, .serve a reply k⟩ (e₁.stepGenerator g r.completion purpose) :=
    ticks_one (by simp only [Config.tick, serve, htake]; rfl)
  have hend : Ticks 1 (e₁.stepGenerator g r.completion purpose)
      ⟨e₂.absorbOutcome a r (.ok o), .serve a reply k⟩ := by
    rw [hstep]
    refine ticks_one ?_
    simp only [Config.tick, resumeFrame, hf]
    rfl
  refine ⟨e₂.generators, e₁.asyncGenerators, ?_, ?_⟩
  · exact ⟨hsits.state, hsits.inner, hsits.queue, hholds.of_eq rfl⟩
  · rw [← heq]
    exact hbegin.trans hend

end Ticks

/-- A request has been taken off the queue. -/
structure Taken (e : Engine H) (a : AsyncGeneratorRef) (g : GeneratorRef) (rest : Rest H)
    (s : AsyncGeneratorState) (us : Option (List Value)) (told : List (PromiseRef × Outcome))
    (r : Request) (queue : List Request) : Prop where
  sits : e.Sits a g rest s queue
  yields : e.Yields rest us
  jobs : e.waitingJobs = []
  faces : e.Faces told (r :: queue)

namespace Taken

theorem setState (h : e.Taken a g rest s us told r queue) (s' : AsyncGeneratorState) :
    (e.setAsyncState a s').Taken a g rest s' us told r queue where
  sits := h.sits.setState s'
  yields := h.yields.lasts (.of_eq rfl rfl)
  jobs := h.jobs
  faces := h.faces.of_eq rfl rfl rfl

/-- The request gets its answer. -/
theorem ready (h : e.Taken a g rest rest.asyncState us told r queue)
    (ha : e.Answered e' r.capability o) :
    e'.Ready a g rest us (told ++ [(r.capability, o)]) queue where
  sits := h.sits.of_eq ha.steady.generators ha.steady.asyncGenerators
  yields := h.yields.lasts ha.conserves.lasts
  jobs := ha.steady.waitingJobs.trans h.jobs
  faces := h.faces.answered ha

/-- The request waits for a value. -/
theorem halted (h : e.Taken a g rest s us told r queue) (hs : s.isBusy = true) {x u : Value}
    (hx : e.Offers x u) {w : Waiter H} (hw : Resumes a r u rest w o) :
    (e.await x w).Halted a g told r o us queue ∧ (e.await x w).settings = e.settings := by
  obtain ⟨f, hf⟩ := hx.suspends w
  refine ⟨⟨⟨rest, s, f, u, w, h.sits.of_eq hf.generators hf.asyncGenerators, hs,
    h.yields.lasts hf.conserves.lasts, ?_, hf.callable, hw⟩,
    h.faces.conserves hf.conserves hf.unhandled⟩, hf.conserves.settings⟩
  rw [hf.jobs, h.jobs]
  rfl

/-- The generator is done with an answer. -/
theorem completed (h : e.Taken a g .done s none told r queue) (v : Value)
    (hearns : Earns us r (.returned v) none) :
    (e.completeWith a r v).Proceeds a g told us r queue ∧
      (e.completeWith a r v).settings = e.settings := by
  have h' : (e.setAsyncState a .completed).Taken a g .done _ none told r queue :=
    h.setState .completed
  have ha := (h'.faces.opens r List.mem_cons_self).answered_request v true
  exact ⟨.answered (h'.ready ha) hearns, ha.conserves.settings⟩

/-- The generator is done with an exception. -/
theorem failed (h : e.Taken a g .done s none told r queue) (v : Value)
    (hearns : Earns us r (.threw v) none) :
    (e.failWith a r v).Proceeds a g told us r queue ∧
      (e.failWith a r v).settings = e.settings := by
  have h' : (e.setAsyncState a .completed).Taken a g .done _ none told r queue :=
    h.setState .completed
  have ha := (h'.faces.opens r List.mem_cons_self).answered_reject v
  exact ⟨.answered (h'.ready ha) hearns, ha.conserves.settings⟩

/-- A value is yielded. A promise is waited for. -/
theorem yielded {f : Frame H} (h : e.Taken a g (.paused f) .executing us' told r queue)
    {x u : Value} (hx : e.Offers x u)
    (hearns : Earns us r (.yielded u) us') :
    (e.absorbOutcome a r (.ok (.yielded x))).Proceeds a g told us r queue ∧
      (e.absorbOutcome a r (.ok (.yielded x))).settings = e.settings := by
  cases hx with
  | itself hu =>
    have h' : (e.setAsyncState a .suspendedYield).Taken a g (.paused f) _ us' told r queue :=
      h.setState .suspendedYield
    have ha := (h'.faces.opens r List.mem_cons_self).answered_request x false
    have heq : e.absorbOutcome a r (.ok (.yielded x)) = e.settleYield a r x := by
      cases x with
      | promise q => exact absurd rfl (hu q)
      | _ => rfl
    rw [heq]
    exact ⟨.answered (h'.ready ha) hearns, ha.conserves.settings⟩
  | promised hu hp =>
    obtain ⟨hhalted, hsettings⟩ := h.halted rfl (.promised hu hp) (.yielding f)
    exact ⟨.halted hhalted hearns, hsettings⟩

end Taken

section Serve

open Config

/-- The frame is resumed for the first request. -/
theorem Ready.resumes {xs us : List Value} (h : e.Ready a g rest (some us) told (r :: queue))
    (hrest : rest = .paused (.values ⟨xs⟩) ∨
      rest = .fresh (.values ⟨xs⟩) ∧ r.completion.kind = .normal)
    (hxs : List.Forall₂ e.Offers xs us) (k : Caller H) (reply : Value) :
    ∃ e', Ticks 2 ⟨e, .serve a reply k⟩ ⟨e', .serve a reply k⟩ ∧
      e'.Proceeds a g told (some us) r queue ∧ e'.settings = e.settings := by
  have hfaces : ∀ generators asyncGenerators,
      { e with generators, asyncGenerators }.Faces told (r :: queue) := fun _ _ =>
    h.faces.of_eq rfl rfl rfl
  -- with every outcome that finishes the frame, nothing is left to be yielded
  have hdone : ∀ {o : Outcome} {f' : ValuesFrame}, ValuesFrame.resume ⟨xs⟩ r.completion = (o, f') →
      o.isFinished = true → ∃ e₁ : Engine H, e₁.Taken a g .done .executing none told r queue ∧
        e₁.settings = e.settings ∧
        Ticks 2 ⟨e, .serve a reply k⟩ ⟨e₁.absorbOutcome a r (.ok o), .serve a reply k⟩ := by
    intro o f' hf ho
    obtain ⟨generators, asyncGenerators, hsits, hticks⟩ := ticks_resume k reply h.sits hrest hf
    rw [Rest.after, if_pos ho] at hsits
    exact ⟨_, ⟨hsits, .done, h.jobs, hfaces _ _⟩, rfl, hticks⟩
  obtain ⟨⟨kind, v⟩, p⟩ := r
  cases kind with
  | throw =>
    obtain ⟨e₁, htaken, hsettings, hticks⟩ := hdone rfl rfl
    obtain ⟨hproceeds, hsame⟩ := htaken.failed v (.throwing us v p)
    exact ⟨_, hticks, hproceeds, hsame.trans hsettings⟩
  | «return» =>
    obtain ⟨e₁, htaken, hsettings, hticks⟩ := hdone rfl rfl
    obtain ⟨hproceeds, hsame⟩ := htaken.completed v (.returning us v p)
    have heq : e₁.absorbOutcome a ⟨⟨.return, v⟩, p⟩ (.ok (.returned v)) =
        e₁.completeWith a ⟨⟨.return, v⟩, p⟩ v := by
      have hv : ∀ q, v ≠ .promise q := h.faces.plain _ List.mem_cons_self
      cases v with
      | promise q => exact absurd rfl (hv q)
      | _ => rfl
    exact ⟨_, heq ▸ hticks, hproceeds, hsame.trans hsettings⟩
  | normal =>
    cases hxs with
    | nil =>
      obtain ⟨e₁, htaken, hsettings, hticks⟩ := hdone rfl rfl
      obtain ⟨hproceeds, hsame⟩ := htaken.completed .undefined (.exhausted v p)
      exact ⟨_, hticks, hproceeds, hsame.trans hsettings⟩
    | @cons x u xs us hx hxs =>
      obtain ⟨generators, asyncGenerators, hsits, hticks⟩ :=
        ticks_resume k reply h.sits hrest rfl
      have hlasts : e.Lasts { e with generators, asyncGenerators } := .of_eq rfl rfl
      have htaken : { e with generators, asyncGenerators }.Taken a g (.paused (.values ⟨xs⟩))
          .executing (some us) told ⟨⟨.normal, v⟩, p⟩ queue :=
        ⟨hsits, .paused (hxs.imp fun _ _ hx => hx.lasts hlasts), h.jobs, hfaces _ _⟩
      obtain ⟨hproceeds, hsame⟩ := htaken.yielded (hx.lasts hlasts) (.yielding us v p u)
      exact ⟨_, hticks, hproceeds, hsame⟩

/-- **The first request is served** within two ticks. -/
theorem Ready.step (h : e.Ready a g rest us told (r :: queue)) (k : Caller H) (reply : Value) :
    ∃ n e', n ≤ 2 ∧ Ticks n ⟨e, .serve a reply k⟩ ⟨e', .serve a reply k⟩ ∧
      e'.Proceeds a g told us r queue ∧ e'.settings = e.settings := by
  let e₁ := e.modifyAsyncGenerator a fun x => { x with queue }
  have hsits : e₁.Sits a g rest rest.asyncState queue := h.sits.take queue
  have hfaces : e₁.Faces told (r :: queue) := h.faces.of_eq rfl rfl rfl
  cases h.yields with
  | done =>
    have ha := (hfaces.opens r List.mem_cons_self).answered_request .undefined true
    have htaken : e₁.Taken a g .done .completed none told r queue := ⟨hsits, .done, h.jobs, hfaces⟩
    exact ⟨1, _, Nat.le_succ 1, ticks_answered (takeRequest_done h.sits),
      .answered (htaken.ready ha) fun _ => rfl, ha.conserves.settings⟩
  | paused hxs =>
    obtain ⟨e', hticks, hproceeds, hsettings⟩ := h.resumes (.inl rfl) hxs k reply
    exact ⟨2, e', le_rfl, hticks, hproceeds, hsettings⟩
  | @fresh xs us hxs =>
    have hclosed : (e₁.closeGenerator g).Taken a g .done .suspendedStart none told r queue :=
      ⟨hsits.close, .done, h.jobs, hfaces.of_eq rfl rfl rfl⟩
    obtain ⟨⟨kind, v⟩, p⟩ := r
    cases kind with
    | normal =>
      obtain ⟨e', hticks, hproceeds, hsettings⟩ := h.resumes (.inr ⟨rfl, rfl⟩) hxs k reply
      exact ⟨2, e', le_rfl, hticks, hproceeds, hsettings⟩
    | throw =>
      obtain ⟨hproceeds, hsettings⟩ := hclosed.failed v (.throwing us v p)
      exact ⟨1, _, Nat.le_succ 1, ticks_answered (takeRequest_throw h.sits), hproceeds, hsettings⟩
    | «return» =>
      obtain ⟨hhalted, hsettings⟩ := (hclosed.setState .awaitingReturn).halted rfl
        (.itself (hfaces.plain _ List.mem_cons_self)) .returning
      exact ⟨1, _, Nat.le_succ 1, ticks_answered (takeRequest_return h.sits),
        .halted hhalted fun _ => rfl, hsettings⟩

end Serve

/-! ## What all requests come to -/

/-- The async generator has answered all requests, or it waits for the job of one of them.
Either way it is settled what answers there will be in total, by the requests to come. The
number is that of the requests not answered. -/
inductive Stands (e : Engine H) (a : AsyncGeneratorRef) (g : GeneratorRef)
    (total : List Request → List (PromiseRef × Outcome)) : Nat → Prop where
  | ready {rest : Rest H} {us : Option (List Value)} {told : List (PromiseRef × Outcome)} :
      e.Ready a g rest us told [] → (∀ later, total later = told ++ answersDue us later) →
      Stands e a g total 0
  | halted {told : List (PromiseRef × Outcome)} {r : Request} {o : Outcome}
      {us : Option (List Value)} {queue : List Request} : e.Halted a g told r o us queue →
      (∀ later, total later = told ++ (r.capability, o) :: answersDue us (queue ++ later)) →
      Stands e a g total (queue.length + 1)

section Courses

variable {total : List Request → List (PromiseRef × Outcome)}
  {m : Nat}

open Config

/-- **Serving** answers the requests in the queue, up to one that has to wait. -/
theorem Ready.serve (h : e.Ready a g rest us told queue)
    (htotal : ∀ later, total later = told ++ answersDue us (queue ++ later)) (k : Caller H)
    (reply : Value) :
    ∃ n m e', Ticks n ⟨e, .serve a reply k⟩ ⟨e', .deliver (.ok reply) k⟩ ∧
      e'.Stands a g total m ∧ e'.settings = e.settings ∧ m ≤ queue.length ∧
      n + 2 * m ≤ 2 * queue.length + 3 := by
  induction queue generalizing e rest us told with
  | nil => exact ⟨1, 0, e, ticks_idle (.inr h.sits.queue), .ready h htotal, rfl, le_rfl, by omega⟩
  | cons r queue ih =>
    obtain ⟨n, e₁, hn, hticks, hproceeds, hsettings⟩ := h.step k reply
    cases hproceeds with
    | answered h₁ hearns =>
      obtain ⟨n', m, e', hticks', hstands, hsettings', hm, hn'⟩ := ih h₁ fun later => by
        rw [htotal, List.cons_append, hearns, List.append_assoc, List.singleton_append]
      refine ⟨n + n', m, e', hticks.trans hticks', hstands, hsettings'.trans hsettings, ?_, ?_⟩ <;>
      · rw [List.length_cons]
        omega
    | @halted us' o h₁ hearns =>
      obtain ⟨rest', s, f, u, w, hsits, hbusy, -⟩ := h₁.waits
      have hidle : Ticks 1 ⟨e₁, .serve a reply k⟩ ⟨e₁, .deliver (.ok reply) k⟩ :=
        ticks_idle (.inl (by rw [hsits.state, hbusy]))
      refine ⟨n + 1, queue.length + 1, e₁, hticks.trans hidle, .halted h₁ fun later => ?_,
        hsettings, le_rfl, ?_⟩
      · rw [htotal, List.cons_append, hearns]
      · rw [List.length_cons]
        omega

/-! ## Requests -/

/-- A new request is the last one. -/
theorem Faces.addRequest {rs : List Request} (h : e.Faces told rs) {c : Completion}
    (hc : ∀ q, c.value ≠ .promise q) :
    (e.addRequest a c).2.Faces told (rs ++ [⟨c, ⟨e.promises.size⟩⟩]) := by
  have hfaces : (e.addRequest a c).2.Faces told rs :=
    h.conserves ((Conserves.newPromise e).trans (.of_eq rfl rfl rfl)) rfl
  have hopen : (e.addRequest a c).2.Open ⟨e.promises.size⟩ :=
    ⟨(open_newPromise e).lt_size, (open_newPromise e).new⟩
  refine ⟨hfaces.records, ?_, ?_, ?_⟩
  · exact List.forall_mem_append.2 ⟨hfaces.opens, List.forall_mem_singleton.2 hopen⟩
  · rw [List.map_append]
    refine h.nodup.append (List.nodup_singleton _) fun p hp hlast => ?_
    -- the promises of the other requests exist already
    obtain ⟨r, hr, rfl⟩ := List.mem_map.1 hp
    have hlt := (h.opens r hr).lt_size
    rw [List.mem_singleton.1 hlast] at hlt
    exact Nat.lt_irrefl _ hlt
  · exact List.forall_mem_append.2 ⟨h.plain, List.forall_mem_singleton.2 hc⟩

/-- **A request** is answered, or it waits with the others. -/
theorem Stands.request (h : e.Stands a g total m) {c : Completion}
    (hc : ∀ q, c.value ≠ .promise q) (host : Activation H) :
    ∃ n m' e' answer, Ticks n (e.request a c (.host host)) ⟨e', .host host answer⟩ ∧
      e'.Stands a g (fun later => total (⟨c, ⟨e.promises.size⟩⟩ :: later)) m' ∧
      e'.settings = e.settings ∧ n ≤ 6 ∧ m' ≤ m + 1 := by
  let r : Request := ⟨c, ⟨e.promises.size⟩⟩
  let e₁ := (e.addRequest a c).2
  have hlasts : e.Lasts e₁ := e.lasts_newPromise.trans (.of_eq rfl rfl)
  have hdeliver : ∀ e' : Engine H, Ticks 1 ⟨e', .deliver (.ok (.promise r.capability)) (.host host)⟩
      ⟨e', .host host (.answered (.value (.ok (.promise r.capability))))⟩ := fun _ => ticks_one rfl
  cases h with
  | ready h htotal =>
    have h₁ : e₁.Ready a g _ _ _ [r] :=
      ⟨h.sits.addRequest c, h.yields.lasts hlasts, h.jobs, h.faces.addRequest hc⟩
    obtain ⟨n, m', e', hticks, hstands, hsettings, hm, hn⟩ :=
      h₁.serve (fun later => htotal (r :: later)) (.host host) (.promise r.capability)
    exact ⟨n + 1, m', e', _, hticks.trans (hdeliver e'), hstands, hsettings,
      by rw [List.length_singleton] at hn; omega, hm⟩
  | @halted told r₀ o us queue h htotal =>
    obtain ⟨rest, s, f, u, w, hsits, hbusy, hyields, hjobs, hcallable, hw⟩ := h.waits
    have hsits₁ : e₁.Sits a g rest s (queue ++ [r]) := hsits.addRequest c
    have h₁ : e₁.Halted a g told r₀ o us (queue ++ [r]) :=
      ⟨⟨rest, s, f, u, w, hsits₁, hbusy, hyields.lasts hlasts, hjobs, hcallable, hw⟩,
        h.faces.addRequest hc⟩
    have hbusy₁ : (e₁.asyncGenerator a).state.isBusy = true := by rw [hsits₁.state, hbusy]
    have hidle : Ticks 1 (e.request a c (.host host))
        ⟨e₁, .deliver (.ok (.promise r.capability)) (.host host)⟩ := ticks_idle (.inl hbusy₁)
    refine ⟨2, (queue ++ [r]).length + 1, e₁, _, hidle.trans (hdeliver e₁),
      .halted h₁ fun later => ?_, rfl, by omega, ?_⟩
    · rw [htotal, List.append_assoc, List.singleton_append]
    · rw [List.length_append, List.length_singleton]

/-! ## Drains -/

/-- **The job that waits** answers its request, and then the others are served. -/
theorem Halted.wake (h : e.Halted a g told r o us queue)
    (htotal : ∀ later, total later = told ++ (r.capability, o) :: answersDue us (queue ++ later))
    (i : Nat) (host : Activation H) :
    ∃ n m e', Ticks n ⟨e, .drain (.loop none i host)⟩ ⟨e', .drain (.loop none (i + 1) host)⟩ ∧
      e'.Stands a g total m ∧ e'.settings = e.settings ∧ m ≤ queue.length ∧
      n + 2 * m ≤ 2 * queue.length + 6 := by
  obtain ⟨rest, s, f, u, w, hsits, hbusy, hyields, hjobs, hcallable, hw⟩ := h.waits
  let d : Drain H := .loop none (i + 1) host
  let k : Caller H := .reaction none d
  let e₁ : Engine H := { e with jobs := { e.jobs with waiting := [] } }
  let e₂ := e₁.spend f
  have hround : Ticks 1 ⟨e, .drain (.loop none i host)⟩ ⟨e₁, .call f [u] k⟩ := by
    obtain ⟨⟨id, job⟩, hwaiting, hjob⟩ := List.map_eq_singleton_iff.1 hjobs
    obtain rfl : job = _ := hjob
    refine ticks_one ?_
    simp [Config.tick, drainRound, limitReached, JobQueue.pop?, hwaiting, runJob, e₁, k, d]
  have htaken : e₂.Taken a g rest s us told r queue :=
    ⟨hsits.of_eq rfl rfl, hyields.lasts (.of_eq rfl rfl), rfl,
      h.faces.of_eq rfl rfl rfl⟩
  have hwoken : ∃ e₃ : Engine H, Ticks 1 ⟨e₁, .call f [u] k⟩ ⟨e₃, .serve a .undefined k⟩ ∧
      e₃.Ready a g rest us (told ++ [(r.capability, o)]) queue ∧ e₃.settings = e.settings := by
    have hcallable : e₁.callable f = ⟨"awaitFulfilled", .once, .wake w .fulfill⟩ := hcallable
    cases hw with
    | yielding fr =>
      have h₂ : (e₂.setAsyncState a .suspendedYield).Taken a g (.paused fr) _ us told r queue :=
        htaken.setState .suspendedYield
      have ha := (h₂.faces.opens r List.mem_cons_self).answered_request u false
      refine ⟨_, ticks_one ?_, h₂.ready ha, ha.conserves.settings⟩
      simp only [Config.tick, callFunction, hcallable]
      rfl
    | returning =>
      have h₂ : (e₂.setAsyncState a .completed).Taken a g .done _ us told r queue :=
        htaken.setState .completed
      have ha := (h₂.faces.opens r List.mem_cons_self).answered_request u true
      refine ⟨_, ticks_one ?_, h₂.ready ha, ha.conserves.settings⟩
      simp only [Config.tick, callFunction, hcallable]
      rfl
  obtain ⟨e₃, hcall, hready, hsettings⟩ := hwoken
  have htotal' : ∀ later, total later =
      (told ++ [(r.capability, o)]) ++ answersDue us (queue ++ later) := fun later => by
    rw [htotal, List.append_assoc, List.singleton_append]
  obtain ⟨n, m, e', hserve, hstands, hsettings', hm, hn⟩ := hready.serve htotal' k .undefined
  have hdeliver : Ticks 1 ⟨e', .deliver (.ok .undefined) k⟩ ⟨e', .drain d⟩ := ticks_one rfl
  exact ⟨1 + (1 + (n + 1)), m, e', hround.trans (hcall.trans (hserve.trans hdeliver)), hstands,
    hsettings'.trans hsettings, hm, by omega⟩

/-- Rejections that nobody has handled are reported, unless they are to be ignored. -/
theorem Records.reportUnhandled (h : e.Records told) :
    e.reportUnhandled.reported = e.reported ++
      if e.policy = .ignore then [] else (thrown told).map (·.2) := by
  have hreasons : e.unhandledReasons = thrown told := by
    rw [unhandledReasons, h.unhandled, List.filterMap_map]
    refine (List.filterMap_congr fun y hy => ?_).trans List.filterMap_some
    simp [h.rejected hy, h.bare y hy]
  unfold Engine.reportUnhandled
  cases hp : e.policy with
  | ignore => exact (List.append_nil _).symm
  | warn | collect => rw [← hreasons]; rfl

theorem Stands.setDraining (h : e.Stands a g total m) (draining : Bool) :
    ({ e with draining } : Engine H).Stands a g total m := by
  cases h with
  | ready h htotal =>
    exact .ready ⟨h.sits.of_eq rfl rfl, h.yields.lasts (.of_eq rfl rfl), h.jobs,
      h.faces.of_eq rfl rfl rfl⟩ htotal
  | halted h htotal =>
    obtain ⟨rest, s, f, u, w, hsits, hbusy, hyields, hjobs, hcallable, hw⟩ := h.waits
    exact .halted ⟨⟨rest, s, f, u, w, hsits.of_eq rfl rfl, hbusy,
      hyields.lasts (.of_eq rfl rfl), hjobs, hcallable, hw⟩, h.faces.of_eq rfl rfl rfl⟩ htotal

/-- **A drain** answers all requests. -/
theorem Stands.drain (h : e.Stands a g total m) (i : Nat) (host : Activation H) :
    ∃ n j e', n ≤ 6 * m + 1 ∧
      Ticks n ⟨e, .drain (.loop none i host)⟩ ⟨e', .host host (.answered (.drained (.ok j)))⟩ ∧
      (∀ x ∈ total [], e'.Tells x.1 x.2) ∧
      e'.reported = e.reported ++
        if e.policy = .ignore then [] else (thrown (total [])).map (·.2) := by
  induction m using Nat.strong_induction_on generalizing e i with
  | _ m ih =>
    cases h with
    | @ready rest us told h htotal =>
      have htold : total [] = told := by
        rw [htotal]
        cases us <;> exact List.append_nil _
      have hwaiting : e.jobs.waiting = [] := List.map_eq_nil_iff.1 h.jobs
      have hdone : ({ e with draining := false } : Engine H).Records told :=
        h.faces.records.of_eq rfl rfl rfl
      refine ⟨1, i, ({ e with draining := false } : Engine H).reportUnhandled, Nat.le_refl 1,
        ticks_one ?_, fun x hx => ?_, ?_⟩
      · simp [Config.tick, drainRound, limitReached, JobQueue.pop?, hwaiting]
      · exact (hdone.tells x (htold ▸ hx)).lasts (.of_eq rfl rfl)
      · rw [htold]
        exact hdone.reportUnhandled
    | @halted told r o us queue h htotal =>
      obtain ⟨n, m', e₁, hticks, hstands, hsettings, hm, hn⟩ := h.wake htotal i host
      obtain ⟨n', j, e', hn', hticks', htells, hreported⟩ :=
        ih m' (Nat.lt_succ_of_le hm) hstands (i + 1)
      obtain ⟨hpolicy, -, -, hbefore⟩ := settings_eq_iff.1 hsettings
      rw [hpolicy, hbefore] at hreported
      exact ⟨n + n', j, e', by omega, hticks.trans hticks', htells, hreported⟩

end Courses

end Engine

end Microtask
