import Microtask.Proofs.Generator.Rests

/-!
# Async generators and generators agree

Over a frame that never awaits and never hands a promise out, an async generator does what
a generator does. Between two operations of main code it is calm, or it has been asked to
return before its frame has begun, and then a job is left that finishes it and answers
whatever has been asked since (`Engine.Serving`). Every request keeps it so
(`Engine.Serving.request`), a drain makes it calm (`Engine.Serving.drain`), and in between
both generators go through the same steps (`Rest.Steps`).

Main statement: `PromiseFree.agreement`.
-/

namespace Microtask

variable {H : Type}

/-! ## Between two operations -/

/-- The state of an async generator between two steps. -/
def Rest.asyncState : Rest H → AsyncGeneratorState
  | fresh _ => .suspendedStart
  | paused _ => .suspendedYield
  | done => .completed

/-- What an async generator makes of the outcome of a step. -/
def Rest.asyncOutcome : Rest H → Outcome → Outcome
  | done, _ => .returned .undefined
  | _, o => o

namespace Engine

variable {e e' : Engine H} {a : AsyncGeneratorRef} {g : GeneratorRef} {rest : Rest H}
  {s s' : AsyncGeneratorState} {queue queue' : List Request} {r : Request}
  {told due : List (PromiseRef × Outcome)}

/-- An async generator, and what rests of the generator inside. -/
structure Sits (e : Engine H) (a : AsyncGeneratorRef) (g : GeneratorRef) (rest : Rest H)
    (s : AsyncGeneratorState) (queue : List Request) : Prop where
  state : (e.asyncGenerator a).state = s
  inner : (e.asyncGenerator a).inner = g
  queue : (e.asyncGenerator a).queue = queue
  holds : e.Holds g rest

namespace Sits

theorem of_eq (h : e.Sits a g rest s queue) (hg : e'.generators = e.generators)
    (ha : e'.asyncGenerators = e.asyncGenerators) : e'.Sits a g rest s queue := by
  have heq : e'.asyncGenerator a = e.asyncGenerator a := by
    rw [asyncGenerator, asyncGenerator, ha]
  exact ⟨heq ▸ h.state, heq ▸ h.inner, heq ▸ h.queue, h.holds.of_eq hg⟩

theorem modify (h : e.Sits a g rest s queue) {change : AsyncGenerator → AsyncGenerator}
    (hstate : (change (e.asyncGenerator a)).state = s')
    (hinner : (change (e.asyncGenerator a)).inner = (e.asyncGenerator a).inner)
    (hqueue : (change (e.asyncGenerator a)).queue = queue') :
    (e.modifyAsyncGenerator a change).Sits a g rest s' queue' := by
  have heq := (e.asyncGenerator_modify a a change).trans (if_pos rfl)
  exact ⟨heq ▸ hstate, heq ▸ hinner.trans h.inner, heq ▸ hqueue, h.holds.of_eq rfl⟩

theorem setState (h : e.Sits a g rest s queue) (s' : AsyncGeneratorState) :
    (e.setAsyncState a s').Sits a g rest s' queue :=
  h.modify rfl rfl h.queue

theorem take (h : e.Sits a g rest s queue) (queue' : List Request) :
    (e.modifyAsyncGenerator a fun r => { r with queue := queue' }).Sits a g rest s queue' :=
  h.modify h.state rfl rfl

theorem close (h : e.Sits a g rest s queue) : (e.closeGenerator g).Sits a g .done s queue := by
  have hgen : (e.closeGenerator g).generator g = _ := (e.generator_modify g g _).trans (if_pos rfl)
  exact ⟨h.state, h.inner, h.queue, congrArg Generator.state hgen, congrArg Generator.frame hgen⟩

end Sits

/-- Nothing waits, no drain is in progress, and a drain may run a job. -/
structure Resting (e : Engine H) : Prop where
  jobs : e.waitingJobs = []
  draining : e.draining = false
  limit : e.limit ≠ some 0

theorem Resting.of_eq (h : e.Resting) (hj : e'.waitingJobs = e.waitingJobs)
    (hd : e'.draining = e.draining) (hl : e'.limit = e.limit) : e'.Resting :=
  ⟨hj.trans h.jobs, hd.trans h.draining, fun hlimit => h.limit (hl ▸ hlimit)⟩

/-- All requests have been answered. -/
structure Calm (e : Engine H) (a : AsyncGeneratorRef) (g : GeneratorRef) (rest : Rest H)
    (due : List (PromiseRef × Outcome)) : Prop where
  sits : e.Sits a g rest rest.asyncState []
  resting : e.Resting
  told : ∀ x ∈ due, e.Tells x.1 x.2

/-- A job is left that finishes the async generator with a request, others wait. -/
structure Returning (e : Engine H) (a : AsyncGeneratorRef) (g : GeneratorRef)
    (told : List (PromiseRef × Outcome)) (r : Request) (v : Value) (later : List Request)
    (f : FunctionRef) : Prop where
  sits : e.Sits a g .done .awaitingReturn later
  jobs : e.waitingJobs = [.reaction ⟨.fulfill, some f, none⟩ v]
  callable : e.callable f = ⟨"awaitFulfilled", .once, .wake (.returning a r) .fulfill⟩
  draining : e.draining = false
  limit : e.limit ≠ some 0
  told : ∀ x ∈ told, e.Tells x.1 x.2
  unseen : ∀ x ∈ r :: later, e.Open x.capability
  nodup : ((r :: later).map Request.capability).Nodup

/-- An async generator between two operations of main code, and the answers that it has
given or is going to give. -/
inductive Serving (e : Engine H) (a : AsyncGeneratorRef) (g : GeneratorRef) :
    Rest H → List (PromiseRef × Outcome) → Prop where
  | calm {rest : Rest H} {due : List (PromiseRef × Outcome)} : e.Calm a g rest due →
      Serving e a g rest due
  | returning {told : List (PromiseRef × Outcome)} {r : Request} {v : Value}
      {later : List Request} {f : FunctionRef} : e.Returning a g told r v later f →
      Serving e a g .done
        (told ++ (r.capability, .returned v) ::
          later.map fun x => (x.capability, .returned .undefined))

/-! ## Serving -/

section Ticks

variable {β : Behaviour H} {k : Caller H} {reply : Value} {held : List (Job H)}

theorem serve_of_answered (h : e.takeRequest a = (e', .answered)) :
    Logs β g ⟨⟨e, .serve a reply k⟩, held⟩ [] ⟨⟨e', .serve a reply k⟩, held⟩ :=
  .tick rfl (by simp only [Config.tick, serve, h])

theorem takeRequest_idle (h : (e.asyncGenerator a).state.isBusy = true ∨
    (e.asyncGenerator a).queue = []) : e.takeRequest a = (e, .idle) := by
  unfold takeRequest
  rcases h with hbusy | hqueue
  · simp only [hbusy, if_true]
  · simp only [hqueue, ite_self]

/-- The requests wait or are all served. -/
theorem serve_of_idle (h : (e.asyncGenerator a).state.isBusy = true ∨
    (e.asyncGenerator a).queue = []) :
    Logs β g ⟨⟨e, .serve a reply k⟩, held⟩ [] ⟨⟨e, .deliver (.ok reply) k⟩, held⟩ :=
  .tick rfl (by simp only [Config.tick, serve, takeRequest_idle h])

theorem takeRequest_done (h : e.Sits a g .done .completed (r :: queue)) :
    e.takeRequest a =
      ((e.modifyAsyncGenerator a fun x => { x with queue }).answerRequest r .undefined true,
        .answered) := by
  simp [takeRequest, h.state, h.queue, AsyncGeneratorState.isBusy]

/-- A throw before the frame has begun ends the generator and fails. -/
theorem takeRequest_throw {f : Frame H} {v : Value} {p : PromiseRef}
    (h : e.Sits a g (.fresh f) .suspendedStart (⟨.throwing v, p⟩ :: queue)) :
    e.takeRequest a =
      (((e.modifyAsyncGenerator a fun x => { x with queue }).closeGenerator g).failWith a
        ⟨.throwing v, p⟩ v, .answered) := by
  have hinner : (e.asyncGenerator a).inner = g := h.inner
  simp [takeRequest, h.state, h.queue, hinner, AsyncGeneratorState.isBusy, Completion.throwing]

/-- A return before the frame has begun ends the generator and awaits the value. -/
theorem takeRequest_return {f : Frame H} {v : Value} {p : PromiseRef}
    (h : e.Sits a g (.fresh f) .suspendedStart (⟨.returning v, p⟩ :: queue)) :
    e.takeRequest a =
      (((e.modifyAsyncGenerator a fun x => { x with queue }).closeGenerator g).awaitReturn a
        ⟨.returning v, p⟩ v, .answered) := by
  have hinner : (e.asyncGenerator a).inner = g := h.inner
  simp [takeRequest, h.state, h.queue, hinner, AsyncGeneratorState.isBusy, Completion.returning]

/-- **A completed async generator answers all that wait.** -/
theorem serve_done (h : e.Sits a g .done .completed queue)
    (hopen : ∀ x ∈ queue, e.Open x.capability) (hnd : (queue.map Request.capability).Nodup) :
    ∃ e', Logs β g ⟨⟨e, .serve a reply k⟩, held⟩ [] ⟨⟨e', .deliver (.ok reply) k⟩, held⟩ ∧
      e'.Sits a g .done .completed [] ∧ e.Lasts e' ∧ e'.waitingJobs = e.waitingJobs ∧
      e'.limit = e.limit ∧ ∀ x ∈ queue, e'.Tells x.capability (.returned .undefined) := by
  induction queue generalizing e with
  | nil => exact ⟨e, serve_of_idle (.inr h.queue), h, .refl e, rfl, rfl, fun x hx => by cases hx⟩
  | cons r queue ih =>
    obtain ⟨hr, hopen⟩ := List.forall_mem_cons.1 hopen
    obtain ⟨hnot, hnd⟩ := List.nodup_cons.1 hnd
    let e₁ := e.modifyAsyncGenerator a fun x => { x with queue }
    have hr₁ : e₁.Open r.capability := ⟨hr.lt_size, hr.new⟩
    have hsettles : e₁.Settles (e₁.answerRequest r .undefined true) r.capability _ :=
      hr₁.answer .undefined true
    have hlasts : e.Lasts (e₁.answerRequest r .undefined true) :=
      (Lasts.of_eq rfl rfl : e.Lasts e₁).trans hsettles.lasts
    have hopen' : ∀ x ∈ queue, (e₁.answerRequest r .undefined true).Open x.capability :=
      fun x hx => hsettles.open ⟨(hopen x hx).lt_size, (hopen x hx).new⟩ fun heq =>
        hnot (heq ▸ List.mem_map_of_mem hx)
    obtain ⟨e', hlogs, hsits, hlasts', hjobs, hlimit, htells⟩ :=
      ih ((h.take queue).of_eq hsettles.steady.generators hsettles.steady.asyncGenerators)
        hopen' hnd
    refine ⟨e', (serve_of_answered (takeRequest_done h)).trans hlogs, hsits, hlasts.trans hlasts',
      hjobs.trans hsettles.steady.waitingJobs, hlimit.trans hsettles.steady.limit,
      List.forall_mem_cons.2 ⟨hsettles.tells.lasts hlasts', htells⟩⟩

end Ticks

/-! ## Requests -/

/-- A request whose answer is due. -/
structure Requested (e : Engine H) (a : AsyncGeneratorRef) (g : GeneratorRef) (rest : Rest H)
    (r : Request) (due : List (PromiseRef × Outcome)) : Prop where
  sits : e.Sits a g rest rest.asyncState [r]
  resting : e.Resting
  told : ∀ x ∈ due, e.Tells x.1 x.2
  unseen : e.Open r.capability

namespace Requested

/-- The answer makes an async generator calm. -/
theorem calm (h : e.Requested a g rest r due) {e₁ : Engine H} {rest' : Rest H} {o : Outcome}
    (hsits : e₁.Sits a g rest' rest'.asyncState []) (hresting : e₁.Resting) (hlasts : e.Lasts e₁)
    (hsettles : e₁.Settles e' r.capability o) : e'.Calm a g rest' (due ++ [(r.capability, o)]) where
  sits := hsits.of_eq hsettles.steady.generators hsettles.steady.asyncGenerators
  resting := hresting.of_eq hsettles.steady.waitingJobs hsettles.steady.draining
    hsettles.steady.limit
  told x hx := by
    rcases List.mem_append.1 hx with hx | hx
    · exact (h.told x hx).lasts (hlasts.trans hsettles.lasts)
    · rw [List.mem_singleton.1 hx]
      exact hsettles.tells

/-- What becomes of a plain outcome. -/
theorem absorb {e₁ : Engine H} {f' : Frame H} {o : Outcome} (h : e.Requested a g rest r due)
    (hsits : e₁.Sits a g (.after o f') .executing []) (hresting : e₁.Resting)
    (hlasts : e.Lasts e₁) (hopen : e₁.Open r.capability) (ho : o.IsPlain) :
    (e₁.absorbOutcome a r (.ok o)).Calm a g (.after o f') (due ++ [(r.capability, o)]) := by
  have hset : ∀ s, e₁.Lasts (e₁.setAsyncState a s) := fun s => .of_eq rfl rfl
  have hopen' : ∀ s, (e₁.setAsyncState a s).Open r.capability :=
    fun s => ⟨hopen.lt_size, hopen.new⟩
  have hresting' : ∀ s, (e₁.setAsyncState a s).Resting := fun s => hresting.of_eq rfl rfl rfl
  cases o with
  | yielded v =>
    have heq : e₁.absorbOutcome a r (.ok (.yielded v)) = e₁.settleYield a r v := by
      cases v with
      | promise q => exact absurd rfl (ho q)
      | _ => rfl
    rw [heq]
    exact h.calm (hsits.setState .suspendedYield) (hresting' _) (hlasts.trans (hset _))
      ((hopen' _).answer v false)
  | returned v =>
    have heq : e₁.absorbOutcome a r (.ok (.returned v)) = e₁.completeWith a r v := by
      cases v with
      | promise q => exact absurd rfl (ho q)
      | _ => rfl
    rw [heq]
    exact h.calm (hsits.setState .completed) (hresting' _) (hlasts.trans (hset _))
      ((hopen' _).answer v true)
  | threw v =>
    exact h.calm (hsits.setState .completed) (hresting' _) (hlasts.trans (hset _))
      ((hopen' _).reject v)
  | awaiting v => exact ho.elim

end Requested

section Serve

variable {β : Behaviour H} {k : Caller H} {reply : Value} {held : List (Job H)} {o : Outcome}
  {log : List FrameEvent} {rest' : Rest H}

/-- The frame is resumed for the request, and what it answers is passed on. -/
theorem Requested.resume (h : e.Requested a g rest r due)
    (hstep : rest.Steps β r.completion o log rest') (ho : o.IsPlain) {f' : Frame H}
    (hafter : rest' = .after o f')
    (htake : e.takeRequest a = ((e.modifyAsyncGenerator a fun x =>
      { x with queue := [] }).setAsyncState a .executing, .resume g r)) :
    ∃ e', Logs β g ⟨⟨e, .serve a reply k⟩, held⟩ log ⟨⟨e', .serve a reply k⟩, held⟩ ∧
      e'.Calm a g rest' (due ++ [(r.capability, o)]) := by
  let e₁ := (e.modifyAsyncGenerator a fun x => { x with queue := [] }).setAsyncState a .executing
  have hsits : e₁.Sits a g rest .executing [] := (h.sits.take []).setState .executing
  obtain ⟨generators, hholds, hplays⟩ := hstep.plays hsits.holds (.serving a r reply k) held
  have hbegin : Logs β g ⟨⟨e, .serve a reply k⟩, held⟩ []
      ⟨e₁.stepGenerator g r.completion (.serving a r reply k), held⟩ :=
    .tick rfl (by simp only [Config.tick, serve, htake]; rfl)
  have hsits' : ({ e₁ with generators } : Engine H).Sits a g rest' .executing [] :=
    ⟨hsits.state, hsits.inner, hsits.queue, hholds⟩
  refine ⟨_, hbegin.trans hplays, ?_⟩
  subst hafter
  exact h.absorb hsits' (h.resting.of_eq rfl rfl rfl) (.of_eq rfl rfl)
    ⟨h.unseen.lt_size, h.unseen.new⟩ ho

/-- **A request that comes first is served at once**, but for a return before the frame has
begun. -/
theorem Requested.serve (h : e.Requested a g rest r due)
    (hstep : rest.Steps β r.completion o log rest') (ho : o.IsPlain)
    (hc : ∀ q, r.completion.value ≠ .promise q) :
    ∃ e', Logs β g ⟨⟨e, .serve a reply k⟩, held⟩ log ⟨⟨e', .serve a reply k⟩, held⟩ ∧
      e'.Serving a g rest' (due ++ [(r.capability, rest.asyncOutcome o)]) := by
  let e₁ := e.modifyAsyncGenerator a fun x => { x with queue := [] }
  have hopen : e₁.Open r.capability := ⟨h.unseen.lt_size, h.unseen.new⟩
  cases hstep with
  | closes f habrupt =>
    have hsits : (e₁.closeGenerator g).Sits a g .done _ [] := (h.sits.take []).close
    obtain ⟨⟨kind, v⟩, p⟩ := r
    cases kind with
    | normal => cases habrupt
    | throw =>
      refine ⟨_, serve_of_answered (takeRequest_throw h.sits), .calm (h.calm (hsits.setState .completed)
        (h.resting.of_eq rfl rfl rfl) (.of_eq rfl rfl) (Open.reject ?_ v))⟩
      exact ⟨hopen.lt_size, hopen.new⟩
    | «return» =>
      let e₂ := (e₁.closeGenerator g).setAsyncState a .awaitingReturn
      obtain ⟨f, hw⟩ := e₂.waits_await hc (.returning a ⟨⟨.return, v⟩, p⟩)
      have hspares := e₂.spares_await v (.returning a ⟨⟨.return, v⟩, p⟩)
      have hlasts : e.Lasts ((e₁.closeGenerator g).awaitReturn a ⟨⟨.return, v⟩, p⟩ v) :=
        (Lasts.of_eq rfl rfl : e.Lasts e₂).trans hw.lasts
      have hreturning : ((e₁.closeGenerator g).awaitReturn a ⟨⟨.return, v⟩, p⟩ v).Returning a g
          due ⟨⟨.return, v⟩, p⟩ v [] f := ?_
      · exact ⟨_, serve_of_answered (takeRequest_return h.sits), .returning hreturning⟩
      refine ⟨(hsits.setState .awaitingReturn).of_eq hspares.generators hspares.asyncGenerators,
        hw.jobs.trans ?_, hw.callable, hw.draining.trans h.resting.draining,
        fun hlimit => h.resting.limit (hw.limit ▸ hlimit), fun x hx => (h.told x hx).lasts hlasts,
        ?_, List.nodup_singleton _⟩
      · rw [show e₂.waitingJobs = [] from h.resting.jobs]
        rfl
      · intro x hx
        obtain rfl := List.mem_singleton.1 hx
        exact ⟨hopen.lt_size.trans_le hw.size,
          hopen.new.imp fun _ hnew => (hw.others p hopen.lt_size).trans hnew⟩
  | begins hnormal hanswers =>
    have htake : e.takeRequest a = (e₁.setAsyncState a .executing, .resume g r) := by
      have hkind : r.completion.kind = .normal := by simpa [Completion.isAbrupt] using hnormal
      simp [takeRequest, h.sits.state, h.sits.queue, h.sits.inner, hkind,
        AsyncGeneratorState.isBusy, Rest.asyncState, e₁]
    obtain ⟨e', hlogs, hcalm⟩ := h.resume (.begins hnormal hanswers) ho rfl htake
    exact ⟨e', hlogs, .calm hcalm⟩
  | goesOn hanswers =>
    have htake : e.takeRequest a = (e₁.setAsyncState a .executing, .resume g r) := by
      simp [takeRequest, h.sits.state, h.sits.queue, h.sits.inner, AsyncGeneratorState.isBusy,
        Rest.asyncState, e₁]
    obtain ⟨e', hlogs, hcalm⟩ := h.resume (.goesOn hanswers) ho rfl htake
    exact ⟨e', hlogs, .calm hcalm⟩
  | done =>
    exact ⟨_, serve_of_answered (takeRequest_done h.sits), .calm (h.calm (h.sits.take [])
      (h.resting.of_eq rfl rfl rfl) (.of_eq rfl rfl) (hopen.answer .undefined true))⟩

end Serve

/-! ## Between the operations of main code -/

/-- A request is queued. -/
theorem Sits.addRequest (h : e.Sits a g rest s queue) (c : Completion) :
    (e.addRequest a c).2.Sits a g rest s (queue ++ [⟨c, e.newPromise.1⟩]) :=
  (h.of_eq rfl rfl : e.newPromise.2.Sits a g rest s queue).modify h.state rfl
    (congrArg (· ++ _) h.queue)

theorem lasts_addRequest (e : Engine H) (a : AsyncGeneratorRef) (c : Completion) :
    e.Lasts (e.addRequest a c).2 :=
  (lasts_newPromise e).trans (.of_eq rfl rfl)

theorem open_addRequest (e : Engine H) (a : AsyncGeneratorRef) (c : Completion) :
    (e.addRequest a c).2.Open e.newPromise.1 :=
  ⟨(open_newPromise e).lt_size, (open_newPromise e).new⟩

theorem Open.addRequest {p : PromiseRef} (h : e.Open p) (a : AsyncGeneratorRef) (c : Completion) :
    (e.addRequest a c).2.Open p := by
  refine ⟨?_, h.new.imp fun _ hnew => (promise_newPromise_of_lt h.lt_size).trans hnew⟩
  exact h.lt_size.trans_le (Nat.le_succ _ |>.trans_eq (Store.size_push _ _).symm)

namespace Serving

variable {β : Behaviour H} {held : List (Job H)} {prompt : Prompt H} {o : Outcome}
  {log : List FrameEvent} {rest' : Rest H} {c : Completion}

/-- The requests wait or are all served. -/
theorem idle (h : e.Serving a g rest due) :
    (e.asyncGenerator a).state.isBusy = true ∨ (e.asyncGenerator a).queue = [] := by
  cases h with
  | calm h => exact .inr h.sits.queue
  | returning h => exact .inl (by rw [h.sits.state]; rfl)

/-- **A request** makes the step that a generator makes, and its promise is going to tell
the outcome. -/
theorem request (h : e.Serving a g rest due) (hstep : rest.Steps β c o log rest')
    (ho : o.IsPlain) (hc : ∀ q, c.value ≠ .promise q) :
    ∃ e' p, e'.Serving a g rest' (due ++ [(p, rest.asyncOutcome o)]) ∧
      Exchange.Logs β g ⟨⟨⟨e, .host .main prompt⟩, held⟩, .request a c, .value (.ok (.promise p))⟩
        log ⟨⟨e', .host .main (.answered (.value (.ok (.promise p))))⟩, held⟩ := by
  let p := e.newPromise.1
  let e₁ := (e.addRequest a c).2
  have hserve : ∃ e', Logs β g ⟨⟨e₁, .serve a (.promise p) (.host .main)⟩, held⟩ log
      ⟨⟨e', .serve a (.promise p) (.host .main)⟩, held⟩ ∧
      e'.Serving a g rest' (due ++ [(p, rest.asyncOutcome o)]) := by
    cases h with
    | calm h =>
      have hrequested : e₁.Requested a g rest ⟨c, p⟩ due :=
        ⟨h.sits.addRequest c, h.resting.of_eq rfl rfl rfl,
          fun x hx => (h.told x hx).lasts (lasts_addRequest e a c), open_addRequest e a c⟩
      exact hrequested.serve hstep ho hc
    | @returning told r v later f h =>
      cases hstep with
      | done =>
        have hreturning : e₁.Returning a g told r v (later ++ [⟨c, p⟩]) f := by
          refine ⟨h.sits.addRequest c, h.jobs, h.callable, h.draining, h.limit,
            fun x hx => (h.told x hx).lasts (lasts_addRequest e a c), ?_, ?_⟩
          · rw [← List.cons_append]
            refine List.forall_mem_append.2 ⟨fun x hx => (h.unseen x hx).addRequest a c, ?_⟩
            exact List.forall_mem_singleton.2 (open_addRequest e a c)
          · rw [← List.cons_append, List.map_append]
            refine List.nodup_append'.2 ⟨h.nodup, List.nodup_singleton _, ?_⟩
            rw [List.map_singleton, List.disjoint_singleton]
            intro hmem
            obtain ⟨x, hx, hp⟩ := List.mem_map.1 hmem
            have hlt := (h.unseen x hx).lt_size
            rw [hp] at hlt
            exact absurd hlt (lt_irrefl _)
        refine ⟨e₁, .refl _, ?_⟩
        have hserving := Serving.returning hreturning
        rwa [List.map_append, ← List.cons_append, ← List.append_assoc] at hserving
  obtain ⟨e', hlogs, hserving⟩ := hserve
  have hdeliver : Logs β g ⟨⟨e', .deliver (.ok (.promise p)) (.host .main)⟩, held⟩ []
      ⟨⟨e', .host .main (.answered (.value (.ok (.promise p))))⟩, held⟩ := .tick rfl rfl
  have hend := hlogs.trans ((serve_of_idle hserving.idle).trans hdeliver)
  rw [List.append_nil, List.append_nil] at hend
  exact ⟨e', p, hserving, Exchange.logs_of_plays rfl rfl rfl hend⟩

end Serving

/-! ## Drains -/

section Drains

variable {β : Behaviour H} {held : List (Job H)}

theorem perform_runJobs (h : e.draining = false) :
    e.perform .main .runJobs = ⟨{ e with draining := true }, .drain (.loop e.limit 0 .main)⟩ := by
  simp [perform, runJobs, h]

/-- A drain ends when no job waits. -/
theorem drainRound_resting {limit : Option Nat} {n : Nat} (hjobs : e.waitingJobs = []) :
    Logs β g ⟨⟨e, .drain (.loop limit n .main)⟩, held⟩ []
      ⟨⟨{ e with draining := false }.reportUnhandled,
        .host .main (.answered (.drained (.ok n)))⟩, held⟩ := by
  have hwaiting : e.jobs.waiting = [] := List.map_eq_nil_iff.1 hjobs
  have hlimit : e.limitReached limit n = false := by
    cases limit <;> simp [limitReached, JobQueue.isEmpty, hwaiting]
  refine .tick rfl ?_
  simp [Config.tick, drainRound, hlimit, JobQueue.pop?, hwaiting]

/-- **The job that is left** finishes the async generator, and then the others are served. -/
theorem Returning.wakes {v : Value} {later : List Request} {f : FunctionRef}
    (h : e.Returning a g told r v later f) :
    ∃ e', Logs β g ⟨⟨{ e with draining := true }, .drain (.loop e.limit 0 .main)⟩, held⟩ []
        ⟨⟨e', .serve a .undefined (.reaction none (.loop e.limit 1 .main))⟩, held⟩ ∧
      e'.Sits a g .done .completed later ∧ e.Lasts e' ∧ e'.waitingJobs = [] ∧
      e'.limit = e.limit ∧ e'.Tells r.capability (.returned v) ∧
      ∀ x ∈ later, e'.Open x.capability := by
  let d : Drain H := .loop e.limit 1 .main
  let e₁ : Engine H := { e with draining := true, jobs := { e.jobs with waiting := [] } }
  let e₂ := (e₁.spend f).setAsyncState a .completed
  obtain ⟨⟨id, job⟩, hwaiting, hjob⟩ : ∃ x, e.jobs.waiting = [x] ∧
      x.2 = .reaction ⟨.fulfill, some f, none⟩ v := by
    have hjobs : e.jobs.waiting.map Prod.snd = [_] := h.jobs
    obtain ⟨x, hx, hlast⟩ := List.map_eq_singleton_iff.1 hjobs
    exact ⟨x, hx, hlast⟩
  obtain rfl : job = _ := hjob
  have hround : Logs β g ⟨⟨{ e with draining := true }, .drain (.loop e.limit 0 .main)⟩, held⟩ []
      ⟨⟨e₁, .call f [v] (.reaction none d)⟩, held⟩ := by
    have hlimit : { e with draining := true }.limitReached e.limit 0 = false := by
      cases hl : e.limit with
      | none => rfl
      | some n =>
        have hn : ¬ n ≤ 0 := fun hn => h.limit (by rw [hl, Nat.le_zero.1 hn])
        simp [limitReached, hn]
    refine .tick rfl ?_
    simp [Config.tick, drainRound, hlimit, JobQueue.pop?, hwaiting, runJob, e₁, d]
  have hcall : Logs β g ⟨⟨e₁, .call f [v] (.reaction none d)⟩, held⟩ []
      ⟨⟨e₂.answerRequest r v true, .serve a .undefined (.reaction none d)⟩, held⟩ := by
    have hf : e₁.callable f = ⟨"awaitFulfilled", .once, .wake (.returning a r) .fulfill⟩ :=
      h.callable
    refine .tick rfl ?_
    simp only [Config.tick, callFunction, hf]
    rfl
  obtain ⟨hr, hopen⟩ := List.forall_mem_cons.1 h.unseen
  have hsettles : e₂.Settles (e₂.answerRequest r v true) r.capability (.returned v) :=
    (⟨hr.lt_size, hr.new⟩ : e₂.Open r.capability).answer v true
  have hsits : (e₁.spend f).Sits a g .done .awaitingReturn later := h.sits.of_eq rfl rfl
  refine ⟨_, hround.trans hcall, (hsits.setState .completed).of_eq hsettles.steady.generators
    hsettles.steady.asyncGenerators, (Lasts.of_eq rfl rfl : e.Lasts e₂).trans hsettles.lasts,
    hsettles.steady.waitingJobs, hsettles.steady.limit, hsettles.tells, fun x hx => ?_⟩
  exact hsettles.open ⟨(hopen x hx).lt_size, (hopen x hx).new⟩ fun heq =>
    (List.nodup_cons.1 h.nodup).1 (heq ▸ List.mem_map_of_mem hx)

/-- **A drain** answers all requests. -/
theorem Serving.drain {prompt : Prompt H} (h : e.Serving a g rest due) :
    ∃ e' n, e'.Calm a g rest due ∧
      Exchange.Logs β g ⟨⟨⟨e, .host .main prompt⟩, held⟩, .runJobs, .drained (.ok n)⟩ []
        ⟨⟨e', .host .main (.answered (.drained (.ok n)))⟩, held⟩ := by
  cases h with
  | calm h =>
    have hjobs : { e with draining := true }.waitingJobs = [] := h.resting.jobs
    refine ⟨{ e with draining := false }.reportUnhandled, 0, ⟨h.sits.of_eq rfl rfl,
      ⟨h.resting.jobs, rfl, h.resting.limit⟩,
      fun x hx => (h.told x hx).lasts (.of_eq rfl rfl)⟩, Exchange.logs_of_plays rfl rfl rfl ?_⟩
    rw [perform_runJobs h.resting.draining]
    exact drainRound_resting hjobs
  | @returning told r v later f h =>
    obtain ⟨e₁, hwakes, hsits, hlasts₁, hjobs₁, hlimit₁, htells, hopen⟩ := h.wakes
    obtain ⟨e₂, hserve, hsits', hlasts₂, hjobs₂, hlimit₂, htells'⟩ :=
      serve_done hsits hopen (List.nodup_cons.1 h.nodup).2
    have hdeliver : Logs β g
        ⟨⟨e₂, .deliver (.ok .undefined) (.reaction none (.loop e.limit 1 .main))⟩, held⟩ []
        ⟨⟨e₂, .drain (.loop e.limit 1 .main)⟩, held⟩ := .tick rfl rfl
    have hjobs : e₂.waitingJobs = [] := hjobs₂.trans hjobs₁
    have hends := hwakes.trans (hserve.trans (hdeliver.trans (drainRound_resting hjobs)))
    have hlasts : e₂.Lasts { e₂ with draining := false }.reportUnhandled := .of_eq rfl rfl
    have hlimit : e₂.limit ≠ some 0 := fun hl => h.limit (hl ▸ (hlimit₂.trans hlimit₁).symm)
    refine ⟨{ e₂ with draining := false }.reportUnhandled, 1, ⟨hsits'.of_eq rfl rfl,
      ⟨hjobs, rfl, hlimit⟩, ?_⟩, Exchange.logs_of_plays rfl rfl rfl ?_⟩
    · refine List.forall_mem_append.2
        ⟨fun x hx => (h.told x hx).lasts (hlasts₁.trans (hlasts₂.trans hlasts)),
          List.forall_mem_cons.2 ⟨htells.lasts (hlasts₂.trans hlasts), fun x hx => ?_⟩⟩
      obtain ⟨y, hy, rfl⟩ := List.mem_map.1 hx
      exact (htells' y hy).lasts hlasts
    · rw [perform_runJobs h.draining]
      exact hends

end Drains

end Engine

/-! ## Dialogues about an async generator -/

/-- What main code asks for: a request, or a drain. -/
inductive Ask where
  | request (c : Completion)
  | drain
  deriving DecidableEq, Repr

namespace Ask

def op (a : AsyncGeneratorRef) : Ask → Op H
  | request c => .request a c
  | drain => .runJobs

def completion? : Ask → Option Completion
  | request c => some c
  | drain => none

end Ask

/-- The promise that answers an operation. -/
def Exchange.promise? (x : Exchange H) : Option PromiseRef :=
  match x.answer with
  | .value (.ok (.promise p)) => some p
  | _ => none

/-- Main code does the operations, in this order. -/
structure Performs (β : Behaviour H) (ops : List (Op H)) (w : World H) (xs : List (Exchange H))
    (es : List (Event H)) (w' : World H) : Prop where
  dialogue : Dialogue β w xs es w'
  ops : xs.map Exchange.op = ops

variable {β : Behaviour H}

theorem Performs.unique {ops : List (Op H)} {w w₁ w₂ : World H} {xs ys : List (Exchange H)}
    {es es' : List (Event H)} (h : Performs β ops w xs es w₁) (h' : Performs β ops w ys es' w₂)
    (hops : ∀ op ∈ ops, op.job? = none) : xs = ys ∧ es = es' ∧ w₁ = w₂ :=
  h.dialogue.unique h'.dialogue (h.ops.trans h'.ops.symm) fun _ hx =>
    hops _ (h.ops ▸ List.mem_map_of_mem hx)

/-- **Main code makes requests and drains the queue**, for the last time when everything has
been requested. The promises tell the outcomes of a run of what rests. -/
theorem Engine.Serving.dialogue {e : Engine H} {a : AsyncGeneratorRef} {g : GeneratorRef}
    {rest rest' : Rest H} {due : List (PromiseRef × Outcome)} (h : e.Serving a g rest due)
    {ts : List (Episode H)} {log : List FrameEvent} (hrun : rest.Runs β ts log rest')
    (hplain : ∀ t ∈ ts, t.outcome.IsPlain) {asks : List Ask}
    (hasks : ∀ ask ∈ asks, ∀ c ∈ ask.completion?, ∀ q, c.value ≠ .promise q)
    (hts : ts.map Episode.completion = asks.filterMap Ask.completion?) (prompt : Prompt H)
    (held : List (Job H)) :
    ∃ xs w ps, (∃ es, Dialogue β ⟨⟨e, .host .main prompt⟩, held⟩ xs es w ∧ frameLog g es = log) ∧
      xs.map Exchange.op = asks.map (Ask.op a) ++ [.runJobs] ∧
      (∀ x ∈ due ++ ps, w.config.engine.Tells x.1 x.2) ∧
      xs.filterMap Exchange.promise? = ps.map Prod.fst ∧
      ps.map Prod.snd = ts.map fun t => t.rest.asyncOutcome t.outcome := by
  induction asks generalizing e rest due ts log prompt with
  | nil =>
    obtain rfl : ts = [] := List.map_eq_nil_iff.1 hts
    cases hrun
    obtain ⟨e', n, hcalm, hx⟩ := h.drain
    refine ⟨_, _, [], Dialogue.logs_cons hx ⟨[], .nil, rfl⟩, rfl, fun x hx => hcalm.told x ?_,
      rfl, rfl⟩
    rwa [List.append_nil] at hx
  | cons ask asks ih =>
    obtain ⟨hask, hlater⟩ := List.forall_mem_cons.1 hasks
    cases ask with
    | drain =>
      obtain ⟨e₁, n, hcalm, hx⟩ := h.drain
      obtain ⟨xs, w, ps, hxs, hops, htells, hps, hos⟩ :=
        ih (.calm hcalm) hrun hplain hlater hts (.answered (.drained (.ok n)))
      exact ⟨_, w, ps, Dialogue.logs_cons hx hxs, congrArg (_ :: ·) hops, htells, hps, hos⟩
    | request c =>
      cases hrun with
      | nil => cases hts
      | @cons _ rest₁ _ c' o log log' ts hstep hrun =>
        obtain ⟨rfl, htail⟩ := List.cons.inj hts
        obtain ⟨ho, hplains⟩ := List.forall_mem_cons.1 hplain
        obtain ⟨e₁, p, hserving, hx⟩ := h.request hstep ho (hask _ rfl)
        obtain ⟨xs, w, ps, hxs, hops, htells, hps, hos⟩ :=
          ih hserving hrun hplains hlater htail (.answered (.value (.ok (.promise p))))
        refine ⟨_, w, (p, rest.asyncOutcome o) :: ps, Dialogue.logs_cons hx hxs,
          congrArg (_ :: ·) hops, fun x hx => htells x ?_, congrArg (p :: ·) hps,
          congrArg (_ :: ·) hos⟩
        rwa [List.append_assoc]

/-! ## Agreement -/

/-- A request of an async generator, with the promise that answers it, and the same operation
on a generator, at the end of a dialogue about each. The outcome is the same, but that the
async generator does not pass on what it is to return when it is done. -/
def Agrees (w w' : World H) (g : GeneratorRef) (p : PromiseRef) (y : Exchange H) : Prop :=
  ∃ c o r, y.op = .advanceGenerator g c ∧ y.answer = .value (r.mapError .thrown) ∧
    w'.config.engine.Renders o r ∧
    w.config.engine.Tells p
      (if c.kind = .return ∧ (y.before.config.engine.generator g).state = .completed
        then .returned .undefined else o)

theorem Rest.Steps.asyncOutcome_eq {rest rest' : Rest H} {c : Completion} {o : Outcome}
    {log : List FrameEvent} (h : rest.Steps β c o log rest') :
    rest.asyncOutcome o =
      if c.kind = .return ∧ rest.state = .completed then .returned .undefined else o := by
  cases h with
  | closes f hc => simp [asyncOutcome, state]
  | begins | goesOn => simp [asyncOutcome, state]
  | done =>
    obtain ⟨kind, v⟩ := c
    cases kind <;> rfl

theorem Rest.Runs.asyncOutcome_eq {rest rest' : Rest H} {ts : List (Episode H)}
    {log : List FrameEvent} (h : rest.Runs β ts log rest') {t : Episode H} (ht : t ∈ ts) :
    t.rest.asyncOutcome t.outcome =
      if t.completion.kind = .return ∧ t.rest.state = .completed then .returned .undefined
      else t.outcome := by
  induction h with
  | nil => cases ht
  | cons hstep _ ih =>
    rcases List.mem_cons.1 ht with rfl | ht
    · exact hstep.asyncOutcome_eq
    · exact ih ht

section Advances

variable {g : GeneratorRef} {w w' : World H} {ts : List (Episode H)} {ys : List (Exchange H)}

theorem Exchange.map_op_of_advances (h : List.Forall₂ (Exchange.Advances g w') ts ys) :
    ys.map Exchange.op = (ts.map Episode.completion).map (.advanceGenerator g) := by
  induction h with
  | nil => rfl
  | cons hy _ ih => rw [List.map_cons, hy.op, ih, List.map_cons, List.map_cons]

theorem agrees_of_advances (h : List.Forall₂ (Exchange.Advances g w') ts ys)
    (hts : ∀ t ∈ ts, t.rest.asyncOutcome t.outcome =
      if t.completion.kind = .return ∧ t.rest.state = .completed then .returned .undefined
      else t.outcome)
    {ps : List (PromiseRef × Outcome)}
    (hos : ps.map Prod.snd = ts.map fun t => t.rest.asyncOutcome t.outcome)
    (htells : ∀ x ∈ ps, w.config.engine.Tells x.1 x.2) :
    List.Forall₂ (Agrees w w' g) (ps.map Prod.fst) ys := by
  induction h generalizing ps with
  | nil =>
    obtain rfl : ps = [] := List.map_eq_nil_iff.1 hos
    exact .nil
  | @cons t y ts ys hy _ ih =>
    cases ps with
    | nil => cases hos
    | cons x ps =>
      obtain ⟨ht, hts⟩ := List.forall_mem_cons.1 hts
      obtain ⟨hx, hos⟩ := List.cons.inj hos
      have hx : x.2 = t.rest.asyncOutcome t.outcome := hx
      obtain ⟨htells₁, htells⟩ := List.forall_mem_cons.1 htells
      obtain ⟨r, hr, hrenders⟩ := hy.answer
      refine .cons ⟨t.completion, t.outcome, r, hy.op, hr, hrenders, ?_⟩ (ih hts hos htells)
      rw [hy.state, ← ht, ← hx]
      exact htells₁

end Advances

theorem Engine.calm_newAsyncGenerator {e : Engine H} (h : e.Resting) (f : Frame H) :
    let a := (e.newAsyncGenerator f).1
    let e₁ := (e.newAsyncGenerator f).2
    e₁.Calm a (e₁.asyncGenerator a).inner (.fresh f) [] := by
  intro a e₁
  have ha : e₁.asyncGenerator a =
      { id := e.nextId, inner := ⟨e.generators.size⟩, state := .suspendedStart } := by
    simp [asyncGenerator, newAsyncGenerator, newGenerator, Store.get_push, a, e₁]
  have hg : e₁.generator ⟨e.generators.size⟩ =
      { id := e.nextId + 1, state := .suspendedStart, frame := some f } := by
    simp [generator, newAsyncGenerator, newGenerator, Store.get_push, e₁]
  refine ⟨⟨?_, rfl, ?_, ?_, ?_⟩, h.of_eq rfl rfl rfl, fun x hx => by cases hx⟩
  · rw [ha]
    rfl
  · rw [ha]
  · rw [ha, hg]
    rfl
  · rw [ha, hg]
    rfl

/-- **An async generator and a generator agree** over a frame that never awaits, never yields
or returns a promise, and is sent none. Whatever main code requests of an async generator, and
wherever it drains the queue in between, it gets an answer each time. After a drain at the end
the promises tell what a generator over the frame answers to the same operations
(`Agrees`). The same happens to both frames, so that they are resumed with the same
completions. -/
theorem PromiseFree.agreement {S : Frame H → Prop} (hβ : PromiseFree β S) {f : Frame H}
    (hf : S f) {e : Engine H} (he : e.Resting) {asks : List Ask}
    (hasks : ∀ ask ∈ asks, ∀ c ∈ ask.completion?, ∀ q, c.value ≠ .promise q) (prompt : Prompt H)
    (held : List (Job H)) :
    let a := (e.newAsyncGenerator f).1
    let e₁ := (e.newAsyncGenerator f).2
    let g := (e.newGenerator f).1
    let e₂ := (e.newGenerator f).2
    let w₁ : World H := ⟨⟨e₁, .host .main prompt⟩, held⟩
    let w₂ : World H := ⟨⟨e₂, .host .main prompt⟩, held⟩
    let ops₁ := asks.map (Ask.op a) ++ [.runJobs]
    let ops₂ := (asks.filterMap Ask.completion?).map (.advanceGenerator g)
    (∃ xs es w, Performs β ops₁ w₁ xs es w) ∧ (∃ ys es w, Performs β ops₂ w₂ ys es w) ∧
    ∀ xs es w ys es' w', Performs β ops₁ w₁ xs es w → Performs β ops₂ w₂ ys es' w' →
      List.Forall₂ (Agrees w w' g) (xs.filterMap Exchange.promise?) ys ∧
        frameLog (e₁.asyncGenerator a).inner es = frameLog g es' := by
  intro a e₁ g e₂ w₁ w₂ ops₁ ops₂
  have hfresh : ∀ f' ∈ (Rest.fresh f).frame?, S f' := fun f' hf' => by
    obtain rfl : f = f' := Option.some.inj hf'
    exact hf
  have hcs : ∀ c ∈ asks.filterMap Ask.completion?, ∀ q, c.value ≠ .promise q := fun c hc => by
    obtain ⟨ask, hask, hc⟩ := List.mem_filterMap.1 hc
    exact hasks ask hask c hc
  obtain ⟨ts, log, rest', hrun, hts, hplain⟩ := hβ.exists_run hfresh hcs
  obtain ⟨xs, w, ps, ⟨es, hxs, hlog⟩, hops, htells, hps, hos⟩ :=
    (Engine.Serving.calm (Engine.calm_newAsyncGenerator he f)).dialogue hrun hplain hasks hts
      prompt held
  have hholds : e₂.Holds g (.fresh f) := by
    have hgen := e.generator_newGenerator f
    exact ⟨congrArg Generator.state hgen, congrArg Generator.frame hgen⟩
  obtain ⟨ys, w', ⟨es', hys, hlog'⟩, -, hadvances⟩ := hrun.dialogue hplain hholds prompt held
  have hops' : ys.map Exchange.op = ops₂ := by
    rw [Exchange.map_op_of_advances hadvances, hts]
  have h₁ : Performs β ops₁ w₁ xs es w := ⟨hxs, hops⟩
  have h₂ : Performs β ops₂ w₂ ys es' w' := ⟨hys, hops'⟩
  refine ⟨⟨xs, es, w, h₁⟩, ⟨ys, es', w', h₂⟩, fun xs' es₁ v ys' es₂ v' h₁' h₂' => ?_⟩
  have hjob₁ : ∀ op ∈ ops₁, op.job? = none := fun op hop => by
    rcases List.mem_append.1 hop with hop | hop
    · obtain ⟨ask, -, rfl⟩ := List.mem_map.1 hop
      cases ask <;> rfl
    · rw [List.mem_singleton.1 hop]
      rfl
  have hjob₂ : ∀ op ∈ ops₂, op.job? = none := fun op hop => by
    obtain ⟨c, -, rfl⟩ := List.mem_map.1 hop
    rfl
  obtain ⟨rfl, rfl, rfl⟩ := h₁.unique h₁' hjob₁
  obtain ⟨rfl, rfl, rfl⟩ := h₂.unique h₂' hjob₂
  refine ⟨?_, hlog.trans hlog'.symm⟩
  rw [hps]
  exact agrees_of_advances hadvances (fun t ht => hrun.asyncOutcome_eq ht) hos htells

/-- A frame that yields what it is sent, and what it is to return. -/
def echo : Behaviour Unit
  | (), ⟨.throw, v⟩ => (.threw v, ())
  | (), ⟨.normal, v⟩ | (), ⟨.return, v⟩ => (.yielded v, ())

theorem promiseFree_echo : PromiseFree echo (· = .host ()) := by
  rintro f ⟨kind, v⟩ rfl hv
  refine ⟨_, _, .host () _, ?_, fun _ => rfl⟩
  cases kind with
  | throw => trivial
  | normal | «return» => exact hv

/-- The frame goes on when it is to return, and ends with an exception. The last request comes
after that. -/
theorem PromiseFree.agreement_echo :
    let cs : List Completion := [.normal .null, .returning .null, .throwing .null, .returning .null]
    let asks : List Ask := .drain :: cs.flatMap fun c => [.request c, .drain]
    let w₁ : World Unit := ⟨⟨(({} : Engine Unit).newAsyncGenerator (.host ())).2,
      .host .main .outside⟩, []⟩
    let w₂ : World Unit := ⟨⟨(({} : Engine Unit).newGenerator (.host ())).2,
      .host .main .outside⟩, []⟩
    ∃ xs es w ys es' w', Performs echo (asks.map (Ask.op ⟨0⟩) ++ [.runJobs]) w₁ xs es w ∧
      Performs echo (cs.map (.advanceGenerator ⟨0⟩)) w₂ ys es' w' ∧
      (xs.filterMap Exchange.promise?).length = 4 ∧
      List.Forall₂ (Agrees w w' ⟨0⟩) (xs.filterMap Exchange.promise?) ys := by
  intro cs asks w₁ w₂
  have hresting : ({} : Engine Unit).Resting := ⟨rfl, rfl, nofun⟩
  have hasks : ∀ ask ∈ asks, ∀ c ∈ ask.completion?, ∀ q, c.value ≠ .promise q := by
    have hnull : ∀ ask ∈ asks, ∀ c ∈ ask.completion?, c.value = .null := by decide
    intro ask hask c hc q hq
    cases (hnull ask hask c hc).symm.trans hq
  obtain ⟨⟨xs, es, w, hxs⟩, ⟨ys, es', w', hys⟩, hall⟩ :=
    promiseFree_echo.agreement rfl hresting hasks .outside []
  obtain ⟨hagrees, -⟩ := hall xs es w ys es' w' hxs hys
  refine ⟨xs, es, w, ys, es', w', hxs, hys, ?_, hagrees⟩
  rw [hagrees.length_eq, ← List.length_map (f := Exchange.op), hys.ops]
  rfl

end Microtask
