import Microtask.Proofs.Generator.Wakeups

/-!
# Steps that the engine asks for

The host asks for steps of generators, and so does the engine: on behalf of a request that
an async generator serves, and of an async function (`World.Resumes`). What it makes of a
step on behalf of a request is one of a few things (`Engine.absorbOutcome_cases`). If the
request waits after it, then the callbacks of that wait are the only functions that go on
with it (`Step.goesOn_of_await`).
-/

namespace Microtask

variable {H : Type}

/-! ## Resumptions -/

/-- The engine asks for a step of the generator, with the completion and for the purpose. -/
inductive World.Resumes :
    World H → Move H → Engine H → GeneratorRef → Completion → Purpose H → Prop where
  /-- A request is taken off the queue. -/
  | serve {e e' : Engine H} {a : AsyncGeneratorRef} {reply : Value} {k : Caller H}
      {held : List (Job H)} {g : GeneratorRef} {r : Request} :
      e.takeRequest a = (e', .resume g r) →
      Resumes ⟨⟨e, .serve a reply k⟩, held⟩ .tick e' g r.completion (.serving a r reply k)
  /-- The frame of an async generator awaits no more. -/
  | awaiting {e : Engine H} {f : FunctionRef} {args : List Value} {k : Caller H}
      {held : List (Job H)} {a : AsyncGeneratorRef} {r : Request} {kind : Settling} :
      (e.callable f).usage ≠ .spent → (e.callable f).code = .wake (.awaiting a r) kind →
      Resumes ⟨⟨e, .call f args k⟩, held⟩ .tick (e.used f) (e.asyncGenerator a).inner
        (kind.completion (Value.argument args 0)) (.serving a r .undefined k)
  /-- A promise that it has yielded is rejected. -/
  | yielding {e : Engine H} {f : FunctionRef} {args : List Value} {k : Caller H}
      {held : List (Job H)} {a : AsyncGeneratorRef} {r : Request} :
      (e.callable f).usage ≠ .spent → (e.callable f).code = .wake (.yielding a r) .reject →
      Resumes ⟨⟨e, .call f args k⟩, held⟩ .tick (e.used f) (e.asyncGenerator a).inner
        (.throwing (Value.argument args 0)) (.serving a r .undefined k)
  /-- The frame of an async function awaits no more. -/
  | body {e : Engine H} {f : FunctionRef} {args : List Value} {k : Caller H}
      {held : List (Job H)} {g : GeneratorRef} {p : PromiseRef} {kind : Settling} :
      (e.callable f).usage ≠ .spent → (e.callable f).code = .wake (.body g p) kind →
      Resumes ⟨⟨e, .call f args k⟩, held⟩ .tick (e.used f) g
        (kind.completion (Value.argument args 0)) (.body p .undefined k)
  /-- An async function begins. -/
  | start {e : Engine H} {h : Activation H} {prompt : Prompt H} {held : List (Job H)}
      (f : Frame H) :
      Resumes ⟨⟨e, .host h prompt⟩, held⟩ (.perform (.startAsync f))
        (e.newPromise.2.newGenerator f).2 ⟨e.generators.size⟩ (.normal .undefined)
        (.body ⟨e.promises.size⟩ (.promise ⟨e.promises.size⟩) (.host h))

/-- Whenever the engine asks for a step of the generator, the frame is at hand and the step
begins. -/
def Event.Enters (ev : Event H) (g : GeneratorRef) : Prop :=
  ∀ e c purpose, ev.before.Resumes ev.move e g c purpose →
    ∃ f, (e.generator g).frame = some f ∧ e.beginStep g c = (e.takeOut g, .running f)

section Resumptions

variable {w w' : World H} {m : Move H} {e : Engine H} {g : GeneratorRef} {c : Completion}
  {purpose : Purpose H}

/-- A callback of a wait that has not been used up goes on with its first argument. -/
theorem Engine.callFunction_wake {f : FunctionRef} (hu : (e.callable f).usage ≠ .spent)
    {waiter : Waiter H} {kind : Settling} (hcode : (e.callable f).code = .wake waiter kind)
    (args : List Value) (k : Caller H) :
    e.callFunction f args k = (e.used f).wake kind (Value.argument args 0) k waiter := by
  cases hu' : (e.callable f).usage with
  | spent => exact absurd hu' hu
  | once | repeatable =>
    simp only [callFunction, used, hu', hcode]
    rfl

theorem Engine.asyncGenerator_used (e : Engine H) (f : FunctionRef) (a : AsyncGeneratorRef) :
    (e.used f).asyncGenerator a = e.asyncGenerator a := by
  rw [asyncGenerator, asyncGenerators_used]
  rfl

theorem Engine.generator_used (e : Engine H) (f : FunctionRef) (g : GeneratorRef) :
    (e.used f).generator g = e.generator g := by
  unfold used
  split <;> rfl

/-- **What the engine does when it asks for a step.** -/
theorem Step.resumes (h : Step w m w') (hr : w.Resumes m e g c purpose) :
    w'.config = e.stepGenerator g c purpose := by
  cases hr with
  | serve ht =>
    cases h
    simp only [Config.tick, Engine.serve, ht]
  | @awaiting e f args k held a r kind hu hcode =>
    cases h
    simp only [Config.tick, Engine.callFunction_wake hu hcode]
    cases kind <;> simp only [Engine.wake, Engine.asyncGenerator_used] <;> rfl
  | yielding hu hcode =>
    cases h
    simp only [Config.tick, Engine.callFunction_wake hu hcode, Engine.wake,
      Engine.asyncGenerator_used]
  | @body e f args k held g p kind hu hcode =>
    cases h
    simp only [Config.tick, Engine.callFunction_wake hu hcode]
    cases kind <;> rfl
  | start f =>
    cases h with
    | perform => rfl

theorem takeRequest_mem_drives {a : AsyncGeneratorRef} {e' : Engine H} {r : Request}
    (h : e.takeRequest a = (e', .resume g r)) :
    ∃ rest, (e.asyncGenerator a).queue = r :: rest ∧ g = (e.asyncGenerator a).inner := by
  have hmem := Engine.takeRequest_resume h
  cases hq : (e.asyncGenerator a).queue with
  | nil => simp [AsyncGenerator.drives, hq] at hmem
  | cons r' rest =>
    obtain ⟨rfl, rfl⟩ : g = (e.asyncGenerator a).inner ∧ r = r' := by
      simpa [AsyncGenerator.drives, hq] using hmem
    exact ⟨rest, rfl, rfl⟩

/-- A generator that the engine asks for a step of is driven. -/
theorem World.Resumes.drives (hr : w.Resumes m e g c purpose) :
    (g, purpose.duty? g) ∈ w.drives m := by
  have hcall : ∀ {e : Engine H} {f : FunctionRef} {args : List Value} {k : Caller H}
      {held : List (Job H)} {waiter : Waiter H} {kind : Settling} {x},
      (e.callable f).code = .wake waiter kind → x ∈ waiter.drives e →
      x ∈ (World.mk ⟨e, .call f args k⟩ held).drives .tick := by
    intro e f args k held waiter kind x hcode hx
    show x ∈ (e.callable f).code.drives e
    rw [hcode]
    exact hx
  cases hr with
  | serve ht => exact Engine.takeRequest_resume ht
  | awaiting hu hcode | yielding hu hcode | body hu hcode =>
    exact hcall hcode (List.mem_singleton.2 rfl)
  | start f => exact List.mem_singleton.2 rfl

end Resumptions

/-! ## What becomes of a request after a step -/

/-- Whether the waiter waits for the final result of an async generator. -/
def Waiter.isFinal : Waiter H → Bool
  | .returning _ _ => true
  | _ => false

namespace Engine

variable {e : Engine H}

theorem Spares.asyncGenerator {e' : Engine H} (h : e.Spares e') (a : AsyncGeneratorRef) :
    e'.asyncGenerator a = e.asyncGenerator a := by
  rw [Engine.asyncGenerator, h.asyncGenerators]
  rfl

theorem state_setAsyncState (e : Engine H) (a : AsyncGeneratorRef) (s : AsyncGeneratorState) :
    ((e.setAsyncState a s).asyncGenerator a).state = s := by
  rw [setAsyncState, asyncGenerator_modify, if_pos rfl]

theorem spares_answerRequest (e : Engine H) (r : Request) (v : Value) (done : Bool) :
    e.Spares (e.answerRequest r v done) :=
  (spares_newObject e (.iteratorResult v done)).trans (spares_resolve _ r.capability _)

theorem state_answerRequest (e : Engine H) (a : AsyncGeneratorRef) (s : AsyncGeneratorState)
    (r : Request) (v : Value) (done : Bool) :
    (((e.setAsyncState a s).answerRequest r v done).asyncGenerator a).state = s :=
  (congrArg AsyncGenerator.state ((spares_answerRequest _ r v done).asyncGenerator a)).trans
    (state_setAsyncState e a s)

theorem state_failWith (e : Engine H) (a : AsyncGeneratorRef) (r : Request) (reason : Value) :
    ((e.failWith a r reason).asyncGenerator a).state = .completed :=
  (congrArg AsyncGenerator.state ((spares_reject _ r.capability reason).asyncGenerator a)).trans
    (state_setAsyncState e a .completed)

theorem state_awaitReturn (e : Engine H) (a : AsyncGeneratorRef) (r : Request) (v : Value) :
    ((e.awaitReturn a r v).asyncGenerator a).state = .awaitingReturn :=
  (congrArg AsyncGenerator.state ((spares_await _ v _).asyncGenerator a)).trans
    (state_setAsyncState e a .awaitingReturn)

/-- **What becomes of a request** when the frame has stopped: it waits, is answered, waits
for the final result, or is the last one that the frame has seen to. -/
theorem absorbOutcome_cases (e : Engine H) (a : AsyncGeneratorRef) (r : Request) (o : Outcome) :
    (o.isFinished = false ∧ ∃ v waiter, waiter.isFinal = false ∧
        e.absorbOutcome a r (.ok o) = e.await v waiter) ∨
      (o.isFinished = false ∧ ∃ v, e.absorbOutcome a r (.ok o) = e.settleYield a r v) ∨
      (o.isFinished = true ∧ ∃ v, e.absorbOutcome a r (.ok o) = e.awaitReturn a r v) ∨
      (o.isFinished = true ∧
        ((e.absorbOutcome a r (.ok o)).asyncGenerator a).state = .completed) := by
  cases o with
  | yielded v =>
    cases v with
    | promise p => exact .inl ⟨rfl, .promise p, .yielding a r, rfl, rfl⟩
    | _ => exact .inr (.inl ⟨rfl, _, rfl⟩)
  | awaiting v => exact .inl ⟨rfl, v, .awaiting a r, rfl, rfl⟩
  | returned v =>
    cases v with
    | promise p => exact .inr (.inr (.inl ⟨rfl, .promise p, rfl⟩))
    | _ => exact .inr (.inr (.inr ⟨rfl, state_answerRequest e a .completed r _ true⟩))
  | threw reason => exact .inr (.inr (.inr ⟨rfl, state_failWith e a r reason⟩))

/-! ## The functions of a wait -/

theorem callables_promiseOf (e : Engine H) (v : Value) :
    (e.promiseOf v).2.callables = e.callables := by
  have hnew : ∀ v, (∀ q, v ≠ .promise q) →
      (e.newPromise.2.resolve e.newPromise.1 v).callables = e.callables := by
    intro v hv
    have hres : (e.newPromise.2.promise e.newPromise.1).resolved = false := by
      rw [promise_newPromise]
      exact congrArg Promise.resolved (if_pos rfl)
    have hsettle : e.newPromise.2.resolve e.newPromise.1 v = _ :=
      settle_of_unresolved hres fun (_ : Settling.fulfill = .fulfill) => hv
    exact (congrArg Engine.callables hsettle).trans (callables_settleNow _ _ .fulfill v)
  cases v with
  | promise q => rfl
  | _ => exact hnew _ nofun

/-- A wait makes two functions, which wake the waiter. -/
theorem code_await {v : Value} {waiter : Waiter H} {f : FunctionRef}
    (hf : e.callables.size ≤ f.index) (hsize : f.index < (e.await v waiter).callables.size) :
    ∃ kind, ((e.await v waiter).callable f).code = .wake waiter kind := by
  let c : Callable H := ⟨"awaitFulfilled", .once, .wake waiter .fulfill⟩
  let c' : Callable H := ⟨"awaitRejected", .once, .wake waiter .reject⟩
  let e₁ := (e.promiseOf v).2
  have hc : (e.await v waiter).callables = ((e₁.newFunction c).2.newFunction c').2.callables :=
    callables_performThen _ _ _ _ _
  have hget : (e.await v waiter).callable f = ((e₁.newFunction c).2.newFunction c').2.callable f := by
    rw [callable, hc]
    rfl
  obtain ⟨hnew, hnew'⟩ := Ledger.callable_newFunctions e₁ c c'
  have hcases : f = (e₁.newFunction c).1 ∨ f = ((e₁.newFunction c).2.newFunction c').1 := by
    rw [hc] at hsize
    have hf : e₁.callables.size ≤ f.index := (callables_promiseOf e v).symm ▸ hf
    simp only [newFunction, Store.size_push, ← FunctionRef.index_inj] at hsize ⊢
    omega
  rw [hget]
  rcases hcases with rfl | rfl
  · exact ⟨.fulfill, congrArg Callable.code hnew⟩
  · exact ⟨.reject, congrArg Callable.code hnew'⟩

end Engine

/-! ## What goes on with a request -/

namespace Ledger

/-- Whatever can go on with a request of the async generator is a waiter of the kind. -/
def WaitersAre (l : Ledger H) (a : AsyncGeneratorRef) (P : Waiter H → Prop) : Prop :=
  ∀ f waiter kind r, (l.engine.callable f).code = .wake waiter kind →
    waiter.duty? = some (.serve a r) → l.Has f → P waiter

/-- Whatever can go on with a request of the async generator has waited for its final
result, or nothing has. -/
def GoesOn (l : Ledger H) (a : AsyncGeneratorRef) (final : Bool) : Prop :=
  ∀ f waiter kind r, (l.engine.callable f).code = .wake waiter kind →
    waiter.duty? = some (.serve a r) → l.Has f → waiter.isFinal = final

variable {l l' : Ledger H} {a : AsyncGeneratorRef} {d : Duty} {f : FunctionRef}
  {waiter : Waiter H} {kind : Settling} {final : Bool} {P : Waiter H → Prop}

theorem WaitersAre.pass (h : l.WaitersAre a P) (hp : ∀ r, Passes (.serve a r) l l') :
    l'.WaitersAre a P := by
  intro f waiter kind r hcode hd hf
  obtain ⟨hf, hsame⟩ := (hp r).had f kind (Engine.engagement?_of_wake hcode hd) hf
  exact h f waiter kind r (hsame ▸ hcode) hd hf

theorem WaitersAre.lose (h : l.WaitersAre a P) (hl : l.Loses l') : l'.WaitersAre a P :=
  fun f waiter kind r hcode hd hf => h f waiter kind r (hl.callable f ▸ hcode) hd (hl.has hf)

theorem GoesOn.pass (h : l.GoesOn a final) (hp : ∀ r, Passes (.serve a r) l l') :
    l'.GoesOn a final :=
  WaitersAre.pass h hp

theorem GoesOn.lose (h : l.GoesOn a final) (hl : l.Loses l') : l'.GoesOn a final :=
  WaitersAre.lose h hl

/-- A duty that is owed on the stack only is not in anything that could be called. -/
theorem Sound.not_has (hs : l.Sound) (hle : l.owed d ≤ l.stack.count d)
    (hen : l.engine.engagement? f = some (d, kind)) : ¬ l.Has f := by
  rintro (hf | hf)
  · let bare : Ledger H := { l with stack := [] }
    obtain ⟨h₁, ho⟩ : bare.Sound ∧ _ := hs.restack ⟨rfl, rfl, rfl⟩ rfl rfl fun p => List.not_mem_nil
    have hnone : bare.owed d = 0 := by
      have hd : bare.owed d + l.stack.count d = l.owed d + 0 := ho d
      omega
    have hen' : bare.engine.engagement? f = some (d, kind) := hen
    exact h₁.not_refers hen' hnone hf
  · have hlt := count_lt_owed_of_called hf hen
    omega

end Ledger

/-- **A wait begins**: it is all that can go on with the request. -/
theorem Step.waiters_of_await {w w' : World H} {m : Move H} (h : Step w m w')
    (hm : m.clears = false) (hbacked : w.config.engine.Backed)
    {issued : List (AsyncGeneratorRef × Request)} {a : AsyncGeneratorRef}
    (hs : (w.ledger issued).Sound)
    (hle : ∀ r, (w.ledger issued).owed (.serve a r) ≤ (w.ledger issued).stack.count (.serve a r))
    {e : Engine H} {v : Value} {waiter : Waiter H}
    (he : e.callables = w.config.engine.callables)
    (hw' : w'.config.engine.callables = (e.await v waiter).callables) {P : Waiter H → Prop}
    (hP : P waiter) : (w'.ledger (w.issued issued m)).WaitersAre a P := by
  intro f waiter' kind r hcode hd hf
  have hacts := h.acts hm (Rights.all_covers w m) hbacked issued
  have hen := Engine.engagement?_of_wake hcode hd
  by_cases hold : f.index < w.config.engine.callables.size
  · have hen₀ := (hacts.grows.engagement? hold).symm.trans hen
    exact absurd (hacts.has hen₀ hf) (hs.not_has (hle r) hen₀)
  · have hsize := Engine.exists_of_engagement hen
    have hcallable : w'.config.engine.callable f = (e.await v waiter).callable f := by
      rw [Engine.callable, hw']
      rfl
    obtain ⟨kind', hnew⟩ := Engine.code_await (he ▸ Nat.le_of_not_lt hold)
      (show f.index < (e.await v waiter).callables.size from hw' ▸ hsize)
    have heq : Code.wake waiter' kind = .wake waiter kind' :=
      hcode.symm.trans ((congrArg Callable.code hcallable).trans hnew)
    cases heq
    exact hP

theorem Step.goesOn_of_await {w w' : World H} {m : Move H} (h : Step w m w')
    (hm : m.clears = false) (hbacked : w.config.engine.Backed)
    {issued : List (AsyncGeneratorRef × Request)} {a : AsyncGeneratorRef}
    (hs : (w.ledger issued).Sound)
    (hle : ∀ r, (w.ledger issued).owed (.serve a r) ≤ (w.ledger issued).stack.count (.serve a r))
    {e : Engine H} {v : Value} {waiter : Waiter H}
    (he : e.callables = w.config.engine.callables)
    (hw' : w'.config.engine.callables = (e.await v waiter).callables) :
    (w'.ledger (w.issued issued m)).GoesOn a waiter.isFinal :=
  h.waiters_of_await hm hbacked hs hle he hw' rfl

end Microtask
