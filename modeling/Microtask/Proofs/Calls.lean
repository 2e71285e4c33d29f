import Microtask.Proofs.History

/-!
# Calls

A function begins to be called by a job, by the host, or by the callback of a `finally`
(`Step.begins`). Nothing else that the machine does calls a function at once.

A callback that has a duty is called by a job and by nothing else (`Step.calls`): a round
of a drain takes the job off the queue and hands the callback the value that the job
carries. The tick that follows ends the call. It either settles the promise that adopts or
lets the waiter go on.

Main statement: `Step.calls`.
-/

namespace Microtask

variable {H : Type}

/-! ## What a call leads to -/

namespace Engine

theorem conclude_callee (e : Engine H) (g : GeneratorRef)
    (result : Except EngineError Outcome) (purpose : Purpose H) :
    (e.conclude g result purpose).control.callee? = none := by
  cases purpose <;> rfl

theorem stepGenerator_callee (e : Engine H) (g : GeneratorRef) (c : Completion)
    (purpose : Purpose H) : (e.stepGenerator g c purpose).control.callee? = none := by
  unfold stepGenerator
  split
  · exact conclude_callee _ g _ purpose
  · rfl

theorem frameStopped_callee (e : Engine H) (o : Outcome) (f : Frame H) (s : Stepper H) :
    (e.frameStopped o f s).control.callee? = none := by
  cases s with
  | host h => rfl
  | generator g purpose => exact conclude_callee _ g _ purpose

theorem scriptProgress_callee (e : Engine H) (s : Stepper H) (progress : ScriptFrame.Progress) :
    (e.scriptProgress s progress).control.callee? = none := by
  cases progress with
  | running f => rfl
  | stopped o f => exact frameStopped_callee e o _ s

theorem resumeFrame_callee (e : Engine H) (c : Completion) (s : Stepper H) (f : Frame H) :
    (e.resumeFrame c s f).control.callee? = none := by
  cases f with
  | values f => exact frameStopped_callee e _ _ s
  | script f => exact scriptProgress_callee e s _
  | host code => rfl

/-- A waiter that goes on calls no function at once. -/
theorem wake_callee (e : Engine H) (kind : Settling) (v : Value) (k : Caller H)
    (waiter : Waiter H) : (e.wake kind v k waiter).control.callee? = none := by
  cases waiter with
  | yielding a r =>
    cases kind with
    | fulfill => rfl
    | reject => exact stepGenerator_callee e _ _ _
  | awaiting a r => exact stepGenerator_callee e _ _ _
  | returning a r => cases kind <;> rfl
  | body g p => exact stepGenerator_callee e _ _ _
  | host onFulfilled onRejected => rfl

/-- The only code that calls a function at once is that of a `finally`. -/
theorem callFunction_callee (e : Engine H) (f : FunctionRef) (args : List Value) (k : Caller H)
    {g : FunctionRef} (hg : (e.callFunction f args k).control.callee? = some g) :
    ∃ kind, (e.callable f).code = .afterwards g kind := by
  have hrun : ∀ (e₁ : Engine H) args,
      (e₁.runCode args k (e.callable f).code).control.callee? = some g →
        ∃ kind, (e.callable f).code = .afterwards g kind := by
    intro e₁ args hg
    cases hc : (e.callable f).code with
    | afterwards callback kind =>
      rw [hc] at hg
      exact ⟨kind, by rw [Option.some.inj hg]⟩
    | wake waiter kind =>
      rw [hc, runCode, wake_callee] at hg
      cases hg
    | constant v kind => rw [hc] at hg; cases kind <;> cases hg
    | _ => rw [hc] at hg; cases hg
  unfold callFunction at hg
  dsimp only at hg
  split at hg
  · exact hrun _ _ hg
  · exact hrun _ _ hg
  · cases hg

theorem deliver_callee (e : Engine H) (result : Except Failure Value) (k : Caller H) :
    (e.deliver result k).control.callee? = none := by
  cases k with
  | finalizer settled kind k => cases result <;> rfl
  | _ => rfl

theorem serve_callee (e : Engine H) (a : AsyncGeneratorRef) (reply : Value) (k : Caller H) :
    (e.serve a reply k).control.callee? = none := by
  unfold serve
  split
  · rfl
  · rfl
  · exact stepGenerator_callee _ _ _ _

/-- Two operations call a function at once. -/
theorem perform_calls (e : Engine H) (h : Activation H) (op : Op H) {g : FunctionRef}
    (hg : (e.perform h op).control.callee? = some g) :
    (∃ args, op = .call g args) ∨ op = .construct g := by
  cases op with
  | call f args => exact .inl ⟨args, by rw [Option.some.inj hg]⟩
  | construct f => exact .inr (by rw [Option.some.inj hg])
  | stepGenerator g c => cases (stepGenerator_callee e g c _).symm.trans hg
  | advanceGenerator g c => cases (stepGenerator_callee e g c _).symm.trans hg
  | startAsync f => cases (stepGenerator_callee _ _ _ _).symm.trans hg
  | generatorMethod receiver method args =>
    cases receiver with
    | generator g =>
      cases hc : methodCompletion? method (Value.argument args 0) with
      | none =>
        simp only [perform, hc] at hg
        cases hg
      | some c =>
        simp only [perform, hc] at hg
        cases (stepGenerator_callee e _ _ _).symm.trans hg
    | _ => cases hg
  | asyncGeneratorMethod receiver method args =>
    cases receiver with
    | asyncGenerator a =>
      cases hc : methodCompletion? method (Value.argument args 0) <;>
        (simp only [perform, hc] at hg; cases hg)
    | _ => cases hg
  | runJobs =>
    rw [perform, runJobs] at hg
    split at hg <;> cases hg
  | popJob =>
    rw [perform] at hg
    split at hg <;> cases hg
  | _ => cases hg

/-- Operations call functions that the host names. -/
theorem perform_callee (e : Engine H) (h : Activation H) (op : Op H) {g : FunctionRef}
    (hg : (e.perform h op).control.callee? = some g) : g ∈ op.functions := by
  rcases perform_calls e h op hg with ⟨args, rfl⟩ | rfl <;> exact List.mem_singleton_self g

end Engine

/-- A function begins to be called by a step, for a caller. -/
inductive Step.Begins (w : World H) (m : Move H) (w' : World H) (f : FunctionRef)
    (args : List Value) (k : Caller H) : Prop where
  /-- A drain runs a job, which hands its value over. -/
  | job {d d' : Drain H} {id : Nat} {r : Reaction} {v : Value} {jobs : JobQueue (Job H)} :
      m = .tick → w.config.control = .drain d →
      w.config.engine.jobs.pop? = some ((id, .reaction r v), jobs) → r.handler = some f →
      args = [v] →
      w' = ⟨⟨{ w.config.engine with jobs }, .call f [v] (.reaction r.capability d')⟩, w.held⟩ →
      Begins w m w' f args k
  | host {a : Activation H} : f ∈ m.functions → (k = .host a ∨ ∃ p, k = .executor p a) →
      Begins w m w' f args k
  /-- A promise has settled that a `finally` is for. -/
  | afterwards {g : FunctionRef} {args' : List Value} {v : Value} {kind : Settling}
      {k' : Caller H} : w.config.control = .call g args' k' →
      (w.config.engine.callable g).code = .afterwards f kind → k = .finalizer v kind k' →
      Begins w m w' f args k

/-- **A function begins to be called** by a job, by the host, or after a promise has settled
that a `finally` is for. -/
theorem Step.begins {w w' : World H} {m : Move H} (h : Step w m w') {f : FunctionRef}
    {args : List Value} {k : Caller H} (hc : w'.config.control = .call f args k) :
    Step.Begins w m w' f args k := by
  have hf : w'.config.control.callee? = some f := by rw [hc]; rfl
  cases h with
  | tick c held =>
    obtain ⟨e, control⟩ := c
    cases control with
    | host a prompt => cases hf
    | call g args' k' =>
      obtain ⟨kind, hcode⟩ := Engine.callFunction_callee e g args' k' hf
      have hc' : (e.callFunction g args' k').control = .call f args k := hc
      unfold Engine.callFunction at hc'
      simp only [hcode] at hc'
      split at hc' <;> cases hc' <;> exact .afterwards rfl hcode rfl
    | deliver result k' => cases (Engine.deliver_callee e result k').symm.trans hf
    | resume g x s => cases (Engine.resumeFrame_callee e x s g).symm.trans hf
    | run g s => cases (Engine.scriptProgress_callee e s g.step).symm.trans hf
    | serve a reply k' => cases (Engine.serve_callee e a reply k').symm.trans hf
    | drain d =>
      have ht : (Config.mk e (.drain d)).tick.control = .call f args k := hc
      obtain ⟨-, a, n, hround⟩ | ⟨-, a, n, hround⟩ | ⟨-, id, j, jobs, d', hpop, hround⟩ :=
        World.round (w := ⟨⟨e, .drain d⟩, held⟩) rfl
      · cases (congrArg Config.control hround).symm.trans ht
      · cases (congrArg Config.control hround).symm.trans ht
      · have hrun : (({ e with jobs } : Engine H).runJob id d' j).control = .call f args k :=
          (congrArg Config.control hround).symm.trans ht
        cases j with
        | reaction r v =>
          obtain ⟨kind, handler, capability⟩ := r
          cases handler with
          | none => cases capability <;> cases hrun
          | some g =>
            cases hrun
            exact .job rfl rfl hpop rfl rfl (congrArg (World.mk · held) hround)
        | _ => cases hrun
  | @perform e a prompt held op hop =>
    refine .host (a := a) (Engine.perform_callee e a op hf) ?_
    rcases Engine.perform_calls e a op hf with ⟨args', rfl⟩ | rfl <;> cases hc
    · exact .inl rfl
    · exact .inr ⟨_, rfl⟩
  | finishFrame o code => cases (Engine.frameStopped_callee _ o _ _).symm.trans hf
  | finishJob result => cases result <;> cases hf
  | _ => cases hf

/-- The host calls functions without a duty only. -/
theorem Step.plain_of_functions {w w' : World H} {m : Move H} (h : Step w m w')
    {f : FunctionRef} (hf : f ∈ m.functions) : w.config.engine.Plain f := by
  cases h with
  | perform hop => exact .of_isPublic (hop.functions f hf)
  | _ => cases hf

/-- A function is being called with some arguments. -/
theorem Control.exists_callee {c : Control H} {f : FunctionRef} (h : f ∈ c.callee?) :
    ∃ args k, c = .call f args k := by
  cases c with
  | call g args k =>
    obtain rfl := Option.some.inj h
    exact ⟨args, k, rfl⟩
  | _ => cases h

/-- The function that is being called, with what it is called for. -/
theorem Control.exists_call {e : Engine H} {c : Control H} {f : FunctionRef}
    (h : c.called? e = some f) :
    ∃ args k x, c = .call f args k ∧ e.engagement? f = some x := by
  cases c with
  | call f' args k =>
    simp only [called?] at h
    split at h
    · next hsome =>
      cases h
      obtain ⟨x, hx⟩ := Option.isSome_iff_exists.1 hsome
      exact ⟨args, k, x, rfl, hx⟩
    · cases h
  | _ => cases h

/-! ## Steps -/

/-- Without a job nothing begins to be called. -/
theorem Act.called_of_busy {l l' : Ledger H} (h : Act Rights.busy l l') {f : FunctionRef}
    (hf : l'.called = some f) : l.called = some f := by
  cases h with
  | pop hpop hj hc hm => exact hm.elim
  | adopt | lapse | wake => cases hf
  | _ => exact hf

theorem Acts.called_of_busy {l l' : Ledger H} (h : Acts Rights.busy l l') {f : FunctionRef}
    (hf : l'.called = some f) : l.called = some f := by
  induction h with
  | refl => exact hf
  | tail _ h ih => exact ih (h.called_of_busy hf)

/-- **A function with a duty is called by a job**: a round of a drain takes the job off the
queue and hands its value over. -/
theorem Step.calls {w w' : World H} {m : Move H} (h : Step w m w')
    (hbacked : w.config.engine.Backed) {f : FunctionRef}
    (hf : w'.config.control.called? w'.config.engine = some f) :
    m = .tick ∧ ∃ d id r v jobs d', w.config.control = .drain d ∧
      w.config.engine.jobs.pop? = some ((id, .reaction r v), jobs) ∧ r.handler = some f ∧
      w' = ⟨⟨{ w.config.engine with jobs }, .call f [v] (.reaction r.capability d')⟩, w.held⟩ := by
  obtain ⟨args, k, x, hc, hen⟩ := Control.exists_call hf
  -- the host and the callbacks of `finally` call plain functions, which stay plain
  have hnot : ¬ w.config.engine.Plain f := by
    intro hplain
    cases hen.symm.trans ((h.grows hbacked).plain hplain).free
  cases h.begins hc with
  | job hm hd hpop hr hargs hw => exact ⟨hm, _, _, _, _, _, _, hd, hpop, hr, hw⟩
  | host hmem _ => exact absurd (h.plain_of_functions hmem) hnot
  | afterwards _ hcode => exact absurd (hbacked.plain hcode) hnot

end Microtask
