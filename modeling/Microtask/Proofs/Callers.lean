import Microtask.Proofs.Calls

/-!
# Callers on the control stack

Those who wait for the result of a function wait on the control stack, the innermost one first
(`Control.callers`). A caller stays there, together with all below it, until a result is delivered
to it (`Step.keeps_caller`). Those that settle the capability of a reaction are as many as there
are duties to do so (`Control.count_callers`).

The callback of a `finally` begins to be called by the function that the `finally` has attached,
and by nothing else (`Step.finalizing`).
-/

namespace Microtask

variable {H : Type}

/-! ## The stack -/

mutual

def Caller.callers : Caller H → List (Caller H)
  | .host h => .host h :: h.callers
  | .reaction capability d => .reaction capability d :: d.callers
  | .executor p h => .executor p h :: h.callers
  | .finalizer v kind k => .finalizer v kind k :: k.callers
  | .discarding k => .discarding k :: k.callers

def Stepper.callers : Stepper H → List (Caller H)
  | .host h => h.callers
  | .generator _ purpose => purpose.callers

def Purpose.callers : Purpose H → List (Caller H)
  | .outcome h | .iterator h => h.callers
  | .serving _ _ _ k | .body _ _ k => k.callers

def Activation.callers : Activation H → List (Caller H)
  | .main => []
  | .function k => k.callers
  | .frame s => s.callers
  | .job _ d => d.callers

def Drain.callers : Drain H → List (Caller H)
  | .loop _ _ h => h.callers

end

/-- Who waits for the result of a function, innermost first. -/
def Control.callers : Control H → List (Caller H)
  | .host h _ => h.callers
  | .call _ _ k | .deliver _ k | .serve _ _ k => k.callers
  | .resume _ _ s | .run _ s => s.callers
  | .drain d => d.callers

/-- Who waits below a caller. -/
def Caller.outer : Caller H → List (Caller H)
  | .host h | .executor _ h => h.callers
  | .reaction _ d => d.callers
  | .finalizer _ _ k | .discarding k => k.callers

theorem Caller.callers_eq (k : Caller H) : k.callers = k :: k.outer := by cases k <;> rfl

/-- The promise that a caller settles with the result of a handler. -/
def Caller.capability? : Caller H → Option PromiseRef
  | .reaction capability _ => capability
  | .host _ | .executor _ _ | .finalizer _ _ _ | .discarding _ => none

/-! ## Duties -/

section Duties

variable (p : PromiseRef)

/-- Most callers settle no capability. -/
theorem Caller.countP_cons {k : Caller H} (hk : k.capability? = none) (ks : List (Caller H)) :
    (k :: ks).countP (·.capability? = some p) = ks.countP (·.capability? = some p) :=
  List.countP_cons_of_neg (by rw [hk]; exact Bool.false_ne_true)

theorem Caller.countP_pos {k : Caller H} (hk : k.capability? = some p) :
    0 < k.callers.countP (·.capability? = some p) := by
  rw [k.callers_eq]
  exact List.countP_pos_iff.2 ⟨k, List.mem_cons_self, decide_eq_true hk⟩

mutual

theorem Caller.count_callers : ∀ k : Caller H,
    k.callers.countP (·.capability? = some p) = k.duties.count (.result p)
  | .host h => (Caller.countP_cons p rfl _).trans h.count_callers
  | .reaction capability d => by
    have hd := d.count_callers
    cases capability with
    | none => exact (Caller.countP_cons p rfl _).trans hd
    | some q =>
      show (Caller.reaction (some q) d :: d.callers).countP (·.capability? = some p) =
        (Duty.result q :: d.duties).count (.result p)
      rw [List.countP_cons, List.count_cons, hd]
      simp [Caller.capability?]
  | .executor q h => by
    refine (Caller.countP_cons p rfl _).trans (h.count_callers.trans ?_)
    exact (List.count_cons_of_ne (by rintro ⟨⟩)).symm
  | .finalizer _ _ k => (Caller.countP_cons p rfl _).trans k.count_callers
  | .discarding k => (Caller.countP_cons p rfl _).trans k.count_callers

theorem Stepper.count_callers : ∀ s : Stepper H,
    s.callers.countP (·.capability? = some p) = s.duties.count (.result p)
  | .host h => h.count_callers
  | .generator g purpose => purpose.count_callers g

theorem Purpose.count_callers (g : GeneratorRef) : ∀ purpose : Purpose H,
    purpose.callers.countP (·.capability? = some p) = (purpose.duties g).count (.result p)
  | .outcome h => h.count_callers
  | .iterator h => h.count_callers
  | .serving a r _ k => k.count_callers.trans (List.count_cons_of_ne (by rintro ⟨⟩)).symm
  | .body q _ k => k.count_callers.trans (List.count_cons_of_ne (by rintro ⟨⟩)).symm

theorem Activation.count_callers : ∀ h : Activation H,
    h.callers.countP (·.capability? = some p) = h.duties.count (.result p)
  | .main => rfl
  | .function k => k.count_callers
  | .frame s => s.count_callers
  | .job _ d => d.count_callers

theorem Drain.count_callers : ∀ d : Drain H,
    d.callers.countP (·.capability? = some p) = d.duties.count (.result p)
  | .loop _ _ h => h.count_callers

end

/-- **A caller that settles a capability has the duty to.** -/
theorem Control.count_callers (c : Control H) :
    c.callers.countP (·.capability? = some p) = c.duties.count (.result p) := by
  cases c with
  | host h prompt => exact h.count_callers p
  | call f args k | deliver result k | serve a reply k => exact k.count_callers p
  | resume f c s | run f s => exact s.count_callers p
  | drain d => exact d.count_callers p

end Duties

/-! ## The machine -/

namespace Engine

variable (e : Engine H)

theorem callers_conclude (g : GeneratorRef) (result : Except EngineError Outcome)
    (purpose : Purpose H) : (e.conclude g result purpose).control.callers = purpose.callers := by
  cases purpose <;> rfl

theorem callers_stepGenerator (g : GeneratorRef) (c : Completion) (purpose : Purpose H) :
    (e.stepGenerator g c purpose).control.callers = purpose.callers := by
  unfold stepGenerator
  split
  · exact callers_conclude _ g _ purpose
  · rfl

theorem callers_frameStopped (o : Outcome) (f : Frame H) (s : Stepper H) :
    (e.frameStopped o f s).control.callers = s.callers := by
  cases s with
  | host h => rfl
  | generator g purpose => exact callers_conclude _ g _ purpose

theorem callers_scriptProgress (s : Stepper H) (progress : ScriptFrame.Progress) :
    (e.scriptProgress s progress).control.callers = s.callers := by
  cases progress with
  | running f => rfl
  | stopped o f => exact callers_frameStopped e o _ s

theorem callers_resumeFrame (c : Completion) (s : Stepper H) (f : Frame H) :
    (e.resumeFrame c s f).control.callers = s.callers := by
  cases f with
  | values f => exact callers_frameStopped e _ _ s
  | script f => exact callers_scriptProgress e s _
  | host code => rfl

theorem callers_wake (kind : Settling) (v : Value) (k : Caller H) (waiter : Waiter H) :
    k.callers <:+ (e.wake kind v k waiter).control.callers := by
  cases waiter with
  | yielding a r =>
    cases kind with
    | fulfill => exact List.suffix_rfl
    | reject => exact (callers_stepGenerator e _ _ (.serving a r .undefined k)) ▸ List.suffix_rfl
  | awaiting a r => exact (callers_stepGenerator e _ _ (.serving a r .undefined k)) ▸ List.suffix_rfl
  | returning a r => cases kind <;> exact List.suffix_rfl
  | body g p => exact (callers_stepGenerator e _ _ (.body p .undefined k)) ▸ List.suffix_rfl
  | host onFulfilled onRejected => exact List.suffix_cons _ _

theorem callers_callFunction (f : FunctionRef) (args : List Value) (k : Caller H) :
    k.callers <:+ (e.callFunction f args k).control.callers := by
  have hrun : ∀ (e : Engine H) (args : List Value) (c : Code H),
      k.callers <:+ (e.runCode args k c).control.callers := by
    intro e args c
    cases c with
    | wake waiter kind => exact callers_wake e kind _ k waiter
    | afterwards callback kind => exact List.suffix_cons _ _
    | constant v kind => cases kind <;> exact List.suffix_rfl
    | _ => exact List.suffix_rfl
  unfold callFunction
  dsimp only
  split
  · exact hrun _ _ _
  · exact hrun _ _ _
  · exact List.suffix_rfl

/-- A result goes to the innermost caller. -/
theorem callers_deliver (result : Except Failure Value) (k : Caller H) :
    (e.deliver result k).control.callers = k.outer := by
  cases k with
  | finalizer v kind k => cases result <;> rfl
  | _ => rfl

theorem callers_serve (a : AsyncGeneratorRef) (reply : Value) (k : Caller H) :
    (e.serve a reply k).control.callers = k.callers := by
  unfold serve
  split
  · rfl
  · rfl
  · exact callers_stepGenerator _ _ _ _

theorem callers_runJob (id : Nat) (d : Drain H) (j : Job H) :
    d.callers <:+ (e.runJob id d j).control.callers := by
  cases j with
  | reaction r v =>
    obtain ⟨kind, handler, capability⟩ := r
    cases handler with
    | none => cases capability <;> exact List.suffix_rfl
    | some f => exact List.suffix_cons _ _
  | _ => exact List.suffix_rfl

theorem callers_perform (h : Activation H) (op : Op H) :
    h.callers <:+ (e.perform h op).control.callers := by
  cases op with
  | call f args => exact List.suffix_cons _ _
  | construct executor => exact List.suffix_cons _ _
  | stepGenerator g c => exact (callers_stepGenerator e g c (.outcome h)) ▸ List.suffix_rfl
  | advanceGenerator g c => exact (callers_stepGenerator e g c (.iterator h)) ▸ List.suffix_rfl
  | request a c => exact List.suffix_cons _ _
  | startAsync f =>
    simp only [perform, startAsync, callers_stepGenerator]
    exact List.suffix_cons _ _
  | generatorMethod receiver method args =>
    simp only [perform]
    split
    · exact (callers_stepGenerator e _ _ (.iterator h)) ▸ List.suffix_rfl
    · exact List.suffix_rfl
    · exact List.suffix_rfl
  | asyncGeneratorMethod receiver method args =>
    simp only [perform]
    split
    · exact List.suffix_cons _ _
    · exact List.suffix_rfl
    · exact List.suffix_rfl
  | runJobs =>
    simp only [perform, runJobs]
    split <;> exact List.suffix_rfl
  | popJob =>
    simp only [perform]
    split <;> exact List.suffix_rfl
  | _ => exact List.suffix_rfl

end Engine

/-! ## Steps -/

section Steps

variable {w w' : World H} {m : Move H}

/-- No caller leaves the stack, but the one that a result is delivered to. -/
theorem Step.callers (h : Step w m w') (hm : m ≠ .abandon) :
    w.config.control.callers <:+ w'.config.control.callers ∨
      ∃ result k, w.config.control = .deliver result k ∧
        w'.config.control.callers = k.outer := by
  cases h with
  | tick c held =>
    obtain ⟨e, control⟩ := c
    cases control with
    | host a prompt => exact .inl List.suffix_rfl
    | call f args k => exact .inl (Engine.callers_callFunction e f args k)
    | deliver result k => exact .inr ⟨result, k, rfl, Engine.callers_deliver e result k⟩
    | resume f c s => exact .inl ((Engine.callers_resumeFrame e c s f) ▸ List.suffix_rfl)
    | run f s => exact .inl ((Engine.callers_scriptProgress e s f.step) ▸ List.suffix_rfl)
    | serve a reply k => exact .inl ((Engine.callers_serve e a reply k) ▸ List.suffix_rfl)
    | drain d =>
      left
      obtain ⟨limit, executed, a⟩ := d
      show a.callers <:+ (e.drainRound (.loop limit executed a)).control.callers
      rw [Engine.drainRound]
      split
      · exact List.suffix_rfl
      · cases e.jobs.pop? with
        | none => exact List.suffix_rfl
        | some next => exact Engine.callers_runJob _ _ (.loop limit (executed + 1) a) _
  | perform hop => exact .inl (Engine.callers_perform _ _ _)
  | putBack => exact .inl List.suffix_rfl
  | finishCall result => exact .inl List.suffix_rfl
  | finishFrame o code => exact .inl ((Engine.callers_frameStopped _ o _ _) ▸ List.suffix_rfl)
  | finishJob result => cases result <;> exact .inl List.suffix_rfl
  | abandon => exact absurd rfl hm

/-- **A caller stays on the stack**, with all below it, until a result is delivered to it. -/
theorem Step.keeps_caller (h : Step w m w') (hm : m ≠ .abandon) {k : Caller H}
    (hk : k.callers <:+ w.config.control.callers) :
    k.callers <:+ w'.config.control.callers ∨ ∃ result, w.config.control = .deliver result k := by
  rcases h.callers hm with hstay | ⟨result, k', hc, houter⟩
  · exact .inl (hk.trans hstay)
  · rw [hc, Control.callers, k'.callers_eq, List.suffix_cons_iff, ← houter] at hk
    rcases hk with htop | hk
    · rw [k.callers_eq] at htop
      obtain rfl : k = k' := (List.cons.inj htop).1
      exact .inr ⟨result, hc⟩
    · exact .inl hk

/-- **A handler begins to be called** by the job that hands a settlement over. -/
theorem Step.reacting (h : Step w m w') {f : FunctionRef} {args : List Value}
    {capability : Option PromiseRef} {d : Drain H}
    (hc : w'.config.control = .call f args (.reaction capability d)) :
    ∃ d' id r v jobs, w.config.control = .drain d' ∧
      w.config.engine.jobs.pop? = some ((id, .reaction r v), jobs) ∧ r.capability = capability := by
  cases h.begins hc with
  | job _ hd hpop _ _ hw =>
    cases (congrArg (·.config.control) hw).symm.trans hc
    exact ⟨_, _, _, _, _, hd, hpop, rfl⟩
  | host _ hk => rcases hk with hk | ⟨p, hk⟩ <;> cases hk
  | afterwards _ _ hk => cases hk

/-- **The callback of a `finally` begins to be called** by the function that the `finally` has
attached, without arguments. -/
theorem Step.finalizing (h : Step w m w') {f : FunctionRef} {args : List Value} {v : Value}
    {kind : Settling} {k : Caller H} (hc : w'.config.control = .call f args (.finalizer v kind k)) :
    ∃ g args', w.config.control = .call g args' k := by
  cases h.begins hc with
  | job _ _ _ _ _ hw => cases (congrArg (·.config.control) hw).symm.trans hc
  | host _ hk =>
    rcases hk with hk | ⟨p, hk⟩ <;> cases hk
  | @afterwards g args' _ _ _ hcall _ hk =>
    cases hk
    exact ⟨g, args', hcall⟩

end Steps

end Microtask
