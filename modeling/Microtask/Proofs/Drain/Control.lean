import Microtask.Proofs.Drain.Settings
import Microtask.Proofs.Guise.Machine

/-!
# The drain on the control stack

The drain that the machine works in is the innermost one on the control stack
(`Control.drain?`). A move that neither begins a drain, nor is a round of one, nor
abandons it (`World.Stays`) leaves it on the stack (`Step.drain?`), and does the same
whatever the limit and the count of that drain are (`Step.under_aux`).
-/

namespace Microtask

variable {H : Type}

/-! ## The innermost drain -/

mutual

def Caller.drain? : Caller H → Option (Drain H)
  | .host h => h.drain?
  | .reaction _ d => some d
  | .executor _ h => h.drain?
  | .finalizer _ _ k => k.drain?
  | .discarding k => k.drain?

def Stepper.drain? : Stepper H → Option (Drain H)
  | .host h => h.drain?
  | .generator _ purpose => purpose.drain?

def Purpose.drain? : Purpose H → Option (Drain H)
  | .outcome h | .iterator h => h.drain?
  | .serving _ _ _ k | .body _ _ k => k.drain?

def Activation.drain? : Activation H → Option (Drain H)
  | .main => none
  | .function k => k.drain?
  | .frame s => s.drain?
  | .job _ d => some d

end

/-- The innermost drain on the control stack. -/
def Control.drain? : Control H → Option (Drain H)
  | .host h _ => h.drain?
  | .call _ _ k | .deliver _ k | .serve _ _ k => k.drain?
  | .resume _ _ s | .run _ s => s.drain?
  | .drain d => some d

/-! ## Another drain in its place -/

mutual

def Caller.rebase (d : Drain H) : Caller H → Caller H
  | .host h => .host (h.rebase d)
  | .reaction capability _ => .reaction capability d
  | .executor p h => .executor p (h.rebase d)
  | .finalizer v kind k => .finalizer v kind (k.rebase d)
  | .discarding k => .discarding (k.rebase d)

def Stepper.rebase (d : Drain H) : Stepper H → Stepper H
  | .host h => .host (h.rebase d)
  | .generator g purpose => .generator g (purpose.rebase d)

def Purpose.rebase (d : Drain H) : Purpose H → Purpose H
  | .outcome h => .outcome (h.rebase d)
  | .iterator h => .iterator (h.rebase d)
  | .serving a r reply k => .serving a r reply (k.rebase d)
  | .body p reply k => .body p reply (k.rebase d)

def Activation.rebase (d : Drain H) : Activation H → Activation H
  | .main => .main
  | .function k => .function (k.rebase d)
  | .frame s => .frame (s.rebase d)
  | .job id _ => .job id d

end

/-- Put another drain in the place of the innermost one, and of all below it. -/
def Control.rebase (d : Drain H) : Control H → Control H
  | .host h prompt => .host (h.rebase d) prompt
  | .call f args k => .call f args (k.rebase d)
  | .deliver result k => .deliver result (k.rebase d)
  | .resume f c s => .resume f c (s.rebase d)
  | .run f s => .run f (s.rebase d)
  | .serve a reply k => .serve a reply (k.rebase d)
  | .drain _ => .drain d

/-- The configuration with other settings and another drain. -/
def Config.under (c : Config H) (b : Bool) (x : Option Nat) (d : Drain H) : Config H :=
  ⟨c.engine.under b x, c.control.rebase d⟩

/-! ## The machine -/

namespace Engine

variable (e : Engine H) (b : Bool) (x : Option Nat) (d : Drain H)

section Generators

variable (g : GeneratorRef) (purpose : Purpose H)

theorem conclude_under (result : Except EngineError Outcome) :
    (e.under b x).conclude g result (purpose.rebase d) =
      (e.conclude g result purpose).under b x d := by
  cases purpose <;> simp [conclude, Purpose.rebase, Config.under, Control.rebase]

theorem drain?_conclude (result : Except EngineError Outcome) :
    (e.conclude g result purpose).control.drain? = purpose.drain? := by
  cases purpose <;> rfl

theorem stepGenerator_under (c : Completion) :
    (e.under b x).stepGenerator g c (purpose.rebase d) =
      (e.stepGenerator g c purpose).under b x d := by
  simp only [stepGenerator, beginStep_under]
  obtain ⟨e', result | f⟩ := e.beginStep g c
  · exact conclude_under e' b x d g purpose result
  · rfl

theorem drain?_stepGenerator (c : Completion) :
    (e.stepGenerator g c purpose).control.drain? = purpose.drain? := by
  unfold stepGenerator
  split
  · exact drain?_conclude _ g purpose _
  · rfl

end Generators

section Frames

variable (s : Stepper H)

theorem frameStopped_under (o : Outcome) (f : Frame H) :
    (e.under b x).frameStopped o f (s.rebase d) = (e.frameStopped o f s).under b x d := by
  cases s with
  | host h => rfl
  | generator g purpose =>
    simp only [frameStopped, Stepper.rebase, endStep_under]
    exact conclude_under _ b x d g purpose _

theorem drain?_frameStopped (o : Outcome) (f : Frame H) :
    (e.frameStopped o f s).control.drain? = s.drain? := by
  cases s with
  | host h => rfl
  | generator g purpose => exact drain?_conclude _ g purpose _

theorem scriptProgress_under (p : ScriptFrame.Progress) :
    (e.under b x).scriptProgress (s.rebase d) p = (e.scriptProgress s p).under b x d := by
  cases p with
  | running f => rfl
  | stopped o f => exact frameStopped_under e b x d s o _

theorem drain?_scriptProgress (p : ScriptFrame.Progress) :
    (e.scriptProgress s p).control.drain? = s.drain? := by
  cases p with
  | running f => rfl
  | stopped o f => exact drain?_frameStopped e s o _

theorem resumeFrame_under (c : Completion) (f : Frame H) :
    (e.under b x).resumeFrame c (s.rebase d) f = (e.resumeFrame c s f).under b x d := by
  cases f with
  | values f => exact frameStopped_under e b x d s _ _
  | script f => exact scriptProgress_under e b x d s _
  | host code => rfl

theorem drain?_resumeFrame (c : Completion) (f : Frame H) :
    (e.resumeFrame c s f).control.drain? = s.drain? := by
  cases f with
  | values f => exact drain?_frameStopped e s _ _
  | script f => exact drain?_scriptProgress e s _
  | host code => rfl

end Frames

section Functions

variable (k : Caller H)

theorem wake_under (kind : Settling) (v : Value) (w : Waiter H) :
    (e.under b x).wake kind v (k.rebase d) w = (e.wake kind v k w).under b x d := by
  cases w with
  | yielding a r =>
    cases kind with
    | fulfill => simp [wake, Config.under, Control.rebase]
    | reject => exact stepGenerator_under e b x d _ (.serving a r .undefined k) _
  | awaiting a r => exact stepGenerator_under e b x d _ (.serving a r .undefined k) _
  | returning a r => cases kind <;> simp [wake, Config.under, Control.rebase]
  | body g p => exact stepGenerator_under e b x d _ (.body p .undefined k) _
  | host f g => rfl

theorem drain?_wake (kind : Settling) (v : Value) (w : Waiter H) :
    (e.wake kind v k w).control.drain? = k.drain? := by
  cases w with
  | yielding a r =>
    cases kind with
    | fulfill => rfl
    | reject => exact drain?_stepGenerator e _ _ _
  | awaiting a r => exact drain?_stepGenerator e _ _ _
  | returning a r => cases kind <;> rfl
  | body g p => exact drain?_stepGenerator e _ _ _
  | host f g => rfl

theorem runCode_under (args : List Value) (c : Code H) :
    (e.under b x).runCode args (k.rebase d) c = (e.runCode args k c).under b x d := by
  cases c with
  | wake w kind => exact wake_under e b x d k kind _ w
  | adopt p kind => cases kind <;> simp [runCode, Config.under, Control.rebase]
  | constant v kind => cases kind <;> rfl
  | _ => simp [runCode, Config.under, Control.rebase, Activation.rebase, Caller.rebase]

theorem drain?_runCode (args : List Value) (c : Code H) :
    (e.runCode args k c).control.drain? = k.drain? := by
  cases c with
  | wake w kind => exact drain?_wake e k kind _ w
  | constant v kind => cases kind <;> rfl
  | _ => rfl

theorem callFunction_under (f : FunctionRef) (args : List Value) :
    (e.under b x).callFunction f args (k.rebase d) = (e.callFunction f args k).under b x d := by
  have hf : (e.under b x).callable f = e.callable f := rfl
  simp only [callFunction, hf]
  cases (e.callable f).usage with
  | repeatable => exact runCode_under e b x d k args _
  | once => exact runCode_under (e.spend f) b x d k _ _
  | spent => rfl

theorem drain?_callFunction (f : FunctionRef) (args : List Value) :
    (e.callFunction f args k).control.drain? = k.drain? := by
  unfold callFunction
  dsimp only
  split
  · exact drain?_runCode e k args _
  · exact drain?_runCode _ k _ _
  · rfl

@[simp] theorem settleCapability_under (capability : Option PromiseRef)
    (result : Except Failure Value) :
    (e.under b x).settleCapability capability result =
      (e.settleCapability capability result).under b x := by
  cases capability <;> cases result <;> simp [settleCapability]

theorem deliver_under (result : Except Failure Value) :
    (e.under b x).deliver result (k.rebase d) = (e.deliver result k).under b x d := by
  cases k <;> cases result <;>
    simp [deliver, Config.under, Control.rebase, Caller.rebase]

theorem drain?_deliver (result : Except Failure Value) :
    (e.deliver result k).control.drain? = k.drain? := by
  cases k <;> cases result <;> rfl

theorem serve_under (a : AsyncGeneratorRef) (reply : Value) :
    (e.under b x).serve a reply (k.rebase d) = (e.serve a reply k).under b x d := by
  simp only [serve, takeRequest_under]
  obtain ⟨e', - | - | ⟨inner, r⟩⟩ := e.takeRequest a
  · rfl
  · rfl
  · exact stepGenerator_under e' b x d inner (.serving a r reply k) r.completion

theorem drain?_serve (a : AsyncGeneratorRef) (reply : Value) :
    (e.serve a reply k).control.drain? = k.drain? := by
  unfold serve
  split
  · rfl
  · rfl
  · exact drain?_stepGenerator _ _ _ _

end Functions

@[simp] theorem settle_under (p : PromiseRef) (kind : Settling) (v : Value) :
    (e.under b x).settle p kind v = (e.settle p kind v).under b x := by
  cases kind <;> simp [settle]

theorem runJob_under (id : Nat) (d' : Drain H) (j : Job H) :
    (e.under b x).runJob id d j = (e.runJob id d' j).under b x d := by
  cases j with
  | reaction r v =>
    obtain ⟨kind, handler, capability⟩ := r
    cases handler <;> cases capability <;>
      simp [runJob, Config.under, Control.rebase, Caller.rebase]
  | adoption p q => simp [runJob, Config.under, Control.rebase]
  | callback label code => rfl

theorem drain?_runJob (id : Nat) (j : Job H) : (e.runJob id d j).control.drain? = some d := by
  cases j with
  | reaction r v =>
    obtain ⟨kind, handler, capability⟩ := r
    cases handler <;> cases capability <;> rfl
  | adoption p q => rfl
  | callback label code => rfl


theorem jobEnded_under (id : Nat) (d' : Drain H) (result : Except EngineError Unit) :
    (e.under b x).jobEnded id d result = (e.jobEnded id d' result).under b x d := by
  cases result with
  | ok u => rfl
  | error error =>
    simp only [jobEnded, displayError_under]
    rfl

theorem drain?_jobEnded (id : Nat) (result : Except EngineError Unit) :
    (e.jobEnded id d result).control.drain? = some d := by
  cases result <;> rfl

theorem perform_under (h : Activation H) {op : Op H} (hl : op.limits = false)
    (hr : op = .runJobs → b = true ∧ e.draining = true) :
    (e.under b x).perform (h.rebase d) op = (e.perform h op).under b x d := by
  cases op with
  | setLimit | reset => cases hl
  | runJobs =>
    obtain ⟨rfl, he⟩ := hr rfl
    simp only [perform, runJobs, he]
    rfl
  | stepGenerator g c => exact stepGenerator_under e b x d g (.outcome h) c
  | advanceGenerator g c => exact stepGenerator_under e b x d g (.iterator h) c
  | popJob =>
    have hj : (e.under b x).jobs = e.jobs := rfl
    simp only [perform, hj]
    cases e.jobs.pop? <;> rfl
  | startAsync f =>
    simp only [perform, startAsync, newPromise_under, newGenerator_under]
    exact stepGenerator_under _ b x d _ (.body _ _ (.host h)) _
  | generatorMethod receiver method args =>
    simp only [perform]
    split
    · exact stepGenerator_under e b x d _ (.iterator h) _
    · rfl
    · rfl
  | asyncGeneratorMethod receiver method args =>
    simp only [perform]
    split <;> rfl
  | setPolicy policy => rfl
  | clearJobs => rfl
  | _ =>
    simp [perform, request, construct, promiseCatch, reply, replyValue, replyPromise, Config.under,
      Control.rebase, Caller.rebase, Stepper.rebase]

theorem drain?_perform (h : Activation H) (op : Op H) (hr : op = .runJobs → e.draining = true) :
    (e.perform h op).control.drain? = h.drain? := by
  cases op with
  | runJobs =>
    simp only [perform, runJobs, hr rfl]
    rfl
  | stepGenerator g c => exact drain?_stepGenerator e g _ c
  | advanceGenerator g c => exact drain?_stepGenerator e g _ c
  | startAsync f => exact drain?_stepGenerator _ _ _ _
  | popJob =>
    simp only [perform]
    split <;> rfl
  | generatorMethod receiver method args =>
    simp only [perform]
    split
    · exact drain?_stepGenerator e _ _ _
    · rfl
    · rfl
  | asyncGeneratorMethod receiver method args =>
    simp only [perform]
    split <;> rfl
  | _ => rfl

end Engine

/-! ## Nothing to replace -/

mutual

theorem Caller.rebase_eq {d : Drain H} :
    ∀ {k : Caller H}, (∀ d' ∈ k.drain?, d' = d) → k.rebase d = k
  | .host h, hd => by rw [Caller.rebase, Activation.rebase_eq hd]
  | .reaction capability d', hd => by rw [Caller.rebase, hd d' rfl]
  | .executor p h, hd => by rw [Caller.rebase, Activation.rebase_eq hd]
  | .finalizer v kind k, hd => by rw [Caller.rebase, Caller.rebase_eq (k := k) hd]
  | .discarding k, hd => by rw [Caller.rebase, Caller.rebase_eq (k := k) hd]

theorem Stepper.rebase_eq {d : Drain H} :
    ∀ {s : Stepper H}, (∀ d' ∈ s.drain?, d' = d) → s.rebase d = s
  | .host h, hd => by rw [Stepper.rebase, Activation.rebase_eq hd]
  | .generator g purpose, hd => by rw [Stepper.rebase, Purpose.rebase_eq hd]

theorem Purpose.rebase_eq {d : Drain H} :
    ∀ {purpose : Purpose H}, (∀ d' ∈ purpose.drain?, d' = d) → purpose.rebase d = purpose
  | .outcome h, hd => by rw [Purpose.rebase, Activation.rebase_eq hd]
  | .iterator h, hd => by rw [Purpose.rebase, Activation.rebase_eq hd]
  | .serving a r reply k, hd => by rw [Purpose.rebase, Caller.rebase_eq hd]
  | .body p reply k, hd => by rw [Purpose.rebase, Caller.rebase_eq hd]

theorem Activation.rebase_eq {d : Drain H} :
    ∀ {h : Activation H}, (∀ d' ∈ h.drain?, d' = d) → h.rebase d = h
  | .main, hd => rfl
  | .function k, hd => by rw [Activation.rebase, Caller.rebase_eq hd]
  | .frame s, hd => by rw [Activation.rebase, Stepper.rebase_eq hd]
  | .job id d', hd => by rw [Activation.rebase, hd d' rfl]

end

theorem Control.rebase_eq {d : Drain H} {k : Control H} (hd : ∀ d' ∈ k.drain?, d' = d) :
    k.rebase d = k := by
  cases k with
  | host h prompt => rw [rebase, Activation.rebase_eq hd]
  | call f args k | deliver result k | serve a reply k => rw [rebase, Caller.rebase_eq hd]
  | resume f c s | run f s => rw [rebase, Stepper.rebase_eq hd]
  | drain d' => rw [rebase, hd d' rfl]

/-- The drain that can be put in place of itself. -/
theorem exists_drain_eq (d? : Option (Drain H)) : ∃ d, ∀ d' ∈ d?, d' = d := by
  cases d? with
  | none => exact ⟨.loop none 0 .main, fun _ hd => by cases hd⟩
  | some d => exact ⟨d, fun _ hd => by cases hd; rfl⟩

theorem Activation.exists_rebase_eq (h : Activation H) : ∃ d, h.rebase d = h :=
  (exists_drain_eq h.drain?).imp fun _ => Activation.rebase_eq

theorem Stepper.exists_rebase_eq (s : Stepper H) : ∃ d, s.rebase d = s :=
  (exists_drain_eq s.drain?).imp fun _ => Stepper.rebase_eq

theorem Control.exists_rebase_eq (k : Control H) : ∃ d, k.rebase d = k :=
  (exists_drain_eq k.drain?).imp fun _ => Control.rebase_eq

/-! ## Steps -/

/-- The move neither begins a drain, nor is a round of one, nor abandons it. -/
def World.Stays (w : World H) : Move H → Prop
  | .tick => ∀ d, w.config.control ≠ .drain d
  | .perform op => op = .runJobs → w.config.engine.draining = true
  | .abandon => False
  | _ => True

theorem Config.tick_under {c : Config H} (hc : ∀ d, c.control ≠ .drain d) (b : Bool)
    (x : Option Nat) (d : Drain H) : (c.under b x d).tick = c.tick.under b x d := by
  obtain ⟨e, control⟩ := c
  cases control with
  | host h prompt => rfl
  | call f args k => exact e.callFunction_under b x d k f args
  | deliver result k => exact e.deliver_under b x d k result
  | resume f c s => exact e.resumeFrame_under b x d s c f
  | run f s => exact e.scriptProgress_under b x d s _
  | serve a reply k => exact e.serve_under b x d k a reply
  | drain d => exact absurd rfl (hc d)

theorem Config.drain?_tick {c : Config H} (hc : ∀ d, c.control ≠ .drain d) :
    c.tick.control.drain? = c.control.drain? := by
  obtain ⟨e, control⟩ := c
  cases control with
  | host h prompt => rfl
  | call f args k => exact e.drain?_callFunction k f args
  | deliver result k => exact e.drain?_deliver k result
  | resume f c s => exact e.drain?_resumeFrame s c f
  | run f s => exact e.drain?_scriptProgress s _
  | serve a reply k => exact e.drain?_serve k a reply
  | drain d => exact absurd rfl (hc d)

/-- The world with another limit and another drain. -/
def World.under (w : World H) (x : Option Nat) (d : Drain H) : World H :=
  ⟨w.config.under w.config.engine.draining x d, w.held⟩

variable {w w' : World H} {m : Move H}

/-- A move within a drain leaves it on the stack. -/
theorem Step.drain? (h : Step w m w') (hm : w.Stays m) :
    w'.config.control.drain? = w.config.control.drain? := by
  cases h with
  | tick c held => exact c.drain?_tick hm
  | perform hop => exact Engine.drain?_perform _ _ _ hm
  | putBack => rfl
  | finishCall result => rfl
  | finishFrame o code => exact Engine.drain?_frameStopped _ _ o _
  | finishJob result => exact Engine.drain?_jobEnded _ _ _ result
  | abandon => exact hm.elim

/-- A move within a drain does the same under another limit and in another drain. -/
theorem Step.under_aux (h : Step w m w') (hm : w.Stays m) (hl : m.limits = false) (x : Option Nat)
    (d : Drain H) :
    Step (w.under x d) m ⟨w'.config.under w.config.engine.draining x d, w'.held⟩ := by
  cases h with
  | tick c held =>
    have ht := c.tick_under hm c.engine.draining x d
    rw [← ht]
    exact .tick _ held
  | @perform e h prompt held op hop =>
    have hp := e.perform_under e.draining x d h hl fun hr => ⟨hm hr, hm hr⟩
    rw [← hp]
    exact .perform ⟨hop.functions, hop.job⟩
  | putBack => exact .putBack
  | finishCall result => exact .finishCall result
  | @finishFrame e s prompt held o code =>
    have hs := e.frameStopped_under e.draining x d s o (.host code)
    simp only [Engine.finishFrame]
    rw [← hs]
    exact .finishFrame o code
  | @finishJob e id d' prompt held result =>
    have hj := e.jobEnded_under e.draining x d id d' result
    simp only [Engine.finishJob]
    rw [← hj]
    exact .finishJob result
  | abandon => exact hm.elim

end Microtask
