import Microtask.Proofs.Guise.Basic
import Microtask.Proofs.Moves

/-!
# The machine in a guise

A step of the machine or of the host is the same step in a guise (`Step.guise`), unless it
drives a generator that the guise is about, sets what the guise hides, or loses everything.
-/

namespace Microtask

variable {H : Type}

/-- Whether an operation sets the limit. -/
def Op.limits : Op H → Bool
  | .setLimit _ | .reset => true
  | _ => false

/-- Whether a move sets the limit. -/
def Move.limits : Move H → Bool
  | .perform op => op.limits
  | _ => false

def Control.guise (c : Control H) (G : Guise H) : Control H :=
  match c with
  | .host h prompt => .host (G.activation h) prompt
  | .call f args k => .call f args (G.caller k)
  | .deliver result k => .deliver result (G.caller k)
  | .resume f c s => .resume f c (G.stepper s)
  | .run f s => .run f (G.stepper s)
  | .serve a reply k => .serve a reply (G.caller k)
  | .drain d => .drain (G.drain d)

def Config.guise (c : Config H) (G : Guise H) : Config H := ⟨c.engine.guise G, c.control.guise G⟩

def World.guise (w : World H) (G : Guise H) : World H := ⟨w.config.guise G, w.held⟩

namespace Guise

/-- The guise changes neither the generator nor what waits for the sake of the duty. -/
structure Ignores (G : Guise H) (g : GeneratorRef) (d : Option Duty) : Prop where
  passes : G.Passes g
  yields : ∀ a r, d = some (.serve a r) → G.Yields a

/-- The guise does not change drains. -/
structure Drains (G : Guise H) : Prop where
  draining (b : Bool) : G.draining b = b
  limit (x : Option Nat) : G.limit x = x
  loop (limit : Option Nat) (executed : Nat) (h : Activation H) :
    G.drain (.loop limit executed h) = .loop limit executed (G.activation h)

end Guise

theorem Code.isPublic_guise (c : Code H) (G : Guise H) : (c.guise G).isPublic = c.isPublic := by
  cases c with
  | wake w kind => cases w <;> rfl
  | _ => rfl

/-- What waits looks the same if the guise ignores what it drives. -/
theorem Code.guise_of_drives {e : Engine H} {G : Guise H} {c : Code H}
    (h : ∀ x ∈ c.drives e, G.Ignores x.1 x.2) :
    c.guise G = c := by
  cases c with
  | wake w kind =>
    cases w with
    | yielding a r =>
      have ha := (h _ (List.mem_singleton.2 rfl)).yields a r rfl
      rw [Code.guise, ha]
    | _ => rfl
  | _ => rfl

namespace Engine

variable (e : Engine H) {G : Guise H}

/-! ## Generator steps -/

section Generators

variable {g : GeneratorRef} {purpose : Purpose H}

theorem conclude_guise (h : G.Ignores g (purpose.duty? g)) (result : Except EngineError Outcome) :
    (e.guise G).conclude g result (G.purpose purpose) = (e.conclude g result purpose).guise G := by
  cases purpose with
  | serving a r reply k =>
    simp [conclude, Config.guise, Control.guise, absorbOutcome_guise e G (h.yields a r rfl)]
  | _ => simp [conclude, Config.guise, Control.guise]

theorem stepGenerator_guise (h : G.Ignores g (purpose.duty? g)) {purpose' : Purpose H}
    (hp : G.purpose purpose = purpose') (c : Completion) :
    (e.guise G).stepGenerator g c purpose' = (e.stepGenerator g c purpose).guise G := by
  subst hp
  simp only [stepGenerator, beginStep_guise h.passes]
  obtain ⟨e', result | f⟩ := e.beginStep g c
  · exact conclude_guise e' h result
  · simp [Config.guise, Control.guise, h.passes.stepper]

end Generators

section Frames

variable {s : Stepper H} (h : ∀ x ∈ s.drives, G.Ignores x.1 x.2)
include h

theorem frameStopped_guise (o : Outcome) (f : Frame H) :
    (e.guise G).frameStopped o f (G.stepper s) = (e.frameStopped o f s).guise G := by
  cases s with
  | host h => simp [frameStopped, Config.guise, Control.guise]
  | generator g purpose =>
    have hg := h _ (List.mem_singleton.2 rfl)
    simp only [frameStopped, hg.passes.stepper, endStep_guise hg.passes]
    exact conclude_guise _ hg _

theorem scriptProgress_guise (p : ScriptFrame.Progress) :
    (e.guise G).scriptProgress (G.stepper s) p = (e.scriptProgress s p).guise G := by
  cases p with
  | running f => rfl
  | stopped o f => exact frameStopped_guise e h o _

theorem resumeFrame_guise (c : Completion) (f : Frame H) :
    (e.guise G).resumeFrame c (G.stepper s) f = (e.resumeFrame c s f).guise G := by
  cases f with
  | values f => exact frameStopped_guise e h _ _
  | script f => exact scriptProgress_guise e h _
  | host code => simp [resumeFrame, Config.guise, Control.guise]

end Frames

/-! ## Functions -/

section Functions

variable (k : Caller H)

theorem wake_guise {w : Waiter H} (h : ∀ x ∈ w.drives e, G.Ignores x.1 x.2) (kind : Settling)
    (v : Value) : (e.guise G).wake kind v (G.caller k) w = (e.wake kind v k w).guise G := by
  cases w with
  | yielding a r =>
    cases kind with
    | fulfill => simp [wake, Config.guise, Control.guise]
    | reject =>
      exact stepGenerator_guise e (h _ (List.mem_singleton.2 rfl)) (G.purpose_serving a r _ k) _
  | awaiting a r =>
    exact stepGenerator_guise e (h _ (List.mem_singleton.2 rfl)) (G.purpose_serving a r _ k) _
  | returning a r => cases kind <;> simp [wake, Config.guise, Control.guise]
  | body g p =>
    exact stepGenerator_guise e (h _ (List.mem_singleton.2 rfl)) (G.purpose_body p _ k) _
  | host f g => simp [wake, Config.guise, Control.guise]

theorem runCode_guise (args : List Value) {c : Code H} (h : ∀ x ∈ c.drives e, G.Ignores x.1 x.2) :
    (e.guise G).runCode args (G.caller k) c = (e.runCode args k c).guise G := by
  cases c with
  | wake w kind => exact wake_guise e k h kind _
  | adopt p kind => cases kind <;> simp [runCode, Config.guise, Control.guise]
  | constant v kind => cases kind <;> rfl
  | _ => simp [runCode, Config.guise, Control.guise]

theorem callFunction_guise {f : FunctionRef} (args : List Value)
    (h : ∀ x ∈ (e.callable f).code.drives e, G.Ignores x.1 x.2) :
    (e.guise G).callFunction f args (G.caller k) = (e.callFunction f args k).guise G := by
  have hcode : ((e.guise G).callable f).code = (e.callable f).code := by
    rw [callable_guise]
    exact Code.guise_of_drives h
  simp only [callFunction, hcode, usage_guise]
  cases (e.callable f).usage with
  | repeatable => exact runCode_guise e k args h
  | once =>
    rw [spend_guise]
    exact runCode_guise (e.spend f) k _ h
  | spent => rfl

@[simp] theorem settleCapability_guise (capability : Option PromiseRef)
    (result : Except Failure Value) :
    (e.guise G).settleCapability capability result =
      (e.settleCapability capability result).guise G := by
  cases capability <;> cases result <;> simp [settleCapability]

theorem deliver_guise (result : Except Failure Value) :
    (e.guise G).deliver result (G.caller k) = (e.deliver result k).guise G := by
  cases k <;> cases result <;> simp [deliver, Config.guise, Control.guise]

theorem serve_guise {a : AsyncGeneratorRef} (reply : Value)
    (h : ∀ x ∈ (e.asyncGenerator a).drives a, G.Ignores x.1 x.2) :
    (e.guise G).serve a reply (G.caller k) = (e.serve a reply k).guise G := by
  simp only [serve, takeRequest_guise]
  cases ht : e.takeRequest a with
  | mk e' service =>
    cases service with
    | idle => rfl
    | answered => rfl
    | resume inner r =>
      exact stepGenerator_guise e' (h _ (takeRequest_resume ht)) (G.purpose_serving a r reply k) _

end Functions

/-! ## Jobs -/

@[simp] theorem settle_guise (p : PromiseRef) (kind : Settling) (v : Value) :
    (e.guise G).settle p kind v = (e.settle p kind v).guise G := by
  cases kind <;> simp [settle]

theorem runJob_guise (id : Nat) (d : Drain H) (j : Job H) :
    (e.guise G).runJob id (G.drain d) j = (e.runJob id d j).guise G := by
  cases j with
  | reaction r v =>
    obtain ⟨kind, handler, capability⟩ := r
    cases handler <;> cases capability <;> simp [runJob, Config.guise, Control.guise]
  | adoption p q => simp [runJob, Config.guise, Control.guise]
  | callback label code => simp [runJob, Config.guise, Control.guise]

theorem jobEnded_guise (id : Nat) (d : Drain H) (result : Except EngineError Unit) :
    (e.guise G).jobEnded id (G.drain d) result = (e.jobEnded id d result).guise G := by
  cases result with
  | ok u => rfl
  | error error =>
    simp only [jobEnded, displayError_guise]
    rfl

theorem drainRound_guise (hG : G.Drains) (d : Drain H) :
    (e.guise G).drainRound (G.drain d) = (e.drainRound d).guise G := by
  obtain ⟨limit, executed, h⟩ := d
  have hreached : (e.guise G).limitReached limit executed = e.limitReached limit executed := rfl
  have hjobs : (e.guise G).jobs = e.jobs := rfl
  have hend : ({ e.guise G with draining := false } : Engine H) =
      Engine.guise { e with draining := false } G := by
    simp only [guise, hG.draining]
  rw [hG.loop, drainRound, drainRound, hreached, hjobs]
  split
  · exact congrArg (Config.mk · _) hend
  · cases hpop : e.jobs.pop? with
    | some first =>
      rw [← hG.loop]
      exact runJob_guise { e with jobs := first.2 } _ _ _
    | none =>
      exact congrArg (Config.mk · _)
        ((congrArg reportUnhandled hend).trans (reportUnhandled_guise _ G))

/-! ## Operations of the host -/

theorem runJobs_guise (h : Activation H)
    (hrun : G.Drains ∨ (G.draining e.draining = true ∧ e.draining = true)) :
    (e.guise G).runJobs (G.activation h) = (e.runJobs h).guise G := by
  have hdraining : (e.guise G).draining = G.draining e.draining := rfl
  have hlimit : (e.guise G).limit = G.limit e.limit := rfl
  rw [runJobs, runJobs, hdraining, hlimit]
  rcases hrun with hG | ⟨hd, hd'⟩
  · rw [hG.draining, hG.limit]
    split
    · rfl
    · simp only [Config.guise, Control.guise, guise, hG.draining, hG.limit, hG.loop]
  · rw [hd, hd']
    rfl

theorem perform_guise (h : Activation H) {op : Op H} (hnew : e.Admits G)
    (hd : ∀ x ∈ op.drives e, G.Ignores x.1 x.2) (hlimit : op.limits = true → G.Drains)
    (hrun : op = .runJobs → G.Drains ∨ (G.draining e.draining = true ∧ e.draining = true)) :
    (e.guise G).perform (G.activation h) op = (e.perform h op).guise G := by
  cases op with
  | setLimit x =>
    have hx := (hlimit rfl).limit x
    simp [perform, reply, Config.guise, Control.guise, guise, hx]
  | reset =>
    have hx := (hlimit rfl).limit none
    simp [perform, reset, reply, Config.guise, Control.guise, guise, hx]
  | runJobs => exact runJobs_guise e h (hrun rfl)
  | stepGenerator g c =>
    exact stepGenerator_guise e (hd _ (List.mem_singleton.2 rfl)) (G.purpose_outcome h) c
  | advanceGenerator g c =>
    exact stepGenerator_guise e (hd _ (List.mem_singleton.2 rfl)) (G.purpose_iterator h) c
  | popJob =>
    have hj : (e.guise G).jobs = e.jobs := rfl
    simp only [perform, hj]
    cases e.jobs.pop? <;> rfl
  | newGenerator f => simp [perform, hnew.newGenerator, replyValue, reply, Config.guise, Control.guise]
  | newAsyncGenerator f =>
    simp [perform, hnew.newAsyncGenerator, replyValue, reply, Config.guise, Control.guise]
  | startAsync f =>
    have hnew' : e.newPromise.2.Admits G := ⟨hnew.size, hnew.push⟩
    simp only [perform, startAsync, newPromise_guise, hnew'.newGenerator]
    refine stepGenerator_guise _ (hd _ (List.mem_singleton.2 rfl)) ?_ _
    simp
  | generatorMethod receiver method args =>
    simp only [perform]
    split
    · exact stepGenerator_guise e (hd _ (List.mem_singleton.2 rfl)) (G.purpose_iterator h) _
    · rfl
    · rfl
  | asyncGeneratorMethod receiver method args =>
    simp only [perform]
    split
    · simp [request, Config.guise, Control.guise]
    · rfl
    · rfl
  | setPolicy policy => rfl
  | clearJobs => rfl
  | closeGenerator g => simp [perform, reply, Config.guise, Control.guise]
  | dropFrame g =>
    have hg := modifyGenerator_guise (e := e) (hd _ (List.mem_singleton.2 rfl)).passes
      fun r => { r with frame := none }
    simp [perform, dropFrame, hg, reply, Config.guise, Control.guise]
  | await v f g =>
    have hw : (e.guise G).await v (.host f g) = (e.await v (.host f g)).guise G :=
      await_guise e G v fun _ => rfl
    simp [perform, hw, reply, Config.guise, Control.guise]
  | _ =>
    simp [perform, request, construct, promiseCatch, reply, replyValue, replyPromise, Config.guise,
      Control.guise]

end Engine

/-! ## Steps -/

theorem Config.tick_guise {c : Config H} {G : Guise H}
    (hd : ∀ x ∈ c.control.drives c.engine, G.Ignores x.1 x.2)
    (hdrain : ∀ d, c.control = .drain d → G.Drains) : (c.guise G).tick = c.tick.guise G := by
  obtain ⟨e, control⟩ := c
  cases control with
  | host h prompt => rfl
  | call f args k => exact e.callFunction_guise k args hd
  | deliver result k => exact e.deliver_guise k result
  | resume f c s => exact e.resumeFrame_guise hd c f
  | run f s => exact e.scriptProgress_guise hd _
  | serve a reply k => exact e.serve_guise k reply hd
  | drain d => exact e.drainRound_guise (hdrain d rfl) d

/-- What a move does to the drain that is in progress is the same in the guise. -/
structure Guise.Lets (G : Guise H) (w : World H) (m : Move H) : Prop where
  round : m = .tick → ∀ d, w.config.control = .drain d → G.Drains
  limit : m.limits = true → G.Drains
  run : m = .perform .runJobs →
    G.Drains ∨ (G.draining w.config.engine.draining = true ∧ w.config.engine.draining = true)

/-- **A step is the same step in a guise** that ignores what it drives. -/
theorem Step.guise {w w' : World H} {m : Move H} (h : Step w m w') (hm : m ≠ .abandon)
    {G : Guise H} (hd : ∀ x ∈ w.drives m, G.Ignores x.1 x.2) (hnew : w.config.engine.Admits G)
    (hG : G.Lets w m) : Step (w.guise G) m (w'.guise G) := by
  cases h with
  | tick c held =>
    have ht := c.tick_guise hd (hG.round rfl)
    rw [World.guise, World.guise, ← ht]
    exact .tick _ held
  | @perform e h prompt held op hop =>
    have hp := e.perform_guise h hnew hd hG.limit fun hr => hG.run (congrArg Move.perform hr)
    have hop' : op.Admissible (e.guise G) := by
      refine ⟨fun f hf => ?_, hop.job⟩
      rw [e.callable_guise]
      exact (Code.isPublic_guise _ G).trans (hop.functions f hf)
    rw [World.guise, World.guise, ← hp]
    exact .perform hop'
  | putBack => exact .putBack
  | @finishCall e k prompt held result =>
    simp only [World.guise, Config.guise, Control.guise, G.activation_function]
    exact .finishCall result
  | @finishFrame e s prompt held o code =>
    have hs := e.frameStopped_guise hd o (.host code)
    simp only [World.guise, Engine.finishFrame, ← hs]
    simp only [Config.guise, Control.guise, G.activation_frame]
    exact .finishFrame o code
  | @finishJob e id d prompt held result =>
    have hj := e.jobEnded_guise (G := G) id d result
    simp only [World.guise, Engine.finishJob, ← hj]
    simp only [Config.guise, Control.guise, G.activation_job]
    exact .finishJob result
  | abandon => exact absurd rfl hm

end Microtask
