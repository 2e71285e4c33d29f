import Microtask.Proofs.Generator.Completed

/-!
# Whose turn it is

The steps of generators that are under way wait on the control stack, each for the duty
that it is for (`Control.steps`). A move begins at most one more step, which is the
innermost one from then on, or it ends the innermost one, or it loses all of them
(`World.Turn`). A step begins by taking the frame out of its generator, and with the
next tick the frame is resumed (`Control.entering?`).

Main statement: `Step.turn`.
-/

namespace Microtask

variable {H : Type}

/-! ## Steps on the control stack -/

mutual

def Caller.steps : Caller H → List (GeneratorRef × Option Duty)
  | .host h | .executor _ h => h.steps
  | .reaction _ d => d.steps
  | .finalizer _ _ k | .discarding k => k.steps

def Stepper.steps : Stepper H → List (GeneratorRef × Option Duty)
  | .host h => h.steps
  | .generator g purpose => (g, purpose.duty? g) :: purpose.steps

def Purpose.steps : Purpose H → List (GeneratorRef × Option Duty)
  | .outcome h | .iterator h => h.steps
  | .serving _ _ _ k | .body _ _ k => k.steps

def Activation.steps : Activation H → List (GeneratorRef × Option Duty)
  | .main => []
  | .function k => k.steps
  | .frame s => s.steps
  | .job _ d => d.steps

def Drain.steps : Drain H → List (GeneratorRef × Option Duty)
  | .loop _ _ h => h.steps

end

/-- The steps of generators that are under way, innermost first, each with the duty that
it is for. -/
def Control.steps : Control H → List (GeneratorRef × Option Duty)
  | .host h _ => h.steps
  | .call _ _ k | .deliver _ k | .serve _ _ k => k.steps
  | .resume _ _ s | .run _ s => s.steps
  | .drain d => d.steps

/-- The steps have the generators and the duties that are on a stack, and those for async
functions are steps of their bodies. -/
structure Tallies (steps : List (GeneratorRef × Option Duty)) (running : List GeneratorRef)
    (duties : List Duty) : Prop where
  running : running = steps.map (·.1)
  duties : ∀ d : Duty, d.OfStep → duties.count d = steps.countP (·.2 = some d)
  body : ∀ x ∈ steps, ∀ g p, x.2 = some (.body g p) → x.1 = g

namespace Tallies

variable {steps : List (GeneratorRef × Option Duty)} {running : List GeneratorRef}
  {duties : List Duty} {g : GeneratorRef}

theorem count_running (h : Tallies steps running duties) (g : GeneratorRef) :
    running.count g = steps.countP (·.1 = g) := by
  rw [h.running, List.count, List.countP_map]
  exact List.countP_congr fun x _ => by simp

/-- Duties that no step is for. -/
theorem append (h : Tallies steps running duties) (others : List Duty)
    (ho : ∀ d ∈ others, ¬ d.OfStep) : Tallies steps running (others ++ duties) := by
  refine ⟨h.running, fun d hd => ?_, h.body⟩
  have hnone : others.count d = 0 := List.count_eq_zero.2 fun hmem => ho d hmem hd
  rw [List.count_append, hnone, Nat.zero_add, h.duties d hd]

theorem cons (h : Tallies steps running duties) (g : GeneratorRef) {d : Duty}
    (hd : ∀ g' p, d = .body g' p → g = g') :
    Tallies ((g, some d) :: steps) (g :: running) (d :: duties) := by
  refine ⟨by rw [h.running]; rfl, fun d' hd' => ?_, fun x hx g' p hx' => ?_⟩
  · rw [List.count_cons, List.countP_cons, h.duties d' hd']
    simp
  · rcases List.mem_cons.1 hx with rfl | hx
    · exact hd g' p (Option.some.inj hx')
    · exact h.body x hx g' p hx'

theorem cons_none (h : Tallies steps running duties) (g : GeneratorRef) :
    Tallies ((g, none) :: steps) (g :: running) duties := by
  refine ⟨by rw [h.running]; rfl, fun d' hd' => ?_, fun x hx g' p hx' => ?_⟩
  · rw [List.countP_cons, h.duties d' hd']
    simp
  · rcases List.mem_cons.1 hx with rfl | hx
    · cases hx'
    · exact h.body x hx g' p hx'

end Tallies

mutual

theorem Caller.tallies : ∀ k : Caller H, Tallies k.steps k.running k.duties
  | .host h => h.tallies
  | .reaction capability d => d.tallies.append _ fun x hx => by
    obtain ⟨p, -, rfl⟩ := List.mem_map.1 hx
    exact id
  | .executor p h => h.tallies.append [.construct p] fun x hx => by
    rw [List.mem_singleton.1 hx]
    exact id
  | .finalizer _ _ k => k.tallies
  | .discarding k => k.tallies

theorem Stepper.tallies : ∀ s : Stepper H, Tallies s.steps s.running s.duties
  | .host h => h.tallies
  | .generator g purpose => purpose.tallies g

theorem Purpose.tallies (g : GeneratorRef) : ∀ purpose : Purpose H,
    Tallies ((g, purpose.duty? g) :: purpose.steps) (g :: purpose.running) (purpose.duties g)
  | .outcome h => h.tallies.cons_none g
  | .iterator h => h.tallies.cons_none g
  | .serving a r _ k => k.tallies.cons g fun g' p heq => by cases heq
  | .body p _ k => k.tallies.cons g fun g' p' heq => by cases heq; rfl

theorem Activation.tallies : ∀ h : Activation H, Tallies h.steps h.running h.duties
  | .main => ⟨rfl, fun _ _ => rfl, fun x hx => by cases hx⟩
  | .function k => k.tallies
  | .frame s => s.tallies
  | .job _ d => d.tallies

theorem Drain.tallies : ∀ d : Drain H, Tallies d.steps d.running d.duties
  | .loop _ _ h => h.tallies

end

namespace Control

theorem tallies (c : Control H) : Tallies c.steps c.running c.duties := by
  cases c with
  | host h prompt => exact h.tallies
  | call f args k | deliver result k | serve a reply k => exact k.tallies
  | resume f c s | run f s => exact s.tallies
  | drain d => exact d.tallies

theorem mem_running {c : Control H} {x : GeneratorRef × Option Duty} (h : x ∈ c.steps) :
    x.1 ∈ c.running := by
  rw [c.tallies.running]
  exact List.mem_map_of_mem h

/-- A duty on the stack is what one of the steps is for. -/
theorem exists_step {c : Control H} {d : Duty} (hd : d.OfStep) (h : c.duties.count d ≠ 0) :
    ∃ g, (g, some d) ∈ c.steps := by
  rw [c.tallies.duties d hd, Ne, List.countP_eq_zero] at h
  push Not at h
  obtain ⟨⟨g, d'⟩, hmem, heq⟩ := h
  obtain rfl : d' = some d := of_decide_eq_true heq
  exact ⟨g, hmem⟩

/-- The step that is about to resume its frame, with the completion. -/
def entering? : Control H → Option (GeneratorRef × Completion)
  | .resume _ c (.generator g _) => some (g, c)
  | _ => none

end Control

/-! ## Taking frames out and putting them back -/

namespace Engine

/-- The frame of a generator is taken out. -/
def takeOut (e : Engine H) (g : GeneratorRef) : Engine H :=
  e.modifyGenerator g fun r => { r with state := .executing, frame := none }

theorem generator_modify (e : Engine H) (g g' : GeneratorRef)
    (change : Generator H → Generator H) :
    (e.modifyGenerator g change).generator g' =
      if g' = g then change (e.generator g) else e.generator g' :=
  Stage.generator_modify ⟨e.generators, []⟩ g g' change

theorem size_le_modifyGenerator (e : Engine H) (g : GeneratorRef)
    (change : Generator H → Generator H) :
    e.generators.size ≤ (e.modifyGenerator g change).generators.size :=
  Stage.size_le_modify ⟨e.generators, []⟩ g change

theorem generator_takeOut (e : Engine H) (g : GeneratorRef) :
    (e.takeOut g).generator g = { e.generator g with state := .executing, frame := none } := by
  rw [takeOut, generator_modify, if_pos rfl]

theorem generator_endStep (e : Engine H) (g : GeneratorRef) (f : Frame H) (o : Outcome) :
    (e.endStep g f o).generator g =
      if o.isFinished then { e.generator g with state := .completed }
      else { e.generator g with state := .suspendedYield, frame := some f } := by
  unfold endStep
  split <;> rw [generator_modify, if_pos rfl]

theorem size_le_endStep (e : Engine H) (g : GeneratorRef) (f : Frame H) (o : Outcome) :
    e.generators.size ≤ (e.endStep g f o).generators.size := by
  unfold endStep
  split <;> exact e.size_le_modifyGenerator g _

theorem asyncGenerators_endStep (e : Engine H) (g : GeneratorRef) (f : Frame H)
    (o : Outcome) : (e.endStep g f o).asyncGenerators = e.asyncGenerators := by
  unfold endStep
  split <;> rfl

/-! ## Beginning a step -/

/-- The generator is the same, or it has just been made. -/
def Keeps (e e₁ : Engine H) (g : GeneratorRef) : Prop :=
  e₁.generator g = e.generator g ∨
    e.generators.size ≤ g.index ∧ (e₁.generator g).state = .suspendedStart

/-- What the machine makes of the steps under way without the end of one: it leaves them
alone, or it begins one of those that it may begin. -/
inductive Advances (e : Engine H) (may steps : List (GeneratorRef × Option Duty)) :
    Config H → Prop where
  | quiet {c : Config H} : c.control.steps = steps → c.control.entering? = none →
      Advances e may steps c
  | begins {e₁ : Engine H} {g : GeneratorRef} {c : Completion} {f : Frame H}
      {purpose : Purpose H} : (g, purpose.duty? g) ∈ may → purpose.steps = steps →
      e.Keeps e₁ g → (e₁.generator g).Takes c → (e₁.generator g).frame = some f →
      Advances e may steps ⟨e₁.takeOut g, .resume f c (.generator g purpose)⟩

variable {e : Engine H} {may steps : List (GeneratorRef × Option Duty)}

theorem conclude_steps (e : Engine H) (g : GeneratorRef) (result : Except EngineError Outcome)
    (purpose : Purpose H) :
    (e.conclude g result purpose).control.steps = purpose.steps ∧
      (e.conclude g result purpose).control.entering? = none := by
  cases purpose <;> exact ⟨rfl, rfl⟩

/-- A step begins if the generator takes the completion and its frame is at hand. -/
theorem beginStep_of_takes {e : Engine H} {g : GeneratorRef} {c : Completion} {f : Frame H}
    (ht : (e.generator g).Takes c) (hf : (e.generator g).frame = some f) :
    e.beginStep g c = (e.takeOut g, .running f) := by
  have htake : e.takeFrame g = (e.takeOut g, .running f) := by
    simp only [takeFrame, takeOut, hf]
  rcases ht with hs | ⟨hs, hc⟩
  · simp only [beginStep, hs, htake]
  · simp only [beginStep, hs, hc, htake, Bool.false_eq_true, if_false]

/-- A step begins with the frame that it takes out, or it ends at once. -/
theorem beginStep_cases (e : Engine H) (g : GeneratorRef) (c : Completion) :
    (∃ e' result, e.beginStep g c = (e', .answered result)) ∨
      ∃ f, (e.generator g).Takes c ∧ (e.generator g).frame = some f ∧
        e.beginStep g c = (e.takeOut g, .running f) := by
  have htake : (e.generator g).Takes c → e.beginStep g c = e.takeFrame g →
      (∃ e' result, e.beginStep g c = (e', .answered result)) ∨
        ∃ f, (e.generator g).Takes c ∧ (e.generator g).frame = some f ∧
          e.beginStep g c = (e.takeOut g, .running f) := by
    intro ht heq
    rw [heq, takeFrame]
    cases hf : (e.generator g).frame with
    | none => exact .inl ⟨_, _, rfl⟩
    | some f => exact .inr ⟨f, ht, rfl, rfl⟩
  cases hs : (e.generator g).state with
  | executing | completed => exact .inl ⟨_, _, by simp only [beginStep, hs]; rfl⟩
  | suspendedStart =>
    cases hc : c.isAbrupt with
    | true => exact .inl ⟨_, _, by simp only [beginStep, hs, hc, if_true]; rfl⟩
    | false =>
      exact htake (.inr ⟨hs, hc⟩) (by simp only [beginStep, hs, hc, Bool.false_eq_true, if_false])
  | suspendedYield => exact htake (.inl hs) (by simp only [beginStep, hs])

theorem stepGenerator_advances {e₁ : Engine H} {g : GeneratorRef} (purpose : Purpose H)
    (hmay : (g, purpose.duty? g) ∈ may)
    (hsame : e.Keeps e₁ g) (c : Completion) :
    e.Advances may purpose.steps (e₁.stepGenerator g c purpose) := by
  obtain ⟨e', result, hb⟩ | ⟨f, ht, hf, hb⟩ := e₁.beginStep_cases g c
  · rw [stepGenerator, hb]
    exact .quiet (conclude_steps e' g result purpose).1 (conclude_steps e' g result purpose).2
  · rw [stepGenerator, hb]
    exact .begins hmay rfl hsame ht hf

variable {k : Caller H}

theorem wake_advances (kind : Settling) (v : Value) {w : Waiter H} (hmay : w.drives e ⊆ may)
    {e₁ : Engine H} (hgen : e₁.generators = e.generators)
    (hasync : e₁.asyncGenerators = e.asyncGenerators) :
    e.Advances may k.steps (e₁.wake kind v k w) := by
  have hsame : ∀ g : GeneratorRef, e.Keeps e₁ g := fun g => .inl (by rw [generator, hgen]; rfl)
  have hinner : ∀ a, (e₁.asyncGenerator a).inner = (e.asyncGenerator a).inner :=
    fun a => by rw [asyncGenerator, hasync]; rfl
  cases w with
  | yielding a r =>
    cases kind with
    | fulfill => exact .quiet rfl rfl
    | reject =>
      refine stepGenerator_advances (.serving a r .undefined k) (hmay ?_) (hsame _) _
      rw [hinner]
      exact List.mem_singleton.2 rfl
  | awaiting a r =>
    refine stepGenerator_advances (.serving a r .undefined k) (hmay ?_) (hsame _) _
    rw [hinner]
    exact List.mem_singleton.2 rfl
  | returning a r => cases kind <;> exact .quiet rfl rfl
  | body g p =>
    exact stepGenerator_advances (.body p .undefined k)
      (hmay (List.mem_singleton.2 rfl)) (hsame g) _
  | host onFulfilled onRejected => exact .quiet rfl rfl

theorem callFunction_advances {f : FunctionRef} (args : List Value)
    (hmay : (e.callable f).code.drives e ⊆ may) :
    e.Advances may k.steps (e.callFunction f args k) := by
  have hrun : ∀ (e₁ : Engine H) (given : List Value), e₁.generators = e.generators →
      e₁.asyncGenerators = e.asyncGenerators →
      e.Advances may k.steps (e₁.runCode given k (e.callable f).code) := by
    intro e₁ given hgen hasync
    cases hcode : (e.callable f).code with
    | wake w kind =>
      rw [hcode] at hmay
      exact wake_advances kind _ hmay hgen hasync
    | constant v kind => cases kind <;> exact .quiet rfl rfl
    | _ => exact .quiet rfl rfl
  rw [callFunction]
  cases (e.callable f).usage with
  | repeatable => exact hrun e args rfl rfl
  | once => exact hrun (e.spend f) _ rfl rfl
  | spent => exact .quiet rfl rfl

theorem deliver_advances (result : Except Failure Value) :
    e.Advances may k.steps (e.deliver result k) := by
  cases k with
  | finalizer settled kind k => cases result <;> exact .quiet rfl rfl
  | _ => exact .quiet rfl rfl

theorem takeRequest_generator {a : AsyncGeneratorRef} {e' : Engine H} {inner : GeneratorRef}
    {r : Request} (h : e.takeRequest a = (e', .resume inner r)) :
    e'.generators = e.generators := by
  unfold takeRequest at h
  dsimp only at h
  split at h
  · cases h
  · split at h
    · cases h
    · split at h
      · cases h
      · cases h
      · cases h
      · cases h
        rfl

theorem serve_advances {a : AsyncGeneratorRef} (hmay : (e.asyncGenerator a).drives a ⊆ may)
    (reply : Value) : e.Advances may k.steps (e.serve a reply k) := by
  unfold serve
  split
  · exact .quiet rfl rfl
  · exact .quiet rfl rfl
  · next e' inner r heq =>
    refine stepGenerator_advances (.serving a r reply k)
      (hmay (takeRequest_resume heq)) (.inl ?_) _
    rw [generator, takeRequest_generator heq]
    rfl

theorem drainRound_advances (d : Drain H) : e.Advances may d.steps (e.drainRound d) := by
  obtain ⟨limit, executed, h⟩ := d
  have hrun : ∀ (e₁ : Engine H) id j,
      e.Advances may h.steps (e₁.runJob id (.loop limit (executed + 1) h) j) := by
    intro e₁ id j
    cases j with
    | reaction r v =>
      obtain ⟨kind, handler, capability⟩ := r
      cases handler <;> cases capability <;> exact .quiet rfl rfl
    | _ => exact .quiet rfl rfl
  unfold drainRound
  dsimp only
  split
  · exact .quiet rfl rfl
  · split
    · exact hrun _ _ _
    · exact .quiet rfl rfl

/-! ## Operations of the host -/

variable {h : Activation H}

theorem generator_newGenerator (e : Engine H) (f : Frame H) :
    (e.newGenerator f).2.generator (e.newGenerator f).1 =
      { id := e.nextId, state := .suspendedStart, frame := some f } := by
  simp [generator, newGenerator, Store.get_push]

theorem startAsync_advances (f : Frame H)
    (hmay : (⟨e.generators.size⟩, some (.body ⟨e.generators.size⟩ ⟨e.promises.size⟩)) ∈ may) :
    e.Advances may k.steps (e.startAsync f k) := by
  have hnew := generator_newGenerator e.newPromise.2 f
  exact stepGenerator_advances (.body e.newPromise.1 (.promise e.newPromise.1) k) hmay
    (.inr ⟨Nat.le_refl _, congrArg Generator.state hnew⟩) _

theorem perform_advances {op : Op H} (hmay : op.drives e ⊆ may) :
    e.Advances may h.steps (e.perform h op) := by
  have hstep : ∀ (purpose : Purpose H) g c, (g, purpose.duty? g) ∈ op.drives e →
      e.Advances may purpose.steps (e.stepGenerator g c purpose) :=
    fun purpose g c hg => stepGenerator_advances purpose (hmay hg) (.inl rfl) c
  cases op with
  | stepGenerator g c => exact hstep (.outcome h) g c (List.mem_singleton.2 rfl)
  | advanceGenerator g c => exact hstep (.iterator h) g c (List.mem_singleton.2 rfl)
  | generatorMethod receiver method args =>
    unfold perform
    dsimp only
    split
    · next g c heq => exact hstep (.iterator h) g c (List.mem_singleton.2 rfl)
    · exact .quiet rfl rfl
    · exact .quiet rfl rfl
  | asyncGeneratorMethod receiver method args =>
    unfold perform
    dsimp only
    split <;> exact .quiet rfl rfl
  | startAsync f => exact startAsync_advances (k := .host h) f (hmay (List.mem_singleton.2 rfl))
  | runJobs =>
    unfold perform runJobs
    dsimp only
    split <;> exact .quiet rfl rfl
  | popJob =>
    unfold perform
    dsimp only
    split <;> exact .quiet rfl rfl
  | _ => exact .quiet rfl rfl

end Engine

/-! ## Steps -/

/-- What a move does to the steps under way. -/
inductive World.Turn (w : World H) (m : Move H) (w' : World H) : Prop where
  | advances :
      w.config.engine.Advances (w.drives m) w.config.control.steps w'.config → Turn w m w'
  /-- The innermost step ends. -/
  | stops {g : GeneratorRef} {purpose : Purpose H} {o : Outcome} :
      w.Stops m (.generator g purpose) o →
      w.config.control.steps = (g, purpose.duty? g) :: w'.config.control.steps →
      w'.config.control.entering? = none → Turn w m w'
  | lost : m = .abandon → w'.config.control = .host .main .outside → Turn w m w'

section Stops

variable {e : Engine H} {c : Control H} {held held' : List (Job H)} {m : Move H} {s : Stepper H}

theorem World.Turn.of_stops {o : Outcome} (f : Frame H) (hs : c.steps = s.steps)
    (hstop : World.Stops ⟨⟨e, c⟩, held⟩ m s o) :
    World.Turn ⟨⟨e, c⟩, held⟩ m ⟨e.frameStopped o f s, held'⟩ := by
  cases s with
  | host h => exact .advances (.quiet hs.symm rfl)
  | generator g purpose =>
    obtain ⟨hsteps, hnone⟩ := (e.endStep g f o).conclude_steps g (.ok o) purpose
    refine .stops hstop (hs.trans ?_) hnone
    rw [Engine.frameStopped, hsteps]
    rfl

theorem World.Turn.of_progress {progress : ScriptFrame.Progress} (hs : c.steps = s.steps)
    (hstop : ∀ o f, progress = .stopped o f → World.Stops ⟨⟨e, c⟩, held⟩ m s o) :
    World.Turn ⟨⟨e, c⟩, held⟩ m ⟨e.scriptProgress s progress, held'⟩ := by
  cases progress with
  | running f => exact .advances (.quiet hs.symm rfl)
  | stopped o f => exact .of_stops (.script f) hs (hstop o f rfl)

end Stops

/-- **A move begins or ends at most one step**, or it loses all of them. -/
theorem Step.turn {w w' : World H} {m : Move H} (h : Step w m w') : w.Turn m w' := by
  cases h with
  | tick c held =>
    obtain ⟨e, control⟩ := c
    cases control with
    | host h prompt => exact .advances (.quiet rfl rfl)
    | call f args k => exact .advances (Engine.callFunction_advances args (List.Subset.refl _))
    | deliver result k => exact .advances (Engine.deliver_advances result)
    | resume f c s =>
      cases f with
      | values f => exact .of_stops _ rfl (.values f)
      | script f => exact .of_progress rfl fun o f' hf => .enter hf
      | host code => exact .advances (.quiet rfl rfl)
    | run f s => exact .of_progress rfl fun o f' hf => .script hf
    | serve a reply k => exact .advances (Engine.serve_advances (List.Subset.refl _) reply)
    | drain d => exact .advances (Engine.drainRound_advances d)
  | perform hop => exact .advances (Engine.perform_advances (List.Subset.refl _))
  | putBack => exact .advances (.quiet rfl rfl)
  | finishCall result => exact .advances (.quiet rfl rfl)
  | @finishFrame e s prompt held o code => exact .of_stops _ rfl (.host o code)
  | @finishJob e id d prompt held result => cases result <;> exact .advances (.quiet rfl rfl)
  | abandon => exact .lost rfl rfl

/-! ## Driving a generator -/

theorem Waiter.duty?_of_drives {waiter : Waiter H} {e : Engine H} {g : GeneratorRef} {d : Duty}
    (h : (g, some d) ∈ waiter.drives e) : waiter.duty? = some d := by
  cases waiter with
  | host onFulfilled onRejected => cases h
  | _ => exact ((Prod.mk.inj (List.mem_singleton.1 h)).2).symm

namespace World

/-- The ways in which a move can drive a generator for a duty, or for the host. -/
inductive Drives : World H → Move H → GeneratorRef → Option Duty → Prop where
  /-- A wait is over. -/
  | wake {e : Engine H} {f : FunctionRef} {args : List Value} {k : Caller H} {held : List (Job H)}
      {waiter : Waiter H} {kind : Settling} {g : GeneratorRef} {d : Duty} :
      (e.callable f).code = .wake waiter kind → (g, some d) ∈ waiter.drives e →
      Drives ⟨⟨e, .call f args k⟩, held⟩ .tick g (some d)
  | resume {e : Engine H} {f : Frame H} {c : Completion} {g : GeneratorRef} {purpose : Purpose H}
      {held : List (Job H)} :
      Drives ⟨⟨e, .resume f c (.generator g purpose)⟩, held⟩ .tick g (purpose.duty? g)
  | run {e : Engine H} {f : ScriptFrame} {g : GeneratorRef} {purpose : Purpose H}
      {held : List (Job H)} :
      Drives ⟨⟨e, .run f (.generator g purpose)⟩, held⟩ .tick g (purpose.duty? g)
  | frame {e : Engine H} {g : GeneratorRef} {purpose : Purpose H} {prompt : Prompt H}
      {held : List (Job H)} (o : Outcome) (code : H) :
      Drives ⟨⟨e, .host (.frame (.generator g purpose)) prompt⟩, held⟩ (.finishFrame o code) g
        (purpose.duty? g)
  /-- The next request is taken off the queue. -/
  | serve {e : Engine H} {a : AsyncGeneratorRef} {reply : Value} {k : Caller H}
      {held : List (Job H)} {r : Request} {rest : List Request} :
      (e.asyncGenerator a).queue = r :: rest →
      Drives ⟨⟨e, .serve a reply k⟩, held⟩ .tick (e.asyncGenerator a).inner (some (.serve a r))
  /-- An async function begins. -/
  | start {w : World H} (f : Frame H) :
      Drives w (.perform (.startAsync f)) ⟨w.config.engine.generators.size⟩
        (some (.body ⟨w.config.engine.generators.size⟩ ⟨w.config.engine.promises.size⟩))
  /-- The host names the generator. -/
  | named {w : World H} {op : Op H} {g : GeneratorRef} :
      (g, none) ∈ op.drives w.config.engine → Drives w (.perform op) g none

theorem drives_of_mem {w : World H} {m : Move H} {x : GeneratorRef × Option Duty}
    (hx : x ∈ w.drives m) : w.Drives m x.1 x.2 := by
  obtain ⟨⟨e, control⟩, held⟩ := w
  cases m with
  | tick =>
    cases control with
    | call f args k =>
      have hx : x ∈ (e.callable f).code.drives e := hx
      cases hcode : (e.callable f).code with
      | wake waiter kind =>
        rw [hcode] at hx
        have hmem : x ∈ waiter.drives e := hx
        obtain ⟨g, d⟩ := x
        cases waiter with
        | host onFulfilled onRejected => cases hmem
        | _ =>
          obtain ⟨rfl, rfl⟩ := Prod.mk.inj (List.mem_singleton.1 hmem)
          exact .wake hcode hmem
      | _ =>
        rw [hcode] at hx
        cases hx
    | resume f c s =>
      cases s with
      | host h => cases hx
      | generator g purpose =>
        rw [List.mem_singleton.1 hx]
        exact .resume
    | run f s =>
      cases s with
      | host h => cases hx
      | generator g purpose =>
        rw [List.mem_singleton.1 hx]
        exact .run
    | serve a reply k =>
      have hx : x ∈ (e.asyncGenerator a).drives a := hx
      cases hq : (e.asyncGenerator a).queue with
      | nil => simp [AsyncGenerator.drives, hq] at hx
      | cons r rest =>
        obtain rfl : x = ((e.asyncGenerator a).inner, some (.serve a r)) := by
          simpa [AsyncGenerator.drives, hq] using hx
        exact .serve hq
    | host h prompt | deliver result k | drain d => cases hx
  | perform op =>
    have hnamed : ∀ g, x = (g, none) → x ∈ op.drives e →
        Drives ⟨⟨e, control⟩, held⟩ (.perform op) x.1 x.2 := by
      rintro g rfl hmem
      exact .named hmem
    cases op with
    | stepGenerator g c | advanceGenerator g c | closeGenerator g | dropFrame g =>
      exact hnamed g (List.mem_singleton.1 hx) hx
    | generatorMethod receiver method args =>
      cases receiver with
      | generator g => exact hnamed g (List.mem_singleton.1 hx) hx
      | _ => cases hx
    | startAsync f =>
      rw [List.mem_singleton.1 hx]
      exact .start f
    | _ => cases hx
  | finishFrame o code =>
    cases control with
    | host h prompt =>
      cases h with
      | frame s =>
        cases s with
        | host h => cases hx
        | generator g purpose =>
          rw [List.mem_singleton.1 hx]
          exact .frame o code
      | _ => cases hx
    | _ => cases hx
  | _ => cases hx

end World

end Microtask
