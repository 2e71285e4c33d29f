import Mathlib.Logic.Relation
import Microtask.Proofs.Moves
import Microtask.Proofs.Promise.Spared

/-!
# Generators on the control stack

A step of a generator that is under way waits on the control stack for its frame to
stop. A `Stage` is a machine reduced to its generators and to those of them whose
steps are under way, and a `Change` is one thing that can happen to it. Every step
of a world is a chain of changes (`Step.changes`), in which only the generator whose
frame stops for now is paused (`World.Pauses`), and only generators that the move drives
are touched at all.
-/

namespace Microtask

variable {H : Type}

/-! ## Steps under way -/

mutual

def Caller.running : Caller H → List GeneratorRef
  | .host h | .executor _ h => h.running
  | .reaction _ d => d.running
  | .finalizer _ _ k | .discarding k => k.running

def Stepper.running : Stepper H → List GeneratorRef
  | .host h => h.running
  | .generator g purpose => g :: purpose.running

def Purpose.running : Purpose H → List GeneratorRef
  | .outcome h | .iterator h => h.running
  | .serving _ _ _ k | .body _ _ k => k.running

def Activation.running : Activation H → List GeneratorRef
  | .main => []
  | .function k => k.running
  | .frame s => s.running
  | .job _ d => d.running

def Drain.running : Drain H → List GeneratorRef
  | .loop _ _ h => h.running

end

/-- The generators whose steps are under way, innermost first. -/
def Control.running : Control H → List GeneratorRef
  | .host h _ => h.running
  | .call _ _ k | .deliver _ k | .serve _ _ k => k.running
  | .resume _ _ s | .run _ s => s.running
  | .drain d => d.running

/-! ## Stages -/

structure Stage (H : Type) where
  generators : Store (Generator H)
  running : List GeneratorRef

def Config.stage (c : Config H) : Stage H := ⟨c.engine.generators, c.control.running⟩

/-- The generator can be resumed with the completion. -/
def Generator.Takes (r : Generator H) (c : Completion) : Prop :=
  r.state = .suspendedYield ∨ r.state = .suspendedStart ∧ c.isAbrupt = false

namespace Stage

def generator (s : Stage H) (g : GeneratorRef) : Generator H := s.generators.get g.index

def modify (s : Stage H) (g : GeneratorRef) (change : Generator H → Generator H) : Stage H :=
  { s with generators := s.generators.modify g.index change }

/-- One thing that happens, when only some generators can be touched, only some can lose
their frames, and only some can pause. -/
inductive Change (D L P : GeneratorRef → Prop) : Stage H → Stage H → Prop where
  | create (s : Stage H) (id : Nat) (f : Frame H) :
      Change D L P s { s with
        generators := s.generators.push { id, state := .suspendedStart, frame := some f } }
  | close (s : Stage H) {g : GeneratorRef} :
      D g → Change D L P s (s.modify g fun r => { r with state := .completed, frame := none })
  /-- The host loses the frame. -/
  | drop (s : Stage H) {g : GeneratorRef} :
      D g → L g → Change D L P s (s.modify g fun r => { r with frame := none })
  /-- The frame is taken out and put on the stack. -/
  | resume {s : Stage H} {g : GeneratorRef} {c : Completion} :
      D g → (s.generator g).Takes c → (s.generator g).frame.isSome = true →
      Change D L P s { s.modify g fun r => { r with state := .executing, frame := none } with
        running := g :: s.running }
  /-- There is no frame to resume. -/
  | fail {s : Stage H} {g : GeneratorRef} {c : Completion} :
      D g → (s.generator g).Takes c → (s.generator g).frame = none →
      Change D L P s (s.modify g fun r => { r with state := .completed })
  /-- The frame on top of the stack has stopped for good. -/
  | finish {s : Stage H} {g : GeneratorRef} {rest : List GeneratorRef} :
      D g → s.running = g :: rest →
      Change D L P s { s.modify g fun r => { r with state := .completed } with running := rest }
  /-- The frame on top of the stack has stopped for now, and is put back. -/
  | pause {s : Stage H} {g : GeneratorRef} {rest : List GeneratorRef} (f : Frame H) :
      D g → P g → s.running = g :: rest →
      Change D L P s { s.modify g fun r => { r with state := .suspendedYield, frame := some f } with
        running := rest }
  /-- Everything that is under way is lost. -/
  | abandon (s : Stage H) : (∀ g ∈ s.running, D g) → Change D L P s { s with running := [] }

/-- One change after the other. -/
abbrev Changes (D L P : GeneratorRef → Prop) : Stage H → Stage H → Prop :=
  Relation.ReflTransGen (Change D L P)

theorem Changes.of_eq {D L P : GeneratorRef → Prop} {s s' : Stage H} (h : s' = s) :
    Changes D L P s s' :=
  h ▸ .refl

end Stage

/-! ## Pauses -/

/-- With the move, the frame that the machine is running for a stepper stops with an
outcome. -/
inductive World.Stops : World H → Move H → Stepper H → Outcome → Prop where
  | values {e : Engine H} {c : Completion} {s : Stepper H} {held : List (Job H)}
      (f : ValuesFrame) : Stops ⟨⟨e, .resume (.values f) c s⟩, held⟩ .tick s (f.resume c).1
  | enter {e : Engine H} {c : Completion} {s : Stepper H} {held : List (Job H)}
      {f f' : ScriptFrame} {o : Outcome} : f.enter c = .stopped o f' →
      Stops ⟨⟨e, .resume (.script f) c s⟩, held⟩ .tick s o
  | script {e : Engine H} {s : Stepper H} {held : List (Job H)} {f f' : ScriptFrame}
      {o : Outcome} : f.step = .stopped o f' → Stops ⟨⟨e, .run f s⟩, held⟩ .tick s o
  | host {e : Engine H} {s : Stepper H} {prompt : Prompt H} {held : List (Job H)} (o : Outcome)
      (code : H) : Stops ⟨⟨e, .host (.frame s) prompt⟩, held⟩ (.finishFrame o code) s o

/-- With the move, a step of the generator ends because its frame stops for now. -/
def World.Pauses (w : World H) (m : Move H) (g : GeneratorRef) : Prop :=
  ∃ purpose o, w.Stops m (.generator g purpose) o ∧ o.isFinished = false

/-- Whether the host drops the frame of the generator. -/
def Move.drops : Move H → GeneratorRef → Bool
  | .perform (.dropFrame g'), g => decide (g' = g)
  | _, _ => false

/-! ## Async generators -/

namespace Engine

section Async

variable (e : Engine H) (a : AsyncGeneratorRef) (r : Request)

@[simp] theorem generators_answerRequest (v : Value) (done : Bool) :
    (e.answerRequest r v done).generators = e.generators :=
  ((spares_newObject e _).trans (spares_resolve _ _ _)).generators

@[simp] theorem generators_settleYield (v : Value) :
    (e.settleYield a r v).generators = e.generators :=
  generators_answerRequest _ r v false

@[simp] theorem generators_completeWith (v : Value) :
    (e.completeWith a r v).generators = e.generators :=
  generators_answerRequest _ r v true

@[simp] theorem generators_failWith (reason : Value) :
    (e.failWith a r reason).generators = e.generators :=
  (spares_reject _ _ reason).generators

@[simp] theorem generators_awaitReturn (v : Value) :
    (e.awaitReturn a r v).generators = e.generators :=
  (spares_await _ v _).generators

@[simp] theorem generators_absorbOutcome (result : Except EngineError Outcome) :
    (e.absorbOutcome a r result).generators = e.generators := by
  unfold absorbOutcome
  split
  · exact (spares_await e _ _).generators
  · exact generators_settleYield e a r _
  · exact (spares_await e _ _).generators
  · exact generators_awaitReturn e a r _
  · exact generators_completeWith e a r _
  · exact generators_failWith e a r _
  · exact ((spares_errorValue _ _).trans (spares_reject _ _ _)).generators

theorem spares_absorbBodyOutcome (g : GeneratorRef) (p : PromiseRef)
    (result : Except EngineError Outcome) : e.Spares (e.absorbBodyOutcome g p result) := by
  unfold absorbBodyOutcome
  split
  · exact spares_await e _ _
  · exact spares_await e _ _
  · exact spares_resolve e p _
  · exact spares_reject e p _
  · exact (spares_errorValue e _).trans (spares_reject _ p _)

end Async

open Stage

/-! ## Generator steps -/

variable {D L P : GeneratorRef → Prop}

section Steps

variable {e : Engine H}

theorem iteratorAnswer_changes {g : GeneratorRef} (hg : D g) (result : Except EngineError Outcome)
    (running : List GeneratorRef) :
    Changes D L P ⟨e.generators, running⟩ ⟨(e.iteratorAnswer g result).2.generators, running⟩ := by
  unfold iteratorAnswer
  split
  · exact .refl
  · exact .refl
  · exact .refl
  · exact .refl
  · exact .single (.close ⟨e.generators, running⟩ hg)

theorem conclude_changes {g : GeneratorRef} (hg : D g) (result : Except EngineError Outcome)
    (purpose : Purpose H) :
    Changes D L P ⟨e.generators, purpose.running⟩ (e.conclude g result purpose).stage := by
  cases purpose with
  | outcome h => exact .refl
  | iterator h => exact iteratorAnswer_changes hg result h.running
  | serving a r reply k =>
    exact .of_eq (congrArg (Stage.mk · k.running) (generators_absorbOutcome e a r result))
  | body p reply k =>
    exact .of_eq (congrArg (Stage.mk · k.running) (spares_absorbBodyOutcome e g p result).generators)

theorem takeFrame_changes {g : GeneratorRef} {c : Completion} (hg : D g)
    (h : (e.generator g).Takes c) (running : List GeneratorRef) :
    match e.takeFrame g with
    | (e', .answered _) => Changes D L P ⟨e.generators, running⟩ ⟨e'.generators, running⟩
    | (e', .running _) => Changes D L P ⟨e.generators, running⟩ ⟨e'.generators, g :: running⟩ := by
  unfold takeFrame
  cases hf : (e.generator g).frame with
  | none => exact .single (.fail hg h hf)
  | some f => exact .single (.resume hg h (Option.isSome_iff_exists.2 ⟨f, hf⟩))

/-- A step that begins puts the generator on the stack, unless it is answered at once. -/
theorem beginStep_changes {g : GeneratorRef} (hg : D g) (c : Completion)
    (running : List GeneratorRef) :
    match e.beginStep g c with
    | (e', .answered _) => Changes D L P ⟨e.generators, running⟩ ⟨e'.generators, running⟩
    | (e', .running _) => Changes D L P ⟨e.generators, running⟩ ⟨e'.generators, g :: running⟩ := by
  unfold beginStep
  cases hs : (e.generator g).state with
  | executing | completed => exact .refl
  | suspendedStart =>
    cases hc : c.isAbrupt with
    | true => exact .single (.close ⟨e.generators, running⟩ hg)
    | false => exact takeFrame_changes hg (.inr ⟨hs, hc⟩) running
  | suspendedYield => exact takeFrame_changes (c := c) hg (.inl hs) running

theorem stepGenerator_changes {g : GeneratorRef} (hg : D g) (c : Completion)
    (purpose : Purpose H) :
    Changes D L P ⟨e.generators, purpose.running⟩ (e.stepGenerator g c purpose).stage := by
  have hb := beginStep_changes (L := L) (P := P) (e := e) hg c purpose.running
  unfold stepGenerator
  split
  · next e' result heq =>
    rw [heq] at hb
    exact hb.trans (conclude_changes hg result purpose)
  · next e' f heq =>
    rw [heq] at hb
    exact hb

theorem frameStopped_changes (o : Outcome) (f : Frame H) {s : Stepper H}
    (hD : ∀ x ∈ s.drives, D x.1)
    (hP : ∀ g purpose, s = .generator g purpose → o.isFinished = false → P g) :
    Changes D L P ⟨e.generators, s.running⟩ (e.frameStopped o f s).stage := by
  cases s with
  | host h => exact .refl
  | generator g purpose =>
    have hg : D g := hD (g, _) (List.mem_singleton.2 rfl)
    have hend : Change D L P ⟨e.generators, g :: purpose.running⟩
        ⟨(e.endStep g f o).generators, purpose.running⟩ := by
      unfold endStep
      split
      · exact .finish hg rfl
      · next ho => exact .pause f hg (hP g purpose rfl (Bool.not_eq_true _ ▸ ho)) rfl
    exact Relation.ReflTransGen.head hend (conclude_changes hg _ purpose)

theorem scriptProgress_changes {s : Stepper H} {progress : ScriptFrame.Progress}
    (hD : ∀ x ∈ s.drives, D x.1)
    (hP : ∀ g purpose o f, s = .generator g purpose → progress = .stopped o f →
      o.isFinished = false → P g) :
    Changes D L P ⟨e.generators, s.running⟩ (e.scriptProgress s progress).stage := by
  cases progress with
  | running f => exact .refl
  | stopped o f => exact frameStopped_changes o _ hD fun g purpose hs => hP g purpose o f hs rfl

theorem resumeFrame_changes {c : Completion} {s : Stepper H} {f : Frame H} {held : List (Job H)}
    (hD : ∀ x ∈ s.drives, D x.1)
    (hP : ∀ g, World.Pauses ⟨⟨e, .resume f c s⟩, held⟩ .tick g → P g) :
    Changes D L P ⟨e.generators, s.running⟩ (e.resumeFrame c s f).stage := by
  cases f with
  | values f =>
    refine frameStopped_changes _ _ hD ?_
    rintro g purpose rfl ho
    exact hP g ⟨_, _, .values f, ho⟩
  | script f =>
    refine scriptProgress_changes hD ?_
    rintro g purpose o f' rfl hf ho
    exact hP g ⟨_, _, .enter hf, ho⟩
  | host code => exact .refl

end Steps

/-! ## Functions and jobs -/

section Functions

variable {e : Engine H} {k : Caller H}

/-- An operation on promises that hands control on. -/
theorem Spares.changes {e' : Engine H} (h : e.Spares e') (running : List GeneratorRef) :
    Changes D L P ⟨e.generators, running⟩ ⟨e'.generators, running⟩ :=
  .of_eq (congrArg (Stage.mk · running) h.generators)

theorem wake_changes (kind : Settling) (v : Value) {w : Waiter H}
    (hD : ∀ x ∈ w.drives e, D x.1) :
    Changes D L P ⟨e.generators, k.running⟩ (e.wake kind v k w).stage := by
  cases w with
  | yielding a r =>
    cases kind with
    | fulfill =>
      exact .of_eq (congrArg (Stage.mk · k.running) (generators_settleYield e a r v))
    | reject =>
      exact stepGenerator_changes (hD _ (List.mem_singleton.2 rfl)) _ (.serving a r .undefined k)
  | awaiting a r =>
    exact stepGenerator_changes (hD _ (List.mem_singleton.2 rfl)) _ (.serving a r .undefined k)
  | returning a r =>
    cases kind with
    | fulfill =>
      exact .of_eq (congrArg (Stage.mk · k.running) (generators_completeWith e a r v))
    | reject => exact .of_eq (congrArg (Stage.mk · k.running) (generators_failWith e a r v))
  | body g p =>
    exact stepGenerator_changes (hD _ (List.mem_singleton.2 rfl)) _ (.body p .undefined k)
  | host onFulfilled onRejected => exact .refl

theorem runCode_changes (args : List Value) {c : Code H} (hD : ∀ x ∈ c.drives e, D x.1) :
    Changes D L P ⟨e.generators, k.running⟩ (e.runCode args k c).stage := by
  cases c with
  | host code => exact .refl
  | resolve p => exact (spares_resolve e p _).changes _
  | reject p => exact (spares_reject e p _).changes _
  | adopt p kind =>
    cases kind with
    | fulfill => exact (spares_resolveNow e p _).changes _
    | reject => exact (spares_rejectNow e p _).changes _
  | wake w kind => exact wake_changes kind _ hD
  | report t i kind => exact (spares_report e t i kind _).changes _
  | afterwards callback kind => exact .refl
  | constant v kind => cases kind <;> exact .refl

theorem callFunction_changes {f : FunctionRef} (hD : ∀ x ∈ (e.callable f).code.drives e, D x.1)
    (args : List Value) :
    Changes D L P ⟨e.generators, k.running⟩ (e.callFunction f args k).stage := by
  rw [callFunction]
  cases (e.callable f).usage with
  | repeatable => exact runCode_changes args hD
  | once =>
    have hspend : (e.spend f).generators = e.generators := rfl
    have hsame : (e.callable f).code.drives (e.spend f) = (e.callable f).code.drives e := by
      cases (e.callable f).code with
      | wake w kind => cases w <;> rfl
      | _ => rfl
    exact hspend ▸ runCode_changes _ (hsame ▸ hD)
  | spent => exact .refl

theorem deliver_changes (result : Except Failure Value) :
    Changes D L P ⟨e.generators, k.running⟩ (e.deliver result k).stage := by
  cases k with
  | host h => exact .refl
  | reaction capability d => exact (spares_settleCapability e capability result).changes _
  | executor p h =>
    cases result with
    | ok v => exact .refl
    | error failure =>
      exact ((spares_failureValue e failure).trans (spares_reject _ p _)).changes _
  | finalizer settled kind k =>
    cases result with
    | ok returned => exact (spares_passAfter e returned settled kind).changes _
    | error failure => exact .refl
  | discarding k => exact .refl

/-- A request that finishes an async generator before its start closes the generator
inside. -/
theorem takeRequest_changes {a : AsyncGeneratorRef}
    (hD : ∀ x ∈ (e.asyncGenerator a).drives a, D x.1) (running : List GeneratorRef) :
    Changes D L P ⟨e.generators, running⟩ ⟨(e.takeRequest a).1.generators, running⟩ := by
  have hclose : ∀ {gs : Store (Generator H)} {g : GeneratorRef}, D g →
      gs = (e.closeGenerator g).generators → Changes D L P ⟨e.generators, running⟩ ⟨gs, running⟩ := by
    rintro gs g hg rfl
    exact .single (.close ⟨e.generators, running⟩ hg)
  have hsame : ∀ {gs : Store (Generator H)}, gs = e.generators →
      Changes D L P ⟨e.generators, running⟩ ⟨gs, running⟩ := by
    rintro gs rfl
    exact .refl
  unfold takeRequest
  dsimp only
  split
  · exact .refl
  · split
    · exact .refl
    · next r rest hq =>
      have hinner : D (e.asyncGenerator a).inner := by
        refine hD ((e.asyncGenerator a).inner, some (.serve a r)) ?_
        simp [AsyncGenerator.drives, hq]
      split
      · exact hsame (generators_answerRequest _ _ _ _)
      · exact hclose hinner (generators_failWith _ a _ _)
      · exact hclose hinner (generators_awaitReturn _ a _ _)
      · exact .refl

theorem serve_changes {a : AsyncGeneratorRef} (hD : ∀ x ∈ (e.asyncGenerator a).drives a, D x.1)
    (reply : Value) : Changes D L P ⟨e.generators, k.running⟩ (e.serve a reply k).stage := by
  have ht := takeRequest_changes (L := L) (P := P) hD k.running
  unfold serve
  split
  · next e' heq => rw [heq] at ht; exact ht
  · next e' heq => rw [heq] at ht; exact ht
  · next e' inner r heq =>
    rw [heq] at ht
    exact ht.trans (stepGenerator_changes (hD _ (takeRequest_resume heq)) _
      (.serving a r reply k))

theorem runJob_changes (id : Nat) (d : Drain H) (j : Job H) :
    Changes D L P ⟨e.generators, d.running⟩ (e.runJob id d j).stage := by
  cases j with
  | reaction r v =>
    obtain ⟨kind, handler, capability⟩ := r
    cases handler with
    | some f => exact .refl
    | none =>
      cases capability with
      | some p => exact (spares_settle e p kind v).changes _
      | none => exact .refl
  | adoption p thenable => exact (spares_attachAdoption e p thenable).changes _
  | callback label code => exact .refl

theorem drainRound_changes (d : Drain H) :
    Changes D L P ⟨e.generators, d.running⟩ (e.drainRound d).stage := by
  obtain ⟨limit, executed, h⟩ := d
  unfold drainRound
  dsimp only
  split
  · exact .refl
  · split
    · next id j jobs heq =>
      exact runJob_changes (e := { e with jobs }) id (.loop limit (executed + 1) h) j
    · exact .refl

theorem jobEnded_changes (id : Nat) (d : Drain H) (result : Except EngineError Unit) :
    Changes D L P ⟨e.generators, d.running⟩ (e.jobEnded id d result).stage := by
  cases result <;> exact .refl

end Functions

/-! ## Operations of the host -/

section Operations

variable {e : Engine H} {h : Activation H}

theorem create_changes (f : Frame H) (running : List GeneratorRef) :
    Changes D L P ⟨e.generators, running⟩ ⟨(e.newGenerator f).2.generators, running⟩ :=
  .single (.create ⟨e.generators, running⟩ e.nextId f)

theorem startAsync_changes (hg : D ⟨e.generators.size⟩) (f : Frame H) (k : Caller H) :
    Changes D L P ⟨e.generators, k.running⟩ (e.startAsync f k).stage := by
  have hnew := create_changes (D := D) (L := L) (P := P) (e := e.newPromise.2) f k.running
  exact hnew.trans (stepGenerator_changes hg _ (.body e.newPromise.1 (.promise e.newPromise.1) k))

theorem perform_changes {op : Op H} (hD : ∀ x ∈ op.drives e, D x.1)
    (hL : ∀ g, op = .dropFrame g → L g) :
    Changes D L P ⟨e.generators, h.running⟩ (e.perform h op).stage := by
  have hspares : ∀ {e' : Engine H}, e.Spares e' →
      Changes D L P ⟨e.generators, h.running⟩ ⟨e'.generators, h.running⟩ := fun hs => hs.changes _
  cases op with
  | newGenerator f => exact create_changes f h.running
  | newAsyncGenerator f =>
    exact .single (.create ⟨e.generators, h.running⟩ (e.nextId + 1) f)
  | stepGenerator g c => exact stepGenerator_changes (hD _ (List.mem_singleton.2 rfl)) c (.outcome h)
  | advanceGenerator g c =>
    exact stepGenerator_changes (hD _ (List.mem_singleton.2 rfl)) c (.iterator h)
  | closeGenerator g =>
    exact .single (.close ⟨e.generators, h.running⟩ (hD _ (List.mem_singleton.2 rfl)))
  | dropFrame g =>
    exact .single (.drop ⟨e.generators, h.running⟩ (hD _ (List.mem_singleton.2 rfl)) (hL g rfl))
  | generatorMethod receiver method args =>
    unfold perform
    dsimp only
    split
    · next g c heq => exact stepGenerator_changes (hD _ (List.mem_singleton.2 rfl)) c (.iterator h)
    · exact .refl
    · exact .refl
  | asyncGeneratorMethod receiver method args =>
    unfold perform
    dsimp only
    split <;> exact .refl
  | startAsync f => exact startAsync_changes (hD _ (List.mem_singleton.2 rfl)) f (.host h)
  | resolve p v => exact hspares (spares_resolve e p v)
  | fulfill p v => exact hspares (spares_fulfill e p v)
  | reject p reason => exact hspares (spares_reject e p reason)
  | promiseOf v => exact hspares (spares_promiseOf e v)
  | rejectedPromise reason => exact hspares (spares_rejectedPromise e reason)
  | promiseThen p f g => exact hspares (spares_promiseThen e p f g)
  | promiseCatch p g => exact hspares (spares_promiseThen e p none g)
  | promiseFinally p f => exact hspares (spares_promiseFinally e p f)
  | performThen p f g capability => exact hspares (spares_performThen e p f g capability)
  | collect c items => exact hspares (spares_collect e c items)
  | race items => exact hspares (spares_race e items)
  | promiseMethod receiver method args => exact hspares (spares_promiseMethod e receiver method args)
  | promiseFunction method args => exact hspares (spares_promiseFunction e method args)
  | await v onFulfilled onRejected => exact hspares (spares_await e v _)
  | runJobs =>
    unfold perform runJobs
    dsimp only
    split <;> exact .refl
  | popJob =>
    unfold perform
    dsimp only
    split <;> exact .refl
  | _ => exact .refl

end Operations

end Engine

/-! ## Steps -/

/-- **Every step is a chain of changes** of the stage. It touches only the generators
that the move drives or that the host abandons, drops only the frame that the host asks it
to drop, and pauses only the generator whose frame stops for now. -/
theorem Step.changes {w w' : World H} {m : Move H} (h : Step w m w')
    {D : GeneratorRef → Prop} (hD : ∀ x ∈ w.drives m, D x.1) (hlose : m = .abandon → ∀ g, D g) :
    Stage.Changes D (m.drops · = true) (w.Pauses m) w.config.stage w'.config.stage := by
  cases h with
  | tick c held =>
    obtain ⟨e, control⟩ := c
    cases control with
    | host h prompt => exact .refl
    | call f args k => exact Engine.callFunction_changes hD args
    | deliver result k => exact Engine.deliver_changes result
    | resume f c s => exact Engine.resumeFrame_changes hD fun _ => id
    | run f s =>
      refine Engine.scriptProgress_changes hD ?_
      rintro g purpose o f' rfl hf ho
      exact ⟨_, _, .script hf, ho⟩
    | serve a reply k => exact Engine.serve_changes hD reply
    | drain d => exact Engine.drainRound_changes d
  | perform hop =>
    refine Engine.perform_changes hD ?_
    rintro g rfl
    exact decide_eq_true rfl
  | putBack => exact .refl
  | finishCall result => exact .refl
  | @finishFrame e s prompt held o code =>
    refine Engine.frameStopped_changes o (.host code) hD ?_
    rintro g purpose rfl ho
    exact ⟨_, _, .host o code, ho⟩
  | @finishJob e id d prompt held result => exact Engine.jobEnded_changes id d result
  | @abandon e h prompt held => exact .single (.abandon ⟨e.generators, h.running⟩ fun g _ => hlose rfl g)

end Microtask
