import Microtask.Proofs.Dialogue
import Microtask.Proofs.Generator.Answering

/-!
# What rests of a generator

Between two steps there is a frame that has not begun, one that is paused, or none any more
(`Rest`), and this with a completion determines the step: its outcome, what happens to the
frame, and what rests after it (`Rest.Steps`). Whoever asks for a step of a generator gets
that outcome (`Rest.Steps.plays`), and so main code that makes one step of a generator after
the other gets the outcomes in a row (`Rest.Runs.dialogue`).
-/

namespace Microtask

variable {H : Type}

/-! ## Steps -/

/-- What rests of a generator. -/
inductive Rest (H : Type) where
  | fresh (f : Frame H)
  | paused (f : Frame H)
  | done

namespace Rest

def state : Rest H → GeneratorState
  | fresh _ => .suspendedStart
  | paused _ => .suspendedYield
  | done => .completed

def frame? : Rest H → Option (Frame H)
  | fresh f | paused f => some f
  | done => none

/-- What rests after an outcome of the frame. -/
def after (o : Outcome) (f : Frame H) : Rest H := if o.isFinished then done else paused f

/-- A step with a completion: the outcome, what happens to the frame, and what rests. -/
inductive Steps (β : Behaviour H) :
    Rest H → Completion → Outcome → List FrameEvent → Rest H → Prop where
  | closes (f : Frame H) {c : Completion} : c.isAbrupt = true →
      Steps β (.fresh f) c (.ofCompletion c) [] .done
  | begins {f f' : Frame H} {c : Completion} {o : Outcome} : c.isAbrupt = false →
      f.Answers β c o f' → Steps β (.fresh f) c o [.resumed c, .answered o] (.after o f')
  | goesOn {f f' : Frame H} {c : Completion} {o : Outcome} :
      f.Answers β c o f' → Steps β (.paused f) c o [.resumed c, .answered o] (.after o f')
  | done (c : Completion) : Steps β .done c (Engine.doneOutcome c) [] .done

end Rest

/-! ## The log of a frame -/

/-- What happens without main code, and what of it happens to the frame of a generator. -/
def Logs (β : Behaviour H) (g : GeneratorRef) (w : World H) (log : List FrameEvent)
    (w' : World H) : Prop :=
  ∃ es, Plays β w es w' ∧ frameLog g es = log

namespace Logs

variable {β : Behaviour H} {g : GeneratorRef} {w w₁ w₂ : World H} {log log' : List FrameEvent}

theorem refl (w : World H) : Logs β g w [] w := ⟨[], .refl, rfl⟩

theorem trans (h : Logs β g w log w₁) (h' : Logs β g w₁ log' w₂) :
    Logs β g w (log ++ log') w₂ := by
  obtain ⟨es, hes, rfl⟩ := h
  obtain ⟨es', hes', rfl⟩ := h'
  exact ⟨es' ++ es, hes.trans hes', frameLog_append g es' es⟩

theorem tick {c c' : Config H} {held : List (Job H)} (h : c.atHost = false) (hc : c.tick = c') :
    Logs β g ⟨c, held⟩ (World.frameEvents ⟨c, held⟩ .tick g) ⟨c', held⟩ := by
  subst hc
  exact ⟨_, Plays.tick h, rfl⟩

end Logs

/-! ## Frames -/

section Frames

variable {β : Behaviour H} (e : Engine H) (g : GeneratorRef) (purpose : Purpose H)
  (held : List (Job H))

/-- What happens to a frame with some instructions of its script. -/
def ScriptFrame.Progress.events : ScriptFrame.Progress → List FrameEvent
  | .running _ => []
  | .stopped o _ => [.answered o]

theorem World.frameEvents_run (f : ScriptFrame) :
    World.frameEvents ⟨⟨e, .run f (.generator g purpose)⟩, held⟩ .tick g = f.step.events := by
  cases hf : f.step <;> simp [frameEvents, resumes, answers, loses, stops?, Control.entering?,
    ScriptFrame.Progress.outcome?, ScriptFrame.Progress.events, hf]

theorem World.frameEvents_enter (f : ScriptFrame) (c : Completion) :
    World.frameEvents ⟨⟨e, .resume (.script f) c (.generator g purpose)⟩, held⟩ .tick g =
      .resumed c :: (f.enter c).events := by
  cases hf : f.enter c <;> simp [frameEvents, resumes, answers, loses, stops?, Control.entering?,
    ScriptFrame.Progress.outcome?, ScriptFrame.Progress.events, hf]

/-- Some instructions of a script, up to its outcome. -/
theorem ScriptFrame.advance_plays {n : Nat} {progress : ScriptFrame.Progress} {o : Outcome}
    {f' : ScriptFrame} (h : ScriptFrame.advance n progress = .stopped o f') :
    ∃ log, progress.events ++ log = [.answered o] ∧
      Logs β g ⟨e.scriptProgress (.generator g purpose) progress, held⟩ log
        ⟨e.frameStopped o (.script f') (.generator g purpose), held⟩ := by
  induction n generalizing progress with
  | zero =>
    obtain rfl : progress = _ := h
    exact ⟨[], rfl, .refl _⟩
  | succ n ih =>
    cases progress with
    | stopped o' f =>
      cases h
      exact ⟨[], rfl, .refl _⟩
    | running f =>
      obtain ⟨log, hlog, hrun⟩ := ih h
      have hstep : Logs β g ⟨e.scriptProgress (.generator g purpose) (.running f), held⟩
          f.step.events ⟨e.scriptProgress (.generator g purpose) f.step, held⟩ := by
        rw [← World.frameEvents_run e g purpose held f]
        exact .tick rfl rfl
      exact ⟨f.step.events ++ log, hlog, hstep.trans hrun⟩

/-- **A frame that is resumed answers.** -/
theorem Frame.Answers.plays {f f' : Frame H} {c : Completion} {o : Outcome}
    (h : f.Answers β c o f') :
    Logs β g ⟨⟨e, .resume f c (.generator g purpose)⟩, held⟩ [.resumed c, .answered o]
      ⟨e.frameStopped o f' (.generator g purpose), held⟩ := by
  have htick : Logs β g ⟨⟨e, .resume f c (.generator g purpose)⟩, held⟩ _
      ⟨e.resumeFrame c (.generator g purpose) f, held⟩ := .tick rfl rfl
  cases h with
  | values f =>
    simpa [World.frameEvents, World.resumes, World.answers, World.loses, World.stops?,
      Control.entering?, Engine.resumeFrame] using htick
  | @script f _ _ n _ hf =>
    obtain ⟨log, hlog, hrun⟩ : ∃ log, _ ∧ Logs β g _ log _ :=
      ScriptFrame.advance_plays e g purpose held hf
    rw [World.frameEvents_enter] at htick
    rw [← hlog]
    exact htick.trans hrun
  | host code =>
    have hfinish : Logs β g ⟨e.resumeFrame c (.generator g purpose) (.host code), held⟩
        [.answered (β code c).1]
        ⟨e.frameStopped (β code c).1 (.host (β code c).2) (.generator g purpose), held⟩ := by
      refine ⟨_, .head .frame (.finishFrame _ _) .refl, ?_⟩
      simp [frameLog, World.frameEvents, World.resumes, World.answers, World.loses, World.stops?,
        Engine.resumeFrame]
    simpa [World.frameEvents, World.resumes, World.answers, World.loses, World.stops?,
      Control.entering?] using htick.trans hfinish

end Frames

/-! ## Generators -/

/-- The generator holds what rests. -/
structure Engine.Holds (e : Engine H) (g : GeneratorRef) (rest : Rest H) : Prop where
  state : (e.generator g).state = rest.state
  frame : (e.generator g).frame = rest.frame?

theorem Engine.Holds.of_eq {e e' : Engine H} {g : GeneratorRef} {rest : Rest H}
    (h : e.Holds g rest) (hg : e'.generators = e.generators) : e'.Holds g rest := by
  have hgen : e'.generator g = e.generator g := by rw [generator, generator, hg]
  exact ⟨hgen ▸ h.state, hgen ▸ h.frame⟩

/-- A generator whose frame has been taken out and has stopped holds what rests then. -/
theorem Engine.holds_endStep (e : Engine H) (g : GeneratorRef) (f : Frame H) (o : Outcome) :
    ((e.takeOut g).endStep g f o).Holds g (.after o f) := by
  have hgen := (e.takeOut g).generator_endStep g f o
  rw [Engine.generator_takeOut] at hgen
  rw [Rest.after]
  split at hgen <;> rename_i ho
  · rw [if_pos ho]
    exact ⟨congrArg Generator.state hgen, congrArg Generator.frame hgen⟩
  · rw [if_neg ho]
    exact ⟨congrArg Generator.state hgen, congrArg Generator.frame hgen⟩

variable {β : Behaviour H} {rest rest' : Rest H} {c : Completion} {o : Outcome}
  {log : List FrameEvent}

/-- **Whoever asks for a step of a generator gets the outcome.** Nothing but the generator
changes in the meantime. -/
theorem Rest.Steps.plays (h : rest.Steps β c o log rest') {e : Engine H} {g : GeneratorRef}
    (hg : e.Holds g rest) (purpose : Purpose H) (held : List (Job H)) :
    ∃ generators, { e with generators }.Holds g rest' ∧
      Logs β g ⟨e.stepGenerator g c purpose, held⟩ log
        ⟨{ e with generators }.conclude g (.ok o) purpose, held⟩ := by
  have hframe : ∀ {f f' : Frame H}, (e.generator g).frame = some f → (e.generator g).Takes c →
      f.Answers β c o f' → ∃ generators, { e with generators }.Holds g (.after o f') ∧
        Logs β g ⟨e.stepGenerator g c purpose, held⟩ [.resumed c, .answered o]
          ⟨{ e with generators }.conclude g (.ok o) purpose, held⟩ := by
    intro f f' hf htakes hanswers
    have hstep : e.stepGenerator g c purpose =
        ⟨e.takeOut g, .resume f c (.generator g purpose)⟩ := by
      rw [Engine.stepGenerator, Engine.beginStep_of_takes htakes hf]
    have hend := e.holds_endStep g f' o
    have heq : (e.takeOut g).endStep g f' o =
        { e with generators := ((e.takeOut g).endStep g f' o).generators } := by
      unfold Engine.endStep
      split <;> rfl
    have hplays := hanswers.plays (e.takeOut g) g purpose held
    rw [hstep]
    exact ⟨_, heq ▸ hend, heq ▸ hplays⟩
  cases h with
  | closes f hc =>
    have hstep : e.stepGenerator g c purpose =
        (e.closeGenerator g).conclude g (.ok (.ofCompletion c)) purpose := by
      simp only [Engine.stepGenerator, Engine.beginStep, hg.state, Rest.state, hc, if_true]
    have hgen : (e.closeGenerator g).generator g = _ :=
      (e.generator_modify g g _).trans (if_pos rfl)
    refine ⟨(e.closeGenerator g).generators, ⟨?_, ?_⟩, ?_⟩
    · exact congrArg Generator.state hgen
    · exact congrArg Generator.frame hgen
    · rw [hstep]
      exact .refl _
  | begins hc hanswers => exact hframe hg.frame (.inr ⟨hg.state, hc⟩) hanswers
  | goesOn hanswers => exact hframe hg.frame (.inl hg.state) hanswers
  | done =>
    have hstep : e.stepGenerator g c purpose =
        e.conclude g (.ok (Engine.doneOutcome c)) purpose := by
      simp only [Engine.stepGenerator, Engine.beginStep, hg.state, Rest.state]
    refine ⟨e.generators, hg, ?_⟩
    rw [hstep]
    exact .refl _

/-! ## One step after the other -/

/-- A step of a generator: what rested before it, the completion, and the outcome. -/
structure Episode (H : Type) where
  rest : Rest H
  completion : Completion
  outcome : Outcome

/-- Steps one after the other, and all that happens to the frame. -/
inductive Rest.Runs (β : Behaviour H) :
    Rest H → List (Episode H) → List FrameEvent → Rest H → Prop where
  | nil (rest : Rest H) : Runs β rest [] [] rest
  | cons {rest rest₁ rest₂ : Rest H} {c : Completion} {o : Outcome} {log log' : List FrameEvent}
      {ts : List (Episode H)} : rest.Steps β c o log rest₁ → Runs β rest₁ ts log' rest₂ →
      Runs β rest (⟨rest, c, o⟩ :: ts) (log ++ log') rest₂

/-- An outcome of a frame that does not await, and does not hand a promise out other than as
an exception. -/
def Outcome.IsPlain : Outcome → Prop
  | .yielded v | .returned v => ∀ q, v ≠ .promise q
  | .awaiting _ => False
  | .threw _ => True

/-- Frames of a set answer every completion without a promise, and all their outcomes are
plain. -/
def PromiseFree (β : Behaviour H) (S : Frame H → Prop) : Prop :=
  ∀ f c, S f → (∀ q, c.value ≠ .promise q) →
    ∃ o f', f.Answers β c o f' ∧ o.IsPlain ∧ (o.isFinished = false → S f')

section PromiseFree

variable {S : Frame H → Prop}

theorem isPlain_ofCompletion (hc : ∀ q, c.value ≠ .promise q) :
    (Outcome.ofCompletion c).IsPlain := by
  obtain ⟨kind, v⟩ := c
  cases kind with
  | throw => trivial
  | normal | «return» => exact hc

theorem isPlain_doneOutcome (hc : ∀ q, c.value ≠ .promise q) :
    (Engine.doneOutcome c).IsPlain := by
  obtain ⟨kind, v⟩ := c
  cases kind with
  | normal | throw => exact fun q => nofun
  | «return» => exact hc

/-- **A generator over a promise-free frame takes every step.** -/
theorem PromiseFree.exists_step (hβ : PromiseFree β S) (hS : ∀ f ∈ rest.frame?, S f)
    (hc : ∀ q, c.value ≠ .promise q) :
    ∃ o log rest', rest.Steps β c o log rest' ∧ o.IsPlain ∧ ∀ f ∈ rest'.frame?, S f := by
  have hafter : ∀ {o : Outcome} {f' : Frame H}, (o.isFinished = false → S f') →
      ∀ f ∈ (Rest.after o f').frame?, S f := by
    intro o f' h f hf
    cases ho : o.isFinished with
    | false =>
      obtain rfl : f' = f := by simpa [Rest.after, ho, Rest.frame?] using hf
      exact h ho
    | true => simp [Rest.after, ho, Rest.frame?] at hf
  cases rest with
  | fresh f =>
    cases habrupt : c.isAbrupt with
    | true =>
      exact ⟨_, _, _, .closes f habrupt, isPlain_ofCompletion hc, fun f hf => by cases hf⟩
    | false =>
      obtain ⟨o, f', hanswers, hplain, hnext⟩ := hβ f c (hS f rfl) hc
      exact ⟨o, _, _, .begins habrupt hanswers, hplain, hafter hnext⟩
  | paused f =>
    obtain ⟨o, f', hanswers, hplain, hnext⟩ := hβ f c (hS f rfl) hc
    exact ⟨o, _, _, .goesOn hanswers, hplain, hafter hnext⟩
  | done => exact ⟨_, _, _, .done c, isPlain_doneOutcome hc, fun f hf => by cases hf⟩

theorem PromiseFree.exists_run (hβ : PromiseFree β S) {cs : List Completion}
    (hS : ∀ f ∈ rest.frame?, S f) (hcs : ∀ c ∈ cs, ∀ q, c.value ≠ .promise q) :
    ∃ ts log rest', rest.Runs β ts log rest' ∧ ts.map Episode.completion = cs ∧
      ∀ t ∈ ts, t.outcome.IsPlain := by
  induction cs generalizing rest with
  | nil => exact ⟨[], [], rest, .nil rest, rfl, fun t ht => by cases ht⟩
  | cons c cs ih =>
    obtain ⟨hc, hcs⟩ := List.forall_mem_cons.1 hcs
    obtain ⟨o, log, rest₁, hstep, hplain, hS'⟩ := hβ.exists_step hS hc
    obtain ⟨ts, log', rest', hrun, hmap, hplains⟩ := ih hS' hcs
    exact ⟨⟨rest, c, o⟩ :: ts, log ++ log', rest', .cons hstep hrun, congrArg (c :: ·) hmap,
      List.forall_mem_cons.2 ⟨hplain, hplains⟩⟩

end PromiseFree

/-! ## Dialogues about a generator -/

/-- An operation with an answer, and what happens to the frame of a generator until then. -/
def Exchange.Logs (β : Behaviour H) (g : GeneratorRef) (x : Exchange H) (log : List FrameEvent)
    (w : World H) : Prop :=
  ∃ es, x.Happens β es w ∧ frameLog g es = log

theorem Exchange.logs_of_plays {e e' : Engine H} {prompt : Prompt H} {held : List (Job H)}
    {op : Op H} {a : Answer H} {g : GeneratorRef} (hf : op.functions = []) (hj : op.job? = none)
    (ht : op.takes e = [])
    (h : Microtask.Logs β g ⟨e.perform .main op, held⟩ log
      ⟨⟨e', .host .main (.answered a)⟩, held⟩) :
    Exchange.Logs β g ⟨⟨⟨e, .host .main prompt⟩, held⟩, op, a⟩ log
      ⟨⟨e', .host .main (.answered a)⟩, held⟩ := by
  obtain ⟨es, hplays, rfl⟩ := h
  have hstep : Step ⟨⟨e, .host .main prompt⟩, held⟩ (.perform op) ⟨e.perform .main op, held⟩ := by
    have hperform : Step ⟨⟨e, .host .main prompt⟩, held⟩ (.perform op)
      ⟨e.perform .main op, op.takes e ++ held⟩ := .perform ⟨by simp [hf], by simp [hj]⟩
    rwa [ht] at hperform
  refine ⟨_, ⟨⟨prompt, rfl⟩, ⟨_, es, hstep, hplays, rfl⟩, rfl⟩, ?_⟩
  rw [frameLog_append]
  rfl

theorem Dialogue.logs_cons {x : Exchange H} {xs : List (Exchange H)} {w₁ w₂ : World H}
    {g : GeneratorRef} {log' : List FrameEvent} (h : x.Logs β g log w₁)
    (h' : ∃ es, Dialogue β w₁ xs es w₂ ∧ frameLog g es = log') :
    ∃ es, Dialogue β x.before (x :: xs) es w₂ ∧ frameLog g es = log ++ log' := by
  obtain ⟨es, hx, rfl⟩ := h
  obtain ⟨es', hxs, rfl⟩ := h'
  exact ⟨es' ++ es, .cons hx hxs, frameLog_append g es' es⟩

/-- The answer to a caller of a generator. -/
theorem Engine.iteratorAnswer_renders (e : Engine H) (g : GeneratorRef) (ho : o.IsPlain) :
    ∃ r e', e.iteratorAnswer g (.ok o) = (r.mapError .thrown, e') ∧ e'.Renders o r ∧
      e.Lasts e' ∧ e'.generators = e.generators := by
  have hnew : ∀ v done, e.Lasts (e.newIteratorResult v done).2 := fun v done =>
    ⟨(spares_newObject e _).size, (spares_newObject e _).objects, fun _ _ => rfl⟩
  cases o with
  | yielded v => exact ⟨.ok _, _, rfl, renders_newIteratorResult e v false, hnew v false, rfl⟩
  | returned v => exact ⟨.ok _, _, rfl, renders_newIteratorResult e v true, hnew v true, rfl⟩
  | threw v => exact ⟨.error v, e, rfl, .threw v, .refl e, rfl⟩
  | awaiting v => exact ho.elim

/-- What main code is told about a step of a generator. -/
structure Exchange.Advances (g : GeneratorRef) (w : World H) (t : Episode H) (x : Exchange H) :
    Prop where
  op : x.op = .advanceGenerator g t.completion
  state : (x.before.config.engine.generator g).state = t.rest.state
  answer : ∃ r, x.answer = .value (r.mapError .thrown) ∧ w.config.engine.Renders t.outcome r

/-- **Main code steps a generator**, once after the other. -/
theorem Rest.Runs.dialogue {ts : List (Episode H)} (h : rest.Runs β ts log rest')
    (hplain : ∀ t ∈ ts, t.outcome.IsPlain) {e : Engine H} {g : GeneratorRef}
    (hg : e.Holds g rest) (prompt : Prompt H) (held : List (Job H)) :
    ∃ xs w, (∃ es, Dialogue β ⟨⟨e, .host .main prompt⟩, held⟩ xs es w ∧ frameLog g es = log) ∧
      e.Lasts w.config.engine ∧ List.Forall₂ (Exchange.Advances g w) ts xs := by
  induction h generalizing e prompt with
  | nil => exact ⟨[], _, ⟨[], .nil, rfl⟩, .refl e, .nil⟩
  | @cons rest rest₁ rest₂ c o log log' ts hstep _ ih =>
    obtain ⟨ho, hplain⟩ := List.forall_mem_cons.1 hplain
    obtain ⟨generators, hg₁, hplays⟩ := hstep.plays hg (.iterator .main) held
    obtain ⟨r, e', hanswer, hrenders, hlasts, hsame⟩ :=
      Engine.iteratorAnswer_renders { e with generators } g ho
    rw [Engine.conclude, hanswer] at hplays
    obtain ⟨xs, w, hdialogue, hlasts', hxs⟩ := ih hplain (hg₁.of_eq hsame) (.answered _)
    have hlasts₁ : e.Lasts { e with generators } := .of_eq rfl rfl
    refine ⟨_, w, Dialogue.logs_cons (Exchange.logs_of_plays rfl rfl rfl hplays) hdialogue,
      hlasts₁.trans (hlasts.trans hlasts'), .cons ⟨rfl, hg.state, r, rfl, hrenders.lasts hlasts'⟩ hxs⟩

end Microtask
