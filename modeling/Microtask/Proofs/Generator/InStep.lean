import Microtask.Proofs.Generator.Resuming

/-!
# An async generator and the generator inside

Both have a state of their own, and both change as requests are served. As long as the host
leaves the generator inside alone, they go together (`World.Pace`): the generator inside is
suspended with its frame when the async generator is, is done when that is, and while a
request is served it is executing, or its frame waits.

A step either passes both by, or it begins a step of the generator inside
(`World.Paired.pace_of_resumes`), ends one (`World.Paired.pace_of_stops`), or answers a
request without one. So the frame is at hand whenever the engine asks for a step, which then
cannot fail.

Main statement: `Run.in_step`.
-/

namespace Microtask

variable {H : Type}

/-! ## How both go together -/

namespace World

/-- The states of both, whether the frame has been put back, and that it is away if the
generator inside is executing. -/
structure Stands (w : World H) (a : AsyncGeneratorRef) (g : GeneratorRef)
    (s : AsyncGeneratorState) (t : GeneratorState) (back : Bool) : Prop where
  outer : (w.config.engine.asyncGenerator a).state = s
  inner : (w.config.engine.generator g).state = t
  frame : (w.config.engine.generator g).frame.isSome = back
  away : w.config.control.running.count g = if t = .executing then 1 else 0

inductive Pace (w : World H) (issued : List (AsyncGeneratorRef × Request))
    (a : AsyncGeneratorRef) (g : GeneratorRef) : Prop where
  | fresh : w.Stands a g .suspendedStart .suspendedStart true → Pace w issued a g
  | paused : w.Stands a g .suspendedYield .suspendedYield true → Pace w issued a g
  | running {r : Request} : w.Stands a g .executing .executing false →
      (g, some (.serve a r)) ∈ w.config.control.steps → Pace w issued a g
  | waiting : w.Stands a g .executing .suspendedYield true →
      (w.ledger issued).GoesOn a false → Pace w issued a g
  | returning : w.Stands a g .awaitingReturn .completed false →
      (w.ledger issued).GoesOn a true → Pace w issued a g
  | done : w.Stands a g .completed .completed false → Pace w issued a g
  /-- The step has been abandoned, and the request with it. -/
  | lost : (w.config.engine.asyncGenerator a).state.isBusy = true →
      w.config.control.running.count g = 0 →
      (∀ r, (w.ledger issued).owed (.serve a r) = 0) → Pace w issued a g

/-- The generator is the one inside the async generator, and nothing else has to do with
it. -/
structure Paired (w : World H) (issued : List (AsyncGeneratorRef × Request))
    (a : AsyncGeneratorRef) (g : GeneratorRef) : Prop where
  allocated : g.index < w.config.engine.generators.size
  allocated' : a.index < w.config.engine.asyncGenerators.size
  inner : (w.config.engine.asyncGenerator a).inner = g
  apart : ∀ b, b ≠ a → (w.ledger issued).Apart g b
  body : ∀ p, (w.ledger issued).owed (.body g p) = 0
  pace : w.Pace issued a g

variable {w w' : World H} {issued issued' : List (AsyncGeneratorRef × Request)}
  {a : AsyncGeneratorRef} {g : GeneratorRef} {m : Move H}

namespace Stands

variable {s : AsyncGeneratorState} {t : GeneratorState} {back : Bool}

theorem pass (h : w.Stands a g s t back)
    (hasync : (w'.config.engine.asyncGenerator a).state = (w.config.engine.asyncGenerator a).state)
    (hgen : w'.config.engine.generator g = w.config.engine.generator g)
    (hrun : w'.config.control.running.count g = w.config.control.running.count g) :
    w'.Stands a g s t back :=
  ⟨hasync.trans h.outer, hgen ▸ h.inner, hgen ▸ h.frame, hrun.trans h.away⟩

/-- A generator that is not executing has no step under way. -/
theorem count_eq (h : w.Stands a g s t back) (ht : t ≠ .executing) :
    w.config.control.running.count g = 0 := by
  rw [h.away, if_neg ht]

end Stands

/-- A pair that a step passes by. -/
theorem Pace.pass (h : w.Pace issued a g)
    (hasync : (w'.config.engine.asyncGenerator a).state = (w.config.engine.asyncGenerator a).state)
    (hgen : w'.config.engine.generator g = w.config.engine.generator g)
    (hrun : w'.config.control.running.count g = w.config.control.running.count g)
    (hsteps : ∀ r, (g, some (.serve a r)) ∈ w.config.control.steps →
      (g, some (.serve a r)) ∈ w'.config.control.steps)
    (hgoes : ∀ final, (w.ledger issued).GoesOn a final → (w'.ledger issued').GoesOn a final)
    (howed : ∀ r, (w'.ledger issued').owed (.serve a r) ≤ (w.ledger issued).owed (.serve a r)) :
    w'.Pace issued' a g := by
  cases h with
  | fresh hs => exact .fresh (hs.pass hasync hgen hrun)
  | paused hs => exact .paused (hs.pass hasync hgen hrun)
  | running hs hmem => exact .running (hs.pass hasync hgen hrun) (hsteps _ hmem)
  | waiting hs hgo => exact .waiting (hs.pass hasync hgen hrun) (hgoes _ hgo)
  | returning hs hgo => exact .returning (hs.pass hasync hgen hrun) (hgoes _ hgo)
  | done hs => exact .done (hs.pass hasync hgen hrun)
  | lost hbusy hcount hzero =>
    exact .lost (hasync ▸ hbusy) (hrun.trans hcount)
      fun r => Nat.le_zero.1 ((howed r).trans_eq (hzero r))

/-- **What becomes of a pair when everything under way is abandoned**: a request is lost if
its step is under way. -/
theorem Pace.abandon (h : w.Pace issued a g) (hl : (w.ledger issued).Exclusive)
    (hloses : (w.ledger issued).Loses (w'.ledger issued'))
    (hgen : w'.config.engine.generator g = w.config.engine.generator g)
    (hcontrol : w'.config.control = .host .main .outside) : w'.Pace issued' a g := by
  have hnone : w'.config.control.running.count g = 0 := by
    rw [hcontrol]
    rfl
  have hasync : w'.config.engine.asyncGenerator a = w.config.engine.asyncGenerator a :=
    congrArg (Store.get · a.index) hloses.asyncGenerators
  have hpass : ∀ {s t back}, t ≠ .executing → w.Stands a g s t back → w'.Stands a g s t back :=
    fun ht hs => hs.pass (congrArg _ hasync) hgen (hnone.trans (hs.count_eq ht).symm)
  cases h with
  | fresh hs => exact .fresh (hpass (by decide) hs)
  | paused hs => exact .paused (hpass (by decide) hs)
  | @running r hs hmem =>
    have hstack : 0 < (w.ledger issued).stack.count (.serve a r) := by
      show 0 < w.config.control.duties.count _
      rw [w.config.control.tallies.duties (.serve a r) trivial]
      exact List.countP_pos_iff.2 ⟨_, hmem, decide_eq_true rfl⟩
    have hempty : (w'.ledger issued').stack = [] := congrArg Control.duties hcontrol
    refine .lost ?_ hnone fun r' => ?_
    · rw [hasync, hs.outer]
      rfl
    · have hle := hl.owed_le_count hstack r'
      have hloss := hloses.owed_le (.serve a r')
      rw [hempty, List.count_nil] at hloss
      omega
  | waiting hs hgo => exact .waiting (hpass (by decide) hs) (hgo.lose hloses)
  | returning hs hgo => exact .returning (hpass (by decide) hs) (hgo.lose hloses)
  | done hs => exact .done (hpass (by decide) hs)
  | lost hbusy _ hzero =>
    exact .lost (hasync ▸ hbusy) hnone
      fun r => Nat.le_zero.1 ((hloses.owed_mono _).trans_eq (hzero r))

/-- Jobs that the host holds do not keep a pair together. -/
theorem Paired.forget {js : List (Job H)} (h : (w.keeping js).Paired issued a g) :
    w.Paired issued a g := by
  have hloses := w.forgets js issued
  exact ⟨h.allocated, h.allocated', h.inner, h.apart,
    fun p => Nat.le_zero.1 ((hloses.owed_mono _).trans_eq (h.body p)),
    h.pace.pass rfl rfl rfl (fun _ hr => hr) (fun _ hgo => hgo.lose hloses)
      fun r => hloses.owed_mono _⟩

end World

theorem List.eq_of_countP_eq_one {α : Type} {P : α → Bool} {xs : List α} (h : xs.countP P = 1)
    {x y : α} (hx : x ∈ xs) (hy : y ∈ xs) (hPx : P x = true) (hPy : P y = true) : x = y := by
  rw [List.countP_eq_length_filter] at h
  obtain ⟨z, hz⟩ := List.length_eq_one_iff.1 h
  have hmem : ∀ {x}, x ∈ xs → P x = true → x = z := fun hx hP =>
    List.mem_singleton.1 (hz ▸ List.mem_filter.2 ⟨hx, hP⟩)
  rw [hmem hx hPx, hmem hy hPy]

namespace World.Paired

variable {w : World H} {issued : List (AsyncGeneratorRef × Request)} {a b : AsyncGeneratorRef}
  {g : GeneratorRef} {m : Move H} {e₁ : Engine H} {c : Completion} {purpose : Purpose H}

/-- Another async generator that has something to do has another generator inside. -/
theorem eq_of_busy (hw : w.Paired issued a g) (hb : (w.config.engine.asyncGenerator b).inner = g)
    (hbusy : (w.config.engine.asyncGenerator b).state.isBusy = true ∨
      (w.config.engine.asyncGenerator b).queue ≠ []) : b = a := by
  by_contra hne
  obtain ⟨hidle, hnone⟩ := hw.apart b hne hb
  rcases hbusy with hbusy | hbusy
  · have hidle : (w.config.engine.asyncGenerator b).state.isBusy = false := hidle
    rw [hidle] at hbusy
    cases hbusy
  · exact hbusy hnone

/-- A step of the generator inside that is under way is for a request. -/
theorem of_mem_steps (hw : w.Paired issued a g) {d : Option Duty}
    (hmem : (g, d) ∈ w.config.control.steps) :
    w.Stands a g .executing .executing false ∧ ∃ r, d = some (.serve a r) := by
  have hpos : w.config.control.running.count g ≠ 0 :=
    (List.count_pos_iff.2 (Control.mem_running hmem)).ne'
  cases hw.pace with
  | running hs hmem' =>
    have hone : w.config.control.steps.countP (·.1 = g) = 1 :=
      (w.config.control.tallies.count_running g).symm.trans hs.away
    have heq := List.eq_of_countP_eq_one hone hmem hmem' (decide_eq_true rfl) (decide_eq_true rfl)
    exact ⟨hs, _, (Prod.mk.inj heq).2⟩
  | fresh hs | paused hs | waiting hs | returning hs | done hs =>
    exact absurd (hs.count_eq (by decide)) hpos
  | lost _ hcount => exact absurd hcount hpos

/-- **When a wait is over, the pair has waited** for what the waiter has waited for. -/
theorem of_called (hw : w.Paired issued a g) (hl : (w.ledger issued).Exclusive) {f : FunctionRef}
    {waiter : Waiter H} {kind : Settling} {r : Request}
    (hcode : (w.config.engine.callable f).code = .wake waiter kind)
    (hd : waiter.duty? = some (.serve a r)) (hcalled : (w.ledger issued).called = some f) :
    (waiter.isFinal = false ∧ w.Stands a g .executing .suspendedYield true) ∨
      (waiter.isFinal = true ∧ w.Stands a g .awaitingReturn .completed false) := by
  have hen : (w.ledger issued).engine.engagement? f = some (.serve a r, kind) :=
    Engine.engagement?_of_wake hcode hd
  have hpos := Ledger.owed_pos_of_called hcalled hen
  have hidle : ∀ {s}, (w.config.engine.asyncGenerator a).state = s → s.isBusy = true := by
    rintro s rfl
    exact hl.busy hpos
  cases hw.pace with
  | running hs hmem =>
    -- the request would be owed twice, by the step that is under way and by the callback
    rename_i r'
    have hstack : 0 < (w.ledger issued).stack.count (.serve a r') := by
      show 0 < w.config.control.duties.count _
      rw [w.config.control.tallies.duties (.serve a r') trivial]
      exact List.countP_pos_iff.2 ⟨_, hmem, decide_eq_true rfl⟩
    exact absurd (hl.owed_le_count hstack r) (Nat.not_le_of_lt (Ledger.count_lt_owed_of_called hcalled hen))
  | waiting hs hgo => exact .inl ⟨hgo f waiter kind r hcode hd (.inr hcalled), hs⟩
  | returning hs hgo => exact .inr ⟨hgo f waiter kind r hcode hd (.inr hcalled), hs⟩
  | fresh hs | paused hs | done hs => cases hidle hs.outer
  | lost _ _ hzero => exact absurd (hzero r) hpos.ne'

/-- An async generator that is not busy stands with its generator before, between or after
the steps of the frame. -/
theorem of_idle (hw : w.Paired issued a g)
    (hb : (w.config.engine.asyncGenerator a).state.isBusy = false) :
    w.Stands a g .suspendedStart .suspendedStart true ∨
      w.Stands a g .suspendedYield .suspendedYield true ∨
      w.Stands a g .completed .completed false := by
  cases hw.pace with
  | fresh hs => exact .inl hs
  | paused hs => exact .inr (.inl hs)
  | done hs => exact .inr (.inr hs)
  | running hs | waiting hs | returning hs =>
    rw [hs.outer] at hb
    cases hb
  | lost hbusy => cases hb.symm.trans hbusy

/-- **When the engine asks for a step, the frame is at hand**, and the step is for a request. -/
theorem of_resumes (hw : w.Paired issued a g) (hl : (w.ledger issued).Exclusive)
    (hr : w.Resumes m e₁ g c purpose) :
    (e₁.generator g).Takes c ∧ (e₁.generator g).frame.isSome = true ∧
      (e₁.asyncGenerator a).state = .executing ∧
      ∃ r reply k, purpose = .serving a r reply k ∧ k.running.count g = 0 := by
  have hserve : ∀ {e : Engine H} {f : FunctionRef} {args : List Value} {k : Caller H}
      {held : List (Job H)} {b : AsyncGeneratorRef} {r : Request} {waiter : Waiter H}
      {kind : Settling}, (World.mk ⟨e, .call f args k⟩ held).Paired issued a
        (e.asyncGenerator b).inner →
      ((World.mk ⟨e, .call f args k⟩ held).ledger issued).Exclusive →
      (e.callable f).code = .wake waiter kind → waiter.duty? = some (.serve b r) →
      waiter.isFinal = false → ∀ c,
      ((e.used f).generator (e.asyncGenerator b).inner).Takes c ∧
        ((e.used f).generator (e.asyncGenerator b).inner).frame.isSome = true ∧
        ((e.used f).asyncGenerator a).state = .executing ∧
        ∃ r' reply k', Purpose.serving b r .undefined k = .serving a r' reply k' ∧
          k'.running.count (e.asyncGenerator b).inner = 0 := by
    intro e f args k held b r waiter kind hw hl hcode hd hfinal c
    obtain rfl := hw.eq_of_busy rfl (.inl (hl.busy (owed_of_wake hcode hd)))
    rcases hw.of_called hl hcode hd (called_of_wake hcode hd) with ⟨-, hs⟩ | ⟨htrue, -⟩
    · rw [Engine.generator_used, Engine.asyncGenerator_used]
      exact ⟨.inl hs.inner, hs.frame, hs.outer, r, .undefined, k, rfl, hs.count_eq (by decide)⟩
    · cases hfinal.symm.trans htrue
  cases hr with
  | @serve e _ b reply k held _ r ht =>
    obtain ⟨rest, hq, rfl⟩ := takeRequest_mem_drives ht
    obtain rfl := hw.eq_of_busy rfl (.inr (by rw [hq]; exact List.cons_ne_nil r rest))
    cases hb : (e.asyncGenerator b).state.isBusy with
    | true => simp [Engine.takeRequest, hb] at ht
    | false =>
      have hgen : e₁.generator (e.asyncGenerator b).inner =
          e.generator (e.asyncGenerator b).inner := by
        rw [Engine.generator, Engine.takeRequest_generator ht]
        rfl
      obtain ⟨-, h⟩ | ⟨-, -, h⟩ | ⟨-, -, h⟩ | ⟨hstate, h⟩ := Engine.takeRequest_cases hb hq
      · cases ht.symm.trans h
      · cases ht.symm.trans h
      · cases ht.symm.trans h
      · obtain ⟨rfl, -⟩ := Prod.mk.inj (ht.symm.trans h)
        have houter := Engine.state_setAsyncState
          (e.modifyAsyncGenerator b fun a => { a with queue := rest }) b .executing
        rw [hgen]
        rcases hw.of_idle hb with hs | hs | hs
        · have hnormal : r.completion.kind = .normal := by
            rcases hstate with ⟨-, hnormal⟩ | hyield
            · exact hnormal
            · cases hs.outer.symm.trans hyield
          have habrupt : r.completion.isAbrupt = false := by simp [Completion.isAbrupt, hnormal]
          exact ⟨.inr ⟨hs.inner, habrupt⟩, hs.frame, houter, r, reply, k, rfl, hs.count_eq (by decide)⟩
        · exact ⟨.inl hs.inner, hs.frame, houter, r, reply, k, rfl, hs.count_eq (by decide)⟩
        · rcases hstate with ⟨hstart, -⟩ | hyield
          · cases hs.outer.symm.trans hstart
          · cases hs.outer.symm.trans hyield
  | awaiting hu hcode => exact hserve hw hl hcode rfl rfl _
  | yielding hu hcode => exact hserve hw hl hcode rfl rfl _
  | @body e f args k held g p kind hu hcode =>
    exact absurd (hw.body p) (owed_of_wake hcode rfl).ne'
  | start f => exact absurd hw.allocated (Nat.lt_irrefl _)

/-- **A step begins.** -/
theorem stands_of_resumes {w' : World H} (hw : w.Paired issued a g)
    (hl : (w.ledger issued).Exclusive) (h : Step w m w') (hr : w.Resumes m e₁ g c purpose) :
    w'.Stands a g .executing .executing false ∧
      ∃ r, (g, some (.serve a r)) ∈ w'.config.control.steps := by
  obtain ⟨ht, hf, houter, r, reply, k, rfl, hcount⟩ := hw.of_resumes hl hr
  obtain ⟨f, hf⟩ := Option.isSome_iff_exists.1 hf
  obtain ⟨config, held⟩ := w'
  obtain rfl : config = e₁.stepGenerator g c (.serving a r reply k) := h.resumes hr
  rw [Engine.stepGenerator, Engine.beginStep_of_takes ht hf]
  refine ⟨⟨houter, ?_, ?_, ?_⟩, r, List.mem_cons_self⟩
  · exact congrArg Generator.state (e₁.generator_takeOut g)
  · exact congrArg (fun r => r.frame.isSome) (e₁.generator_takeOut g)
  · show (g :: k.running).count g = 1
    rw [List.count_cons_self, hcount]

theorem pace_of_resumes {w' : World H} {issued' : List (AsyncGeneratorRef × Request)}
    (hw : w.Paired issued a g) (hl : (w.ledger issued).Exclusive) (h : Step w m w')
    (hr : w.Resumes m e₁ g c purpose) : w'.Pace issued' a g := by
  obtain ⟨hs, r, hmem⟩ := hw.stands_of_resumes hl h hr
  exact .running hs hmem

section Stops

variable {control : Control H} {held : List (Job H)} {r : Request} {reply : Value} {k : Caller H}
  {e : Engine H}

/-- The frame goes on. -/
theorem pace_of_goOn {control' : Control H} (hw : (World.mk ⟨e, control⟩ held).Paired issued a g)
    (hsteps : control'.steps = control.steps) (hduties : control'.duties = control.duties)
    (hrunning : control'.running = control.running)
    (hcalled : control'.called? e = control.called? e) :
    (World.mk ⟨e, control'⟩ held).Pace issued a g := by
  refine hw.pace.pass rfl rfl (congrArg (·.count g) hrunning) (fun r hr => ?_) (fun final hgo => ?_)
    fun r => ?_
  · exact (show control'.steps = _ from hsteps) ▸ hr
  · intro f waiter kind r hcode hd hf
    exact hgo f waiter kind r hcode hd (hf.imp_right fun hc => hcalled.symm.trans hc)
  · simp only [Ledger.owed, World.ledger, Config.ledger, hduties, hcalled]
    exact le_rfl

/-- **A step ends** when the frame stops. -/
theorem pace_of_stops (hw : (World.mk ⟨e, control⟩ held).Paired issued a g)
    (hl : ((World.mk ⟨e, control⟩ held).ledger issued).Exclusive)
    (hsteps : control.steps = (g, some (.serve a r)) :: k.steps)
    (hduties : control.duties = .serve a r :: k.duties) (hrunning : control.running = g :: k.running)
    (hbacked : e.Backed) (hm : m.clears = false) {o : Outcome} {fr : Frame H}
    (h : Step ⟨⟨e, control⟩, held⟩ m
      ⟨e.frameStopped o fr (.generator g (.serving a r reply k)), held⟩) :
    (World.mk (e.frameStopped o fr (.generator g (.serving a r reply k))) held).Pace
      ((World.mk ⟨e, control⟩ held).issued issued m) a g := by
  have hmem : (g, some (.serve a r)) ∈ control.steps := hsteps ▸ List.mem_cons_self
  obtain ⟨hs, -⟩ := hw.of_mem_steps hmem
  have hcount : k.running.count g = 0 := by
    have haway : control.running.count g = 1 := hs.away
    rw [hrunning, List.count_cons_self] at haway
    exact Nat.succ.inj haway
  let e' := (e.endStep g fr o).absorbOutcome a r (.ok o)
  let w' := World.mk (e.frameStopped o fr (.generator g (.serving a r reply k))) held
  have hgen : e'.generator g =
      if o.isFinished then { e.generator g with state := .completed }
      else { e.generator g with state := .suspendedYield, frame := some fr } := by
    rw [← Engine.generator_endStep, Engine.generator, Engine.generators_absorbOutcome]
    rfl
  have hpaused : o.isFinished = false → ∀ {s}, (e'.asyncGenerator a).state = s →
      w'.Stands a g s .suspendedYield true := by
    intro ho s hs'
    rw [ho, if_neg Bool.false_ne_true] at hgen
    exact ⟨hs', congrArg Generator.state hgen, congrArg (fun r => r.frame.isSome) hgen, hcount⟩
  have hended : o.isFinished = true → ∀ {s}, (e'.asyncGenerator a).state = s →
      w'.Stands a g s .completed false := by
    intro ho s hs'
    rw [ho, if_pos rfl] at hgen
    refine ⟨hs', congrArg Generator.state hgen, ?_, hcount⟩
    exact (congrArg (fun r => r.frame.isSome) hgen).trans hs.frame
  have hstack : 0 < ((World.mk ⟨e, control⟩ held).ledger issued).stack.count (.serve a r) := by
    show 0 < control.duties.count (.serve a r)
    rw [hduties, List.count_cons_self]
    exact Nat.succ_pos _
  have hcallables : (e.endStep g fr o).callables = e.callables := by
    unfold Engine.endStep
    split <;> rfl
  have hgoes := fun (e₂ : Engine H) v (waiter : Waiter H) (h₂ : e₂.callables = e.callables)
      (hawait : e'.callables = (e₂.await v waiter).callables) =>
    h.goesOn_of_await hm hbacked hl.lawful.sound (hl.owed_le_count hstack) h₂ hawait
  obtain ⟨ho, v, waiter, hfinal, h⟩ | ⟨ho, v, h⟩ | ⟨ho, v, h⟩ | ⟨ho, h⟩ :=
    Engine.absorbOutcome_cases (e.endStep g fr o) a r o
  · have hstate : (e'.asyncGenerator a).state = .executing := by
      show (((e.endStep g fr o).absorbOutcome a r (.ok o)).asyncGenerator a).state = _
      rw [h, (Engine.spares_await _ v waiter).asyncGenerator, Engine.asyncGenerator,
        Engine.asyncGenerators_endStep]
      exact hs.outer
    exact .waiting (hpaused ho hstate) (hfinal ▸ hgoes _ v waiter hcallables (congrArg _ h))
  · refine .paused (hpaused ho ?_)
    show (((e.endStep g fr o).absorbOutcome a r (.ok o)).asyncGenerator a).state = _
    rw [h]
    exact Engine.state_answerRequest _ a .suspendedYield r v false
  · refine .returning (hended ho ?_) (hgoes ((e.endStep g fr o).setAsyncState a .awaitingReturn) v
      (.returning a r) hcallables (congrArg _ h))
    show (((e.endStep g fr o).absorbOutcome a r (.ok o)).asyncGenerator a).state = _
    rw [h]
    exact Engine.state_awaitReturn _ a r v
  · exact .done (hended ho h)

/-- Some instructions of the script of a frame. -/
theorem pace_of_progress (hw : (World.mk ⟨e, control⟩ held).Paired issued a g)
    (hl : ((World.mk ⟨e, control⟩ held).ledger issued).Exclusive)
    (hsteps : control.steps = (g, some (.serve a r)) :: k.steps)
    (hduties : control.duties = .serve a r :: k.duties) (hrunning : control.running = g :: k.running)
    (hcalled : control.called? e = none) (hbacked : e.Backed) {progress : ScriptFrame.Progress}
    (h : Step ⟨⟨e, control⟩, held⟩ .tick
      ⟨e.scriptProgress (.generator g (.serving a r reply k)) progress, held⟩) :
    (World.mk (e.scriptProgress (.generator g (.serving a r reply k)) progress) held).Pace
      issued a g := by
  cases progress with
  | running f => exact hw.pace_of_goOn hsteps.symm hduties.symm hrunning.symm hcalled.symm
  | stopped o f => exact hw.pace_of_stops hl hsteps hduties hrunning hbacked rfl h

end Stops

section Waits

variable {e : Engine H} {held : List (Job H)} {k : Caller H} {r : Request} {w' : World H}

/-- **A wait is over**: the request is answered, or a step begins. -/
theorem pace_of_wake {f : FunctionRef} {args : List Value} {waiter : Waiter H} {kind : Settling}
    (hw : (World.mk ⟨e, .call f args k⟩ held).Paired issued a g)
    (hl : ((World.mk ⟨e, .call f args k⟩ held).ledger issued).Exclusive)
    (hcode : (e.callable f).code = .wake waiter kind) (hd : waiter.duty? = some (.serve a r))
    (h : Step ⟨⟨e, .call f args k⟩, held⟩ .tick w') : w'.Pace issued a g := by
  have hu : (e.callable f).usage ≠ .spent :=
    (usage_of_wake (hl.unspent a r) hcode hd).trans_ne (by decide)
  have hgen := Engine.generator_used e f g
  have hstands := hw.of_called hl hcode hd (called_of_wake hcode hd)
  obtain ⟨config, held'⟩ := w'
  obtain rfl : config =
      (e.used f).wake kind (Value.argument args 0) k waiter := by
    cases h
    exact Engine.callFunction_wake hu hcode args k
  have hanswered : ∀ {e' : Engine H} {s : AsyncGeneratorState} {t : GeneratorState} {back : Bool}
      {s' : AsyncGeneratorState}, (World.mk ⟨e, .call f args k⟩ held).Stands a g s t back →
      e'.generators = (e.used f).generators → (e'.asyncGenerator a).state = s' →
      (World.mk ⟨e', .serve a .undefined k⟩ held').Stands a g s' t back := by
    intro e' s t back s' hs hgens hs'
    have hgen' : e'.generator g = e.generator g := by
      rw [Engine.generator, hgens]
      exact hgen
    exact ⟨hs', hgen' ▸ hs.inner, hgen' ▸ hs.frame, hs.away⟩
  obtain rfl : (e.asyncGenerator a).inner = g := hw.inner
  cases waiter with
  | yielding b r' =>
    cases hd
    obtain ⟨-, hs⟩ := hstands.resolve_right fun hfinal => by cases hfinal.1
    cases kind with
    | fulfill =>
      exact .paused (hanswered hs (Engine.generators_settleYield _ a r _)
        (Engine.state_answerRequest _ a .suspendedYield r _ false))
    | reject => exact hw.pace_of_resumes hl h (.yielding hu hcode)
  | awaiting b r' =>
    cases hd
    exact hw.pace_of_resumes hl h (.awaiting hu hcode)
  | returning b r' =>
    cases hd
    obtain ⟨-, hs⟩ := hstands.resolve_left fun hfinal => by cases hfinal.1
    cases kind with
    | fulfill =>
      exact .done (hanswered hs (Engine.generators_completeWith _ a r _)
        (Engine.state_answerRequest _ a .completed r _ true))
    | reject =>
      exact .done (hanswered hs (Engine.generators_failWith _ a r _)
        (Engine.state_failWith _ a r _))
  | body g p => cases hd
  | host onFulfilled onRejected => cases hd

/-- **A request is taken off the queue.** -/
theorem pace_of_serve {reply : Value} {rest : List Request}
    (hw : (World.mk ⟨e, .serve a reply k⟩ held).Paired issued a g)
    (hl : ((World.mk ⟨e, .serve a reply k⟩ held).ledger issued).Exclusive) (hbacked : e.Backed)
    (hq : (e.asyncGenerator a).queue = r :: rest)
    (h : Step ⟨⟨e, .serve a reply k⟩, held⟩ .tick w') : w'.Pace issued a g := by
  obtain ⟨config, held'⟩ := w'
  obtain rfl : held' = held := by cases h; rfl
  have hconfig : config = e.serve a reply k := by cases h; rfl
  cases hb : (e.asyncGenerator a).state.isBusy with
  | true =>
    have hidle : e.takeRequest a = (e, .idle) := by simp [Engine.takeRequest, hb]
    obtain rfl : config = ⟨e, .deliver (.ok reply) k⟩ := by
      rw [hconfig, Engine.serve, hidle]
    exact hw.pace_of_goOn rfl rfl rfl rfl
  | false =>
    have hidle := hw.of_idle hb
    have hcount : k.running.count g = 0 := by
      rcases hidle with hs | hs | hs <;> exact hs.count_eq (by decide)
    have hinner : (e.asyncGenerator a).inner = g := hw.inner
    have hclosed : ∀ {e' : Engine H} {s : AsyncGeneratorState},
        e'.generators = (e.closeGenerator (e.asyncGenerator a).inner).generators →
        (e'.asyncGenerator a).state = s →
        (World.mk ⟨e', .serve a reply k⟩ held').Stands a g s .completed false := by
      intro e' s hgens hs
      have hgen : e'.generator g = { e.generator g with state := .completed, frame := none } := by
        rw [Engine.generator, hgens, hinner]
        exact (e.generator_modify g g _).trans (if_pos rfl)
      exact ⟨hs, congrArg Generator.state hgen, congrArg (fun r => r.frame.isSome) hgen, hcount⟩
    let taken := e.modifyAsyncGenerator a fun g => { g with queue := rest }
    obtain ⟨hs, ht⟩ | ⟨-, -, ht⟩ | ⟨-, -, ht⟩ | ⟨-, ht⟩ := Engine.takeRequest_cases hb hq
    · have hstands : (World.mk ⟨e, .serve a reply k⟩ held').Stands a g .completed .completed false := by
        rcases hidle with hidle | hidle | hidle
        · cases hidle.outer.symm.trans hs
        · cases hidle.outer.symm.trans hs
        · exact hidle
      obtain rfl : config = ⟨taken.answerRequest r .undefined true, .serve a reply k⟩ := by
        rw [hconfig, Engine.serve, ht]
      refine .done (hstands.pass ?_ ?_ rfl)
      · have hspares := (taken.spares_answerRequest r .undefined true).asyncGenerator a
        have hself : taken.asyncGenerator a = { e.asyncGenerator a with queue := rest } :=
          (e.asyncGenerator_modify a a _).trans (if_pos rfl)
        exact (congrArg AsyncGenerator.state hspares).trans (by rw [hself])
      · exact congrArg (Store.get · g.index) (taken.generators_answerRequest r .undefined true)
    · rw [hconfig, Engine.serve, ht]
      exact .done (hclosed (Engine.generators_failWith _ a r _) (Engine.state_failWith _ a r _))
    · have hnone : ∀ r', ((World.mk ⟨e, .serve a reply k⟩ held').ledger issued).owed (.serve a r') ≤
          ((World.mk ⟨e, .serve a reply k⟩ held').ledger issued).stack.count (.serve a r') :=
        fun r' => (hl.not_owed hb r').trans_le (Nat.zero_le _)
      let closed := taken.closeGenerator (e.asyncGenerator a).inner
      obtain rfl : config = ⟨closed.awaitReturn a r r.completion.value, .serve a reply k⟩ := by
        rw [hconfig, Engine.serve, ht]
      refine .returning (hclosed (closed.generators_awaitReturn a r _)
        (closed.state_awaitReturn a r _)) ?_
      let waiting := closed.setAsyncState a .awaitingReturn
      have hcallables : waiting.callables = e.callables := rfl
      have hawait : (closed.awaitReturn a r r.completion.value).callables =
        (waiting.await r.completion.value (.returning a r)).callables := rfl
      exact h.goesOn_of_await rfl hbacked hl.lawful.sound hnone hcallables hawait
    · obtain rfl : (e.asyncGenerator a).inner = g := hw.inner
      exact hw.pace_of_resumes hl h (.serve ht)

end Waits

end World.Paired

/-! ## Steps -/

/-- An operation of the host on a generator makes no request. -/
theorem Op.request?_of_drives {op : Op H} {e : Engine H} {g : GeneratorRef}
    (h : (g, none) ∈ op.drives e) : op.request? = none := by
  cases op with
  | request a c => cases h
  | asyncGeneratorMethod receiver method args => cases h
  | _ => rfl

section Steps

variable {w w' : World H} {m : Move H} {issued : List (AsyncGeneratorRef × Request)}
  {a : AsyncGeneratorRef} {g : GeneratorRef} {js : List (Job H)}

/-- The generator inside is driven for requests only. -/
theorem World.Paired.duty_of_drives (hw : w.Paired issued a g) (hl : (w.ledger issued).Exclusive)
    (hreach : g ∈ w.reaches m → ∃ c, m.request? = some (a, c)) {d : Option Duty}
    (h : w.Drives m g d) : ∃ r, d = some (.serve a r) := by
  have hstack : ∀ {d}, (g, d) ∈ w.config.control.steps → ∃ r, d = some (.serve a r) :=
    fun hmem => (hw.of_mem_steps hmem).2
  cases h with
  | @wake e f args k held waiter kind _ d hcode hmem =>
    have hd := Waiter.duty?_of_drives hmem
    cases waiter with
    | yielding b r | awaiting b r | returning b r =>
      obtain ⟨hg, heq⟩ := Prod.mk.inj (List.mem_singleton.1 hmem)
      cases heq
      obtain rfl := hw.eq_of_busy hg.symm (.inl (hl.busy (World.owed_of_wake hcode hd)))
      exact ⟨r, rfl⟩
    | body g' p =>
      obtain ⟨rfl, -⟩ := Prod.mk.inj (List.mem_singleton.1 hmem)
      exact absurd (hw.body p) (World.owed_of_wake hcode rfl).ne'
    | host onFulfilled onRejected => cases hmem
  | resume => exact hstack List.mem_cons_self
  | run => exact hstack List.mem_cons_self
  | frame o code => exact hstack List.mem_cons_self
  | @serve e b reply k held r rest hq =>
    obtain rfl := hw.eq_of_busy rfl (.inr (by rw [hq]; exact List.cons_ne_nil r rest))
    exact ⟨r, rfl⟩
  | start f => exact absurd hw.allocated (Nat.lt_irrefl _)
  | named hmem =>
    obtain ⟨c, hc⟩ := hreach (World.reaches_of_drives hmem)
    cases (Op.request?_of_drives hmem).symm.trans hc

/-- Only steps for a request are for the duty to serve it. -/
theorem Purpose.eq_serving {purpose : Purpose H} {r : Request}
    (h : purpose.duty? g = some (.serve a r)) : ∃ reply k, purpose = .serving a r reply k := by
  cases purpose with
  | serving b r' reply k =>
    cases h
    exact ⟨reply, k, rfl⟩
  | _ => cases h

/-- A move that drives the generator inside for a request. -/
theorem Step.pace_driven (h : Step w m w') (hbacked : w.config.engine.Backed)
    (hl : (w.ledger issued).Exclusive) (hw : w.Paired issued a g) {r : Request}
    (hdrive : w.Drives m g (some (.serve a r))) : w'.Pace (w.issued issued m) a g := by
  generalize hd : some (Duty.serve a r) = d at hdrive
  cases hdrive with
  | wake hcode hmem =>
    cases hd
    exact hw.pace_of_wake hl hcode (Waiter.duty?_of_drives hmem) h
  | @resume e f c _ purpose held =>
    obtain ⟨reply, k, rfl⟩ := Purpose.eq_serving hd.symm
    cases h with
    | tick =>
      cases f with
      | values f => exact hw.pace_of_stops hl rfl rfl rfl hbacked rfl (.tick _ held)
      | script f => exact hw.pace_of_progress hl rfl rfl rfl rfl hbacked (.tick _ held)
      | host code => exact hw.pace_of_goOn rfl rfl rfl rfl
  | run =>
    obtain ⟨reply, k, rfl⟩ := Purpose.eq_serving hd.symm
    cases h with
    | tick => exact hw.pace_of_progress hl rfl rfl rfl rfl hbacked (.tick _ _)
  | frame o code =>
    obtain ⟨reply, k, rfl⟩ := Purpose.eq_serving hd.symm
    have hstep := h
    cases h with
    | finishFrame => exact hw.pace_of_stops hl rfl rfl rfl hbacked rfl hstep
  | serve hq =>
    cases hd
    have hstep := h
    cases h with
    | tick => exact hw.pace_of_serve hl hbacked hq hstep
  | start f => exact absurd hw.allocated (Nat.lt_irrefl _)
  | named hmem => cases hd

/-- **Every step keeps a pair together.** -/
theorem Step.paired (h : Step w m w') (hbacked : w.config.engine.Backed)
    (hl : ((w.keeping js).ledger issued).Exclusive) (hin : w.Inside)
    (hreach : g ∈ w.reaches m → ∃ c, m.request? = some (a, c))
    (hw : (w.keeping js).Paired issued a g) :
    (w'.keeping (w.drops m ++ js)).Paired (w.issued issued m) a g := by
  have hdrives : ∀ {x}, x ∈ w.drives m → (w.keeping js).Drives m x.1 x.2 :=
    World.drives_of_mem (w := w.keeping js)
  have hserve : ∀ x ∈ w.drives m, x.1 = g → ∃ r, x.2 = some (.serve a r) := by
    rintro x hx rfl
    exact hw.duty_of_drives hl hreach (hdrives hx)
  have hkeep := h.retains hbacked
  have hallocated' := hw.allocated'.trans_le hkeep.size
  have hinner := (hkeep.inner a hw.allocated').trans hw.inner
  have hapart : ∀ b, b ≠ a → (w'.ledger (w.issued issued m)).Apart g b := by
    intro b hb
    refine h.stays_apart hbacked hl (fun c hreq hinner => hb ?_) (hw.apart b hb)
    obtain ⟨c', hc'⟩ := hreach (hinner ▸ w.reaches_request hreq)
    exact (Prod.mk.inj (Option.some.inj (hreq.symm.trans hc'))).1
  by_cases hm : m = .abandon
  · subst hm
    obtain ⟨hloses, hcontrol, hgens, -⟩ := (h.keeping js).abandons issued
    have hgen := congrArg (Store.get · g.index) hgens
    exact ⟨hgens ▸ hw.allocated, hallocated', hinner, hapart,
      fun p => Nat.le_zero.1 ((hloses.owed_mono _).trans_eq (hw.body p)),
      hw.pace.abandon hl hloses hgen hcontrol⟩
  have hc := h.changes (D := fun g' => ∃ x ∈ w.drives m, x.1 = g') (fun x hx => ⟨x, hx, rfl⟩)
    fun hab => absurd hab hm
  refine ⟨hw.allocated.trans_le hc.size_le, hallocated', hinner, hapart, fun p => ?_, ?_⟩
  · have hpass := h.passes_kept hm hbacked hl.lawful (d := .body g p) trivial fun x hx hd => by
      obtain ⟨r, hr⟩ := hserve x hx (World.body_of_drives (hd ▸ hdrives hx))
      cases hd.symm.trans hr
    exact hpass.1.owed.trans (hw.body p)
  · by_cases hdrive : ∃ x ∈ w.drives m, x.1 = g
    · obtain ⟨x, hx, rfl⟩ := hdrive
      obtain ⟨r, hr⟩ := hserve x hx rfl
      rw [World.drops_of_drives hx]
      exact (h.keeping js).pace_driven hbacked hl hw (hr ▸ hdrives hx)
    · -- what happens for a request of the async generator happens to the generator inside
      have hnot : ∀ x ∈ w.drives m, ∀ r, x.2 ≠ some (.serve a r) := by
        intro x hx r hr
        have hg := World.inside_of_drives (w := w.keeping js) hl hin (hr ▸ hdrives hx)
        exact hdrive ⟨x, hx, hg.2.trans hw.inner⟩
      have hpass := fun r => (h.passes_kept hm hbacked hl.lawful (d := .serve a r) trivial
        fun x hx => hnot x hx r).1
      refine hw.pace.pass (h.state_eq hbacked hw.allocated' hnot)
        (hc.generator_eq hdrive hw.allocated) (hc.count_eq hdrive) (fun r hr => ?_)
        (fun final hgo => hgo.pass hpass) fun r => (hpass r).owed.le
      have hstack : 0 < w'.config.control.duties.count (.serve a r) := by
        have hpos : 0 < w.config.control.duties.count (.serve a r) := by
          rw [w.config.control.tallies.duties (.serve a r) trivial]
          exact List.countP_pos_iff.2 ⟨_, hr, decide_eq_true rfl⟩
        exact hpos.trans_eq (hpass r).count.symm
      obtain ⟨g', hg'⟩ := Control.exists_step (d := .serve a r) trivial hstack.ne'
      have hin' := h.inside hbacked hl hin
      obtain rfl : g' = g := ((hin' _ hg' a r rfl).2).trans
        ((hkeep.inner a hw.allocated').trans hw.inner)
      exact hg'

end Steps

/-! ## Making one -/

namespace World

/-- The async generators that a move makes, each with the generator inside. -/
def makes (w : World H) : Move H → List (AsyncGeneratorRef × GeneratorRef)
  | .perform (.newAsyncGenerator _) =>
    [(⟨w.config.engine.asyncGenerators.size⟩, ⟨w.config.engine.generators.size⟩)]
  | _ => []

end World

/-- The async generators that have been made in the course of some events. -/
def madeIn (es : List (Event H)) : List (AsyncGeneratorRef × GeneratorRef) :=
  es.flatMap fun ev => ev.before.makes ev.move

section Making

variable {w w' : World H} {m : Move H} {issued : List (AsyncGeneratorRef × Request)}
  {a : AsyncGeneratorRef} {g : GeneratorRef} {js : List (Job H)}

theorem World.of_makes (h : (a, g) ∈ w.makes m) :
    ∃ f, m = .perform (.newAsyncGenerator f) ∧ a = ⟨w.config.engine.asyncGenerators.size⟩ ∧
      g = ⟨w.config.engine.generators.size⟩ := by
  cases m with
  | perform op =>
    cases op with
    | newAsyncGenerator f => exact ⟨f, rfl, Prod.mk.inj (List.mem_singleton.1 h)⟩
    | _ => cases h
  | _ => cases h

/-- **An async generator that is made** is paired with the generator inside. -/
theorem Step.paired_made (h : Step w m w') (hbacked : w.config.engine.Backed)
    (hl : (w.ledger issued).Lawful) (hmake : (a, g) ∈ w.makes m) (hw : w.Unborn issued g) :
    w'.Paired (w.issued issued m) a g := by
  obtain ⟨f, rfl, rfl, rfl⟩ := World.of_makes hmake
  have hm : Move.Lossless (.perform (.newAsyncGenerator f) : Move H) := ⟨rfl, nofun⟩
  have hbody := fun p => (h.passes hm hbacked hl
    (d := .body ⟨w.config.engine.generators.size⟩ p) trivial fun x hx => by cases hx).1
  have hapart := fun b =>
    h.apart hbacked (fun c hc => by cases hc) (fun x hx => by cases hx) (hw.apart b)
  cases h with
  | @perform e a prompt held op hop =>
    let e' := (e.newAsyncGenerator f).2
    let inside : GeneratorRef := ⟨e.generators.size⟩
    let outside : AsyncGeneratorRef := ⟨e.asyncGenerators.size⟩
    have hgen : e'.generator inside =
        { id := e.nextId + 1, state := .suspendedStart, frame := some f } :=
      Engine.generator_newGenerator { e with nextId := e.nextId + 1 } f
    have hasync : e'.asyncGenerator outside =
        { id := e.nextId, inner := inside, state := .suspendedStart } :=
      (Store.get_push e.asyncGenerators _ _).trans (if_pos rfl)
    refine ⟨?_, ?_, congrArg AsyncGenerator.inner hasync, fun b _ => hapart b,
      fun p => (hbody p).owed.trans (hw.owed p),
      .fresh ⟨congrArg AsyncGenerator.state hasync, congrArg Generator.state hgen,
        congrArg (fun r => r.frame.isSome) hgen, hw.running⟩⟩
    · show e.generators.size < (e.generators.push _).size
      rw [Store.size_push]
      exact Nat.lt_succ_self _
    · show e.asyncGenerators.size < (e.asyncGenerators.push _).size
      rw [Store.size_push]
      exact Nat.lt_succ_self _

end Making

/-! ## Resumptions -/

section Entering

variable {w w' : World H} {m : Move H} {issued : List (AsyncGeneratorRef × Request)}
  {a : AsyncGeneratorRef} {g : GeneratorRef} {p : PromiseRef} {e₁ : Engine H} {c : Completion}
  {purpose : Purpose H} {js : List (Job H)}

theorem World.Resumes.keeping (h : w.Resumes m e₁ g c purpose) (js : List (Job H)) :
    (w.keeping js).Resumes m e₁ g c purpose := by
  cases h with
  | serve ht => exact .serve ht
  | awaiting hu hcode => exact .awaiting hu hcode
  | yielding hu hcode => exact .yielding hu hcode
  | body hu hcode => exact .body hu hcode
  | start f => exact .start f

/-- **When the engine asks for a step of an async function, the frame is at hand.** -/
theorem World.Bound.of_resumes (hw : w.Bound issued g p) (hl : (w.ledger issued).Exclusive)
    (hr : w.Resumes m e₁ g c purpose) :
    (e₁.generator g).Takes c ∧ (e₁.generator g).frame.isSome = true := by
  have hwait : ∀ {e : Engine H} {f : FunctionRef} {args : List Value} {k : Caller H}
      {held : List (Job H)} {a : AsyncGeneratorRef} {r : Request} {waiter : Waiter H}
      {kind : Settling}, (World.mk ⟨e, .call f args k⟩ held).Bound issued
        (e.asyncGenerator a).inner p →
      ((World.mk ⟨e, .call f args k⟩ held).ledger issued).Exclusive →
      (e.callable f).code = .wake waiter kind → waiter.duty? ≠ some (.serve a r) := by
    intro e f args k held a r waiter kind hw hl hcode hd
    have hbusy := hl.busy (owed_of_wake hcode hd)
    have hidle : (e.asyncGenerator a).state.isBusy = false := (hw.apart a rfl).1
    cases hidle.symm.trans hbusy
  cases hr with
  | @serve e _ a reply k held _ r ht =>
    obtain ⟨rest, hq, rfl⟩ := takeRequest_mem_drives ht
    have hnone : (e.asyncGenerator a).queue = [] := (hw.apart a rfl).2
    cases hq.symm.trans hnone
  | awaiting hu hcode => exact absurd rfl (hwait hw hl hcode)
  | yielding hu hcode => exact absurd rfl (hwait hw hl hcode)
  | @body e f args k held g q kind hu hcode =>
    obtain rfl : q = p := by
      by_contra hq
      exact absurd (hw.others q hq) (owed_of_wake hcode rfl).ne'
    obtain ⟨-, hstate, hframe, -⟩ := hw.at_hand hcode
    rw [Engine.generator_used]
    exact ⟨.inl hstate, hframe⟩
  | start f => exact absurd hw.allocated (Nat.lt_irrefl _)

namespace Event

variable {ev : Event H}

theorem enters_of_takes (h : ∀ e c purpose, ev.before.Resumes ev.move e g c purpose →
    (e.generator g).Takes c ∧ (e.generator g).frame.isSome = true) : ev.Enters g := by
  intro e c purpose hr
  obtain ⟨ht, hf⟩ := h e c purpose hr
  obtain ⟨f, hf⟩ := Option.isSome_iff_exists.1 hf
  exact ⟨f, hf, Engine.beginStep_of_takes ht hf⟩

theorem enters_of_not_driven (h : ∀ x ∈ ev.before.drives ev.move, x.1 ≠ g) : ev.Enters g :=
  fun _ _ _ hr => absurd rfl (h _ hr.drives)

/-- An async function that is started finds the frame of its new generator. -/
theorem enters_of_launches (h : (g, p) ∈ ev.before.launches ev.move) : ev.Enters g := by
  refine enters_of_takes fun e c purpose hr => ?_
  obtain ⟨w, m⟩ := ev
  cases hr with
  | @start e a prompt held f =>
    have hnew := e.newPromise.2.generator_newGenerator f
    exact ⟨.inr ⟨congrArg Generator.state hnew, rfl⟩, congrArg (fun r => r.frame.isSome) hnew⟩
  | _ => cases h

end Event

end Entering

/-! ## Runs -/

/-- An async generator that a request is made of is in the store after that. -/
theorem Step.lt_size_of_request {w w' : World H} {m : Move H} (h : Step w m w')
    {a : AsyncGeneratorRef} {c : Completion} (hm : m.request? = some (a, c)) :
    a.index < w'.config.engine.asyncGenerators.size := by
  obtain ⟨-, hledger⟩ := h.request hm []
  have hengine : w'.config.engine = (w.config.engine.addRequest a c).2 := by
    have heq := congrArg Ledger.engine hledger
    exact heq
  have hsize : (w.config.engine.addRequest a c).2.asyncGenerators.size =
      max w.config.engine.asyncGenerators.size (a.index + 1) := Store.size_set _ _ _
  rw [hengine, hsize]
  exact Nat.lt_of_lt_of_le (Nat.lt_succ_self _) (Nat.le_max_right _ _)

/-- Nothing has to do with the generator before it is there, and once the async generator has
been made around it, both are paired. -/
structure World.Pairs (w : World H) (issued : List (AsyncGeneratorRef × Request))
    (a : AsyncGeneratorRef) (g : GeneratorRef) (made : Prop) : Prop where
  unborn : w.config.engine.asyncGenerators.size ≤ a.index →
    w.config.engine.generators.size ≤ g.index → w.Unborn issued g
  paired : made → w.Paired issued a g

/-- **Every step keeps apart what it does not make a pair of.** -/
theorem Step.pairs {w w' : World H} {m : Move H} (h : Step w m w')
    (hbacked : w.config.engine.Backed) {issued : List (AsyncGeneratorRef × Request)}
    {js : List (Job H)} (hl : ((w.keeping js).ledger issued).Exclusive) (hin : w.Inside)
    {a : AsyncGeneratorRef} {g : GeneratorRef}
    (hreach : g ∈ w.reaches m → ∃ c, m.request? = some (a, c)) {made : Prop}
    (hw : (w.keeping js).Pairs issued a g made) :
    (w'.keeping (w.drops m ++ js)).Pairs (w.issued issued m) a g ((a, g) ∈ w.makes m ∨ made) := by
  have hsize := (h.changes (D := fun _ => True) (fun _ _ => trivial) fun _ _ => trivial).size_le
  have hsize' := (h.retains hbacked).size
  refine ⟨fun ha hg => ?_, fun hmade => ?_⟩
  · have hnot : g ∉ w.reaches m := fun hmem => by
      obtain ⟨c, hc⟩ := hreach hmem
      exact absurd (h.lt_size_of_request hc) (Nat.not_lt_of_le ha)
    exact h.unborn hbacked hl hnot (hw.unborn (hsize'.trans ha) (hsize.trans hg)) hg
  · rcases hmade with hmade | hmade
    · obtain ⟨f, rfl, rfl, rfl⟩ := World.of_makes hmade
      exact (h.keeping js).paired_made hbacked hl.lawful hmade (hw.unborn le_rfl le_rfl)
    · exact h.paired hbacked hl hin hreach (hw.paired hmade)

section Runs

variable {es : List (Event H)} {w : World H} {a : AsyncGeneratorRef} {g : GeneratorRef}

/-- **An async generator and the generator inside stay together**, whatever is lost, as far as
the host reaches the latter by requests only. -/
theorem Run.paired (h : Run es w)
    (hreach : ∀ ev ∈ es, g ∈ ev.before.reaches ev.move → ∃ c, ev.move.request? = some (a, c)) :
    w.Pairs (requestsIn es) a g ((a, g) ∈ madeIn es) := by
  induction h with
  | refl => exact ⟨fun _ _ => World.unborn_start g, fun hmade => by cases hmade⟩
  | @step es w₁ w₂ m h hs ih =>
    obtain ⟨hreachm, hreach⟩ := List.forall_mem_cons.1 hreach
    have hl := Run.exclusive h
    have hw := ih hreach
    rw [← w₁.keeping_nil] at hl hw
    have hnext := hs.pairs (Run.backed h) hl (Run.inside h) hreachm hw
    exact ⟨fun ha hg => (hnext.unborn ha hg).forget,
      fun hmade => (hnext.paired (List.mem_append.1 hmade)).forget⟩

/-- **The async generators that have been made are paired** with the generators inside, as
far as the host reaches those by requests only. -/
theorem Run.pairs (h : Run es w) (hes : ∀ ev ∈ es, ev.move ≠ .abandon)
    (hreach : ∀ ev ∈ es, g ∈ ev.before.reaches ev.move → ∃ c, ev.move.request? = some (a, c)) :
    (w.keeping (droppedIn es)).Pairs (requestsIn es) a g ((a, g) ∈ madeIn es) := by
  induction h with
  | refl => exact ⟨fun _ _ => World.unborn_start g, fun hmade => by cases hmade⟩
  | @step es w₁ w₂ m h hs ih =>
    obtain ⟨hm, hes⟩ := List.forall_mem_cons.1 hes
    obtain ⟨hreachm, hreach⟩ := List.forall_mem_cons.1 hreach
    have hnext := hs.pairs (Run.backed h) (Run.flights_kept h hes).exclusive (Run.inside h)
      hreachm (ih hes hreach)
    rw [droppedIn_cons]
    exact ⟨hnext.unborn, fun hmade => hnext.paired (List.mem_append.1 hmade)⟩

/-- The engine never asks in vain for a step of the generator inside an async generator. -/
theorem Run.pairs_enter (h : Run es w)
    (hreach : ∀ ev ∈ es, g ∈ ev.before.reaches ev.move → ∃ c, ev.move.request? = some (a, c)) :
    (w.config.engine.asyncGenerators.size ≤ a.index → w.config.engine.generators.size ≤ g.index →
      ∀ ev ∈ es, ev.Enters g) ∧ ((a, g) ∈ madeIn es → ∀ ev ∈ es, ev.Enters g) := by
  induction h with
  | refl => exact ⟨fun _ _ ev hev => (by cases hev), fun hmade => by cases hmade⟩
  | @step es w₁ w₂ m h hs ih =>
    obtain ⟨hreachm, hreach⟩ := List.forall_mem_cons.1 hreach
    obtain ⟨hunborn, hpaired⟩ := ih hreach
    have hw := Run.paired h hreach
    have hl := Run.exclusive h
    have hsize := (hs.changes (D := fun _ => True) (fun _ _ => trivial) fun _ _ => trivial).size_le
    have hsize' := (hs.retains (Run.backed h)).size
    refine ⟨fun ha hg => ?_, fun hmade => ?_⟩
    · have hnot : g ∉ w₁.reaches m := fun hmem => by
        obtain ⟨c, hc⟩ := hreachm hmem
        exact absurd (hs.lt_size_of_request hc) (Nat.not_lt_of_le ha)
      have hw₁ := hw.unborn (hsize'.trans ha) (hsize.trans hg)
      rw [← w₁.keeping_nil] at hl hw₁
      exact List.forall_mem_cons.2 ⟨Event.enters_of_not_driven (hw₁.not_driven hs hl hnot hg),
        hunborn (hsize'.trans ha) (hsize.trans hg)⟩
    · rcases List.mem_append.1 hmade with hmade | hmade
      · obtain ⟨f, rfl, rfl, rfl⟩ := World.of_makes hmade
        exact List.forall_mem_cons.2
          ⟨Event.enters_of_not_driven fun x hx => (by cases hx), hunborn le_rfl le_rfl⟩
      · refine List.forall_mem_cons.2
          ⟨Event.enters_of_takes fun e c purpose hr => ?_, hpaired hmade⟩
        obtain ⟨ht, hf, -⟩ := (hw.paired hmade).of_resumes hl hr
        exact ⟨ht, hf⟩

/-- The engine never asks in vain for a step of an async function that the host leaves
alone. -/
theorem Run.bodies_enter (h : Run es w) (hes : ∀ ev ∈ es, ev.move ≠ .abandon)
    (hreach : ∀ ev ∈ es, g ∉ ev.before.reaches ev.move) :
    (w.config.engine.generators.size ≤ g.index → ∀ ev ∈ es, ev.Enters g) ∧
      ∀ p, (g, p) ∈ launchedIn es → ∀ ev ∈ es, ev.Enters g := by
  induction h with
  | refl => exact ⟨fun _ ev hev => (by cases hev), fun _ _ ev hev => (by cases hev)⟩
  | @step es w₁ w₂ m h hs ih =>
    obtain ⟨hm, hes⟩ := List.forall_mem_cons.1 hes
    obtain ⟨hreachm, hreach⟩ := List.forall_mem_cons.1 hreach
    obtain ⟨hunborn, hbound⟩ := ih hes hreach
    obtain ⟨hw, hbody⟩ := Run.bodies_kept h hes hreach
    have hl := (Run.flights_kept h hes).exclusive
    have hsize := (hs.changes (D := fun _ => True) (fun _ _ => trivial) fun _ _ => trivial).size_le
    refine ⟨fun hg => ?_, fun p hp => ?_⟩
    · have hnot := (hw (hsize.trans hg)).not_driven hs hl hreachm hg
      exact List.forall_mem_cons.2
        ⟨Event.enters_of_not_driven hnot, hunborn (hsize.trans hg)⟩
    · rcases List.mem_append.1 hp with hp | hp
      · exact List.forall_mem_cons.2 ⟨Event.enters_of_launches hp,
          hunborn (World.size_le_of_launches hp)⟩
      · refine List.forall_mem_cons.2
          ⟨Event.enters_of_takes fun e c purpose hr => ?_, hbound p hp⟩
        exact (hbody p hp).of_resumes hl (hr.keeping _)

end Runs

/-! ## In step -/

/-- What the state of an async generator tells about the generator inside. One that is
executing has its step under way, or the frame waits. -/
def World.InStep (w : World H) (a : AsyncGeneratorRef) (g : GeneratorRef) : Prop :=
  let r := w.config.engine.generator g
  match (w.config.engine.asyncGenerator a).state with
  | .suspendedStart => r.state = .suspendedStart ∧ r.frame.isSome = true
  | .suspendedYield => r.state = .suspendedYield ∧ r.frame.isSome = true
  | .awaitingReturn | .completed => r.state = .completed ∧ r.frame = none
  | .executing =>
    r.state = .executing ∧ g ∈ w.config.control.running ∨
      r.state = .suspendedYield ∧ r.frame.isSome = true ∧
        (w.config.control.called? w.config.engine = none → w.AwaitsOne (Duty.serve a))

theorem World.Paired.inStep {w : World H} {issued : List (AsyncGeneratorRef × Request)}
    {a : AsyncGeneratorRef} {g : GeneratorRef} (hw : w.Paired issued a g)
    (hl : (w.ledger issued).Flights) (hin : w.Inside) : w.InStep a g := by
  have hnone : ∀ {s t}, w.Stands a g s t false → (w.config.engine.generator g).frame = none :=
    fun hs => by simpa using hs.frame
  rw [World.InStep]
  cases hw.pace with
  | fresh hs =>
    rw [hs.outer]
    exact ⟨hs.inner, hs.frame⟩
  | paused hs =>
    rw [hs.outer]
    exact ⟨hs.inner, hs.frame⟩
  | running hs hmem =>
    rw [hs.outer]
    exact .inl ⟨hs.inner, Control.mem_running hmem⟩
  | waiting hs hgo =>
    rw [hs.outer]
    refine .inr ⟨hs.inner, hs.frame, fun hcalled => ?_⟩
    refine (World.awaits_flight hl hin hcalled).1 ?_ fun hmem => ?_
    · rw [hs.outer]
      rfl
    · rw [hw.inner] at hmem
      exact absurd (hs.count_eq (by decide)) (List.count_pos_iff.2 hmem).ne'
  | returning hs hgo =>
    rw [hs.outer]
    exact ⟨hs.inner, hnone hs⟩
  | done hs =>
    rw [hs.outer]
    exact ⟨hs.inner, hnone hs⟩
  | lost hbusy _ hzero =>
    obtain ⟨flight, hf⟩ := hl.flight a
    obtain ⟨r, rfl⟩ := Option.isSome_iff_exists.1 (hf.busy.symm.trans hbusy)
    have hone := hf.owed r
    rw [hzero, if_pos rfl] at hone
    cases hone

/-- **An async generator and the generator inside stay in step** on a run without a panic,
if the host reaches the generator inside by requests of the async generator only. Where the
frame waits, one wait is outstanding, unless a callback with a duty is just being called; a
job of it that the host has dropped counts as held. So neither for an async generator nor
for an async function that the host leaves alone does the engine ask for a step in vain:
each step that it asks for begins, with the frame of the generator. -/
theorem Run.in_step {es : List (Event H)} {w : World H} (h : Run es w)
    (hes : ∀ ev ∈ es, ev.move ≠ .abandon) :
    (∀ a g, (a, g) ∈ madeIn es →
      (∀ ev ∈ es, g ∈ ev.before.reaches ev.move → ∃ c, ev.move.request? = some (a, c)) →
      (w.keeping (droppedIn es)).InStep a g ∧ ∀ ev ∈ es, ev.Enters g) ∧
    ∀ g p, (g, p) ∈ launchedIn es → (∀ ev ∈ es, g ∉ ev.before.reaches ev.move) →
      ∀ ev ∈ es, ev.Enters g := by
  have hl := Run.flights_kept h hes
  refine ⟨fun a g hmade hreach => ?_, fun g p hp hreach => (Run.bodies_enter h hes hreach).2 p hp⟩
  have hw := (Run.pairs h hes hreach).paired hmade
  have hin : w.Inside := Run.inside h
  exact ⟨hw.inStep hl hin, (Run.pairs_enter h hreach).2 hmade⟩

/-- Moves after which the host has dropped the job that a waiting async generator waits for,
and has begun an async function. -/
def World.droppingWait : List (Move Unit) :=
  [.perform (.newAsyncGenerator (.host ())), .perform (.request ⟨0⟩ (.normal .undefined)), .tick,
    .tick, .finishFrame (.awaiting .undefined) (), .tick, .tick, .perform .clearJobs,
    .perform (.startAsync (.host ())), .tick]

/-- With its job dropped, the async generator executes, and its frame waits in the generator
inside. -/
theorem Run.in_step_dropped :
    let es := ({} : World Unit).events World.droppingWait
    let w := ({} : World Unit).after World.droppingWait
    w.config.engine.waitingJobs = [] ∧
      (w.keeping (droppedIn es)).AwaitsOne (Duty.serve ⟨0⟩) ∧
      ∀ ev ∈ es, ev.Enters ⟨0⟩ ∧ ev.Enters ⟨1⟩ := by
  intro es w
  have hrun : Run es w := World.steps_after (by decide +kernel)
  obtain ⟨hmade, hlaunched⟩ := Run.in_step hrun (by decide +kernel)
  have hrequest : ∀ ev ∈ es, ⟨0⟩ ∈ ev.before.reaches ev.move →
      ev.move.request?.map Prod.fst = some ⟨0⟩ := by decide +kernel
  obtain ⟨hstep, henters⟩ := hmade ⟨0⟩ ⟨0⟩ (by decide +kernel) fun ev hev hr => by
    obtain ⟨⟨a, c⟩, hc, rfl⟩ := Option.map_eq_some_iff.1 (hrequest ev hev hr)
    exact ⟨c, hc⟩
  have hbody := hlaunched ⟨1⟩ ⟨2⟩ (by decide +kernel) (by decide +kernel)
  refine ⟨by decide +kernel, ?_, fun ev hev => ⟨henters ev hev, hbody ev hev⟩⟩
  have houter : ((w.keeping (droppedIn es)).config.engine.asyncGenerator ⟨0⟩).state =
      .executing := by decide +kernel
  have hinner : ((w.keeping (droppedIn es)).config.engine.generator ⟨0⟩).state ≠
      .executing := by decide +kernel
  rw [World.InStep, houter] at hstep
  obtain ⟨hrunning, -⟩ | ⟨-, -, hawaits⟩ := hstep
  · exact absurd hrunning hinner
  · exact hawaits (by decide +kernel)

end Microtask
