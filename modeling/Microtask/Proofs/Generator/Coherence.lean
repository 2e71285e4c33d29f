import Microtask.Proofs.Generator.Protocol
import Microtask.Proofs.Generator.Resuming

/-!
# Generators and their frames

The state of a generator and its frame are written at different times, some of them before
and some after code of the frame has run and perhaps closed the very generator. They still
agree: a generator has its frame exactly while it is suspended (`Generator.Coherent`), as long
as the host does not drop the frame. For a frame that stops the reason is that it was away,
so that whatever happened to its generator meanwhile has not brought a second one
(`Stage.Ready.away`).

So there always is a frame to resume, and a step of a generator fails only if it is asked for
while another one is under way, or if a generator that is no async one awaits.

Main statement: `Run.frame_iff_suspended`.
-/

namespace Microtask

variable {H : Type}

def GeneratorState.isSuspended : GeneratorState → Bool
  | suspendedStart | suspendedYield => true
  | executing | completed => false

/-- The generator has its frame exactly while it is suspended. -/
def Generator.Coherent (r : Generator H) : Prop := r.frame.isSome = r.state.isSuspended

namespace Generator.Coherent

variable {r : Generator H}

theorem frame_isSome (h : r.Coherent) (hs : r.state = .suspendedStart ∨ r.state = .suspendedYield) :
    r.frame.isSome = true := by
  rcases hs with hs | hs <;> exact h.trans (congrArg GeneratorState.isSuspended hs)

theorem frame_eq_none (h : r.Coherent) (hs : r.state = .executing ∨ r.state = .completed) :
    r.frame = none := by
  have hnone : r.frame.isSome = false := by
    rcases hs with hs | hs <;> exact h.trans (congrArg GeneratorState.isSuspended hs)
  exact Option.not_isSome_iff_eq_none.1 (by simp [hnone])

/-- A generator that can be resumed has its frame. -/
theorem of_takes (h : r.Coherent) {c : Completion} (ht : r.Takes c) : r.frame.isSome = true :=
  h.frame_isSome (ht.elim .inr fun ht => .inl ht.1)

end Generator.Coherent

/-! ## On the stage -/

namespace Stage

variable {D L P : GeneratorRef → Prop} {s s' : Stage H} {g : GeneratorRef} {p : FramePhase}

/-- **Every change keeps a generator coherent**, unless it loses the frame. -/
theorem Change.coherent (h : Change D L P s s') (hL : ¬ L g) (hready : s.Ready g p)
    (hs : (s.generator g).Coherent) : (s'.generator g).Coherent := by
  have hmodify : ∀ (g' : GeneratorRef) (change : Generator H → Generator H),
      (g' = g → (change (s.generator g)).Coherent) →
      ((s.modify g' change).generator g).Coherent := by
    intro g' change hc
    rw [generator_modify]
    split
    · next heq =>
      subst heq
      exact hc rfl
    · exact hs
  cases h with
  | create id f =>
    by_cases hg : g.index = s.generators.size
    · have hgen := (Store.get_push s.generators
        { id, state := .suspendedStart, frame := some f } g.index).trans (if_pos hg)
      exact (congrArg Generator.Coherent hgen).mpr rfl
    · exact (congrArg Generator.Coherent ((Store.get_push _ _ _).trans (if_neg hg))).mpr hs
  | close hD => exact hmodify _ _ fun _ => rfl
  | drop hD hlose =>
    refine hmodify _ _ ?_
    rintro rfl
    exact absurd hlose hL
  | resume hD ht hf => exact hmodify _ (fun r => { r with state := .executing, frame := none }) fun _ => rfl
  | fail hD ht hf =>
    refine hmodify _ _ ?_
    rintro rfl
    exact congrArg Option.isSome hf
  | @finish g' rest hD hrest =>
    refine hmodify g' (fun r => { r with state := .completed }) ?_
    rintro rfl
    have hle := hready.count_le
    rw [hrest, List.count_cons_self] at hle
    have hone : s.running.count g' = 1 := by
      rw [hrest, List.count_cons_self]
      omega
    exact congrArg Option.isSome (hready.away hone).1
  | @pause g' rest f hD hp hrest =>
    exact hmodify g' (fun r => { r with state := .suspendedYield, frame := some f }) fun _ => rfl
  | abandon hall => exact hs

theorem Changes.coherent (h : Changes D L P s s') (hL : ¬ L g) (hP : P g → p = .paused)
    (hready : s.Ready g p) (hs : (s.generator g).Coherent) : (s'.generator g).Coherent := by
  induction h with
  | refl => exact hs
  | tail h₀ h ih => exact h.coherent hL (Changes.ready h₀ hP hready) ih

end Stage

/-- A generator that pauses is ready for the phase in which it goes on. -/
theorem World.Phased.exists_ready {w w' : World H} {m : Move H} {g : GeneratorRef}
    {p : FramePhase} (hw : w.Phased g p) (h : Step w m w') :
    ∃ q, w.config.stage.Ready g q ∧ (w.Pauses m g → q = .paused) := by
  by_cases hp : w.Pauses m g
  · obtain ⟨purpose, o, hs, -⟩ := hp
    have hcount : w.config.control.running.count g ≠ 0 := by
      rw [World.count_running, (h.steps_of_stops hs).1, List.countP_cons]
      simp
    have hle : w.config.control.running.count g ≤ 1 := hw.ready.count_le
    have hone : w.config.control.running.count g = 1 := by omega
    exact ⟨.paused, hw.ready.rephase hone _, fun _ => rfl⟩
  · exact ⟨p, hw.ready, fun h => absurd h hp⟩

/-! ## Steps that fail -/

namespace Engine

variable {e : Engine H} {g : GeneratorRef}

/-- A step that is answered at once is answered with an error only while another one is
under way. -/
theorem beginStep_error (hg : (e.generator g).Coherent) {c : Completion} {error : EngineError}
    (h : (e.beginStep g c).2 = .answered (.error error)) :
    (e.generator g).state = .executing ∧ error = .alreadyRunning := by
  have htake : (e.generator g).Takes c → (e.takeFrame g).2 ≠ .answered (.error error) := by
    intro ht heq
    obtain ⟨f, hf⟩ := Option.isSome_iff_exists.1 (hg.of_takes ht)
    simp only [takeFrame, hf] at heq
    cases heq
  cases hs : (e.generator g).state with
  | executing =>
    simp only [beginStep, hs] at h
    cases h
    exact ⟨rfl, rfl⟩
  | completed =>
    simp only [beginStep, hs] at h
    cases h
  | suspendedStart =>
    simp only [beginStep, hs] at h
    split at h
    · cases h
    · next hc => exact absurd h (htake (.inr ⟨hs, by simpa using hc⟩))
  | suspendedYield =>
    simp only [beginStep, hs] at h
    exact absurd h (htake (.inl hs))

/-- An outcome that a step is answered with at once is final. -/
theorem beginStep_finished {c : Completion} {o : Outcome}
    (h : (e.beginStep g c).2 = .answered (.ok o)) : o.isFinished = true := by
  have htake : (e.takeFrame g).2 ≠ .answered (.ok o) := by
    unfold takeFrame
    split <;> nofun
  unfold beginStep at h
  split at h
  · cases h
  · obtain rfl : doneOutcome c = o := by cases h; rfl
    unfold doneOutcome
    split <;> rfl
  · split at h
    · obtain rfl : Outcome.ofCompletion c = o := by cases h; rfl
      unfold Outcome.ofCompletion
      split <;> rfl
    · exact absurd h htake
  · exact absurd h htake

/-- The host is told of an error when the step has ended with it, or when it has asked for
an iterator result and the frame awaits. Then the generator is done. -/
theorem conclude_error {result : Except EngineError Outcome} {purpose : Purpose H}
    {a : Activation H} {answer : Answer H} {error : EngineError}
    (hc : (e.conclude g result purpose).control = .host a (.answered answer))
    (he : answer.error? = some error) :
    result = .error error ∨
      purpose = .iterator a ∧ (∃ v, result = .ok (.awaiting v)) ∧ error = .awaitInGenerator ∧
        (e.conclude g result purpose).engine = e.closeGenerator g := by
  cases purpose with
  | outcome h =>
    cases hc
    cases result with
    | error error' =>
      cases he
      exact .inl rfl
    | ok o => cases he
  | iterator h =>
    cases result with
    | error error' =>
      cases hc
      cases he
      exact .inl rfl
    | ok o =>
      cases o with
      | awaiting v =>
        cases hc
        cases he
        exact .inr ⟨rfl, ⟨v, rfl⟩, rfl, rfl⟩
      | yielded v | returned v | threw v =>
        cases hc
        cases he
  | serving a r reply k | body p reply k => cases hc

/-- A host that asks for a step and is told of an error at once has asked while another one
was under way. -/
theorem perform_error (hg : (e.generator g).Coherent) {op : Op H} {c : Completion}
    (hop : op.step? = some (g, c)) {h a : Activation H} {answer : Answer H} {error : EngineError}
    (hc : (e.perform h op).control = .host a (.answered answer)) (he : answer.error? = some error) :
    (e.generator g).state = .executing ∧ error = .alreadyRunning := by
  have hstep : ∀ purpose : Purpose H,
      (e.stepGenerator g c purpose).control = .host a (.answered answer) →
      (e.generator g).state = .executing ∧ error = .alreadyRunning := by
    intro purpose hc
    unfold stepGenerator at hc
    cases hb : e.beginStep g c with
    | mk e' start =>
      have hstart : (e.beginStep g c).2 = start := congrArg Prod.snd hb
      rw [hb] at hc
      cases start with
      | running f => cases hc
      | answered result =>
        rcases conclude_error hc he with rfl | ⟨-, ⟨v, rfl⟩, -⟩
        · exact beginStep_error hg hstart
        · cases beginStep_finished hstart
  cases op with
  | stepGenerator g' c' =>
    cases hop
    exact hstep _ hc
  | advanceGenerator g' c' =>
    cases hop
    exact hstep _ hc
  | generatorMethod receiver method args =>
    cases receiver with
    | generator g' =>
      obtain ⟨c', hm, heq⟩ := Option.map_eq_some_iff.1 hop
      cases heq
      simp only [perform, hm] at hc
      exact hstep _ hc
    | _ => cases hop
  | _ => cases hop

end Engine

/-- The engine that asks for a step has the generator as it was, or has just made it. -/
theorem World.Resumes.coherent {w : World H} {m : Move H} {e : Engine H} {g : GeneratorRef}
    {c : Completion} {purpose : Purpose H} (hr : w.Resumes m e g c purpose)
    (hg : (w.config.engine.generator g).Coherent) :
    (e.generator g).Coherent ∧
      ((e.generator g).state = .executing →
        (w.config.engine.generator g).state = .executing) := by
  have hsame : e.generator g = w.config.engine.generator g →
      (e.generator g).Coherent ∧ ((e.generator g).state = .executing →
        (w.config.engine.generator g).state = .executing) := by
    intro heq
    rw [heq]
    exact ⟨hg, id⟩
  cases hr with
  | serve ht =>
    exact hsame (congrArg (Store.get · g.index) (Engine.takeRequest_generator ht))
  | awaiting | yielding | body => exact hsame (Engine.generator_used _ _ _)
  | @start e h prompt held f =>
    have hnew := Engine.generator_newGenerator e.newPromise.2 f
    refine ⟨?_, fun hs => ?_⟩
    · exact (congrArg Generator.Coherent hnew).mpr rfl
    · cases (congrArg Generator.state hnew).symm.trans hs

/-! ## Runs -/

theorem Run.coherent {es : List (Event H)} {w : World H} (h : Run es w) {g : GeneratorRef}
    (hkeep : ∀ ev ∈ es, ev.move.drops g = false) :
    (w.config.engine.generator g).Coherent := by
  induction h with
  | refl => rfl
  | @step es w₁ w₂ m h hs ih =>
    obtain ⟨p, -, hw⟩ := Run.phased h g
    obtain ⟨q, hready, hpause⟩ := hw.exists_ready hs
    have hchanges := hs.changes (D := fun _ => True) (fun _ _ => trivial) fun _ _ => trivial
    obtain ⟨hm, hes⟩ := List.forall_mem_cons.1 hkeep
    exact hchanges.coherent (Bool.not_eq_true _ ▸ hm) hpause hready (ih hes)

/-- **A generator has its frame exactly while it is suspended**, in every run in which the
host does not drop the frame, whatever the frame and everybody else do. So the host is told
of an error, when it steps the generator, only if another step was under way, or later if
the frame awaits and an iterator result was asked for, and then the generator is done and
its frame is gone. Steps that the engine asks for itself fail only while another one is
under way. In particular there never is no frame to resume. -/
theorem Run.frame_iff_suspended {es : List (Event H)} {w : World H} (h : Run es w)
    {g : GeneratorRef} (hkeep : ∀ ev ∈ es, ev.move.drops g = false) :
    let r := w.config.engine.generator g
    (r.state = .suspendedStart ∨ r.state = .suspendedYield → r.frame.isSome = true) ∧
    (r.state = .executing ∨ r.state = .completed → r.frame = none) ∧
    (∀ a prompt op c, w.config.control = .host a prompt → op.step? = some (g, c) →
      ∀ a' answer error, (w.config.engine.perform a op).control = .host a' (.answered answer) →
        answer.error? = some error →
        r.state = .executing ∧ error = .invalidState "Generator is already running") ∧
    (∀ m e c purpose error, w.Resumes m e g c purpose →
      (e.beginStep g c).2 = .answered (.error error) →
      r.state = .executing ∧ error = .invalidState "Generator is already running") ∧
    ∀ m w' purpose o, Step w m w' → w.Stops m (.generator g purpose) o →
      ∀ a answer error, w'.config.control = .host a (.answered answer) →
        answer.error? = some error →
        purpose = .iterator a ∧ (∃ v, o = .awaiting v) ∧
          error = .typeError "await is only valid in async generators and async functions" ∧
          (w'.config.engine.generator g).state = .completed ∧
          (w'.config.engine.generator g).frame = none := by
  have hg := h.coherent hkeep
  refine ⟨hg.frame_isSome, hg.frame_eq_none, ?_, ?_, ?_⟩
  · exact fun a prompt op c _ hop a' answer error hc he => Engine.perform_error hg hop hc he
  · intro m e c purpose error hr hb
    obtain ⟨hcoh, hexec⟩ := hr.coherent hg
    obtain ⟨hs, herror⟩ := Engine.beginStep_error hcoh hb
    exact ⟨hexec hs, herror⟩
  · intro m w' purpose o hs hstop a answer error hc he
    obtain ⟨f, rfl⟩ := hs.stops hstop
    rcases Engine.conclude_error hc he with hr | ⟨rfl, ⟨v, hv⟩, rfl, heng⟩
    · cases hr
    · have hgen : ((w.config.engine.endStep g f o).closeGenerator g).generator g =
          { (w.config.engine.endStep g f o).generator g with state := .completed, frame := none } :=
        (Engine.generator_modify _ g g _).trans (if_pos rfl)
      refine ⟨rfl, ⟨v, Except.ok.inj hv⟩, rfl, ?_, ?_⟩
      · exact (congrArg (fun e => (Engine.generator e g).state) heng).trans
          (congrArg Generator.state hgen)
      · exact (congrArg (fun e => (Engine.generator e g).frame) heng).trans
          (congrArg Generator.frame hgen)

/-- Moves with which the frame of a generator closes its generator, steps it, and awaits. -/
def World.awaitingInside : List (Move Unit) :=
  [.perform (.newGenerator (.host ())), .perform (.advanceGenerator ⟨0⟩ (.normal .undefined)),
    .tick, .perform (.closeGenerator ⟨0⟩),
    .perform (.advanceGenerator ⟨0⟩ (.normal .undefined))]

theorem Run.frame_iff_suspended_inside :
    let es := ({} : World Unit).events World.awaitingInside
    let w := ({} : World Unit).after World.awaitingInside
    let w' := w.after [.finishFrame (.awaiting .null) ()]
    (∀ ev ∈ es, ev.move.drops ⟨0⟩ = false) ∧
      (w.config.engine.generator ⟨0⟩).frame.isNone = true ∧
      w'.config.control = .host .main (.answered (.value (.error (.engine .awaitInGenerator)))) ∧
      (w'.config.engine.generator ⟨0⟩).state = .completed := by
  intro es w w'
  have h : Run es w := World.steps_after (by decide +kernel)
  have hkeep : ∀ ev ∈ es, ev.move.drops ⟨0⟩ = false := by decide +kernel
  obtain ⟨-, hnone, -, -, hawait⟩ := Run.frame_iff_suspended h hkeep
  have hs : Step w (.finishFrame (.awaiting .null) ()) w' := .finishFrame (.awaiting .null) ()
  have hc : w'.config.control =
      .host .main (.answered (.value (.error (.engine .awaitInGenerator)))) := rfl
  have hdone := hawait _ w' _ _ hs (.host _ _) _ _ _ hc rfl
  exact ⟨hkeep, Option.isNone_iff_eq_none.2 (hnone (.inr (by decide +kernel))), hc, hdone.2.2.2.1⟩

end Microtask
