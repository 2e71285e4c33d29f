import Microtask.Proofs.Generator.Stage

/-!
# Generators that are done

A generator that is done stays done and answers every later request at once, as long as
its frame is not put back (`Stage.Done`). While a step of it is under way, it may be
closed from inside its own frame. Then the end of that step decides: a frame that
stops for good leaves it done, and one that only pauses opens it again
(`Run.completed_reopened`).

Main statement: `Steps.completed_final`.
-/

namespace Microtask

variable {H : Type}

theorem GeneratorRef.index_inj {g g' : GeneratorRef} : g.index = g'.index ↔ g = g' := by
  cases g; cases g'; simp

namespace Stage

/-! ## Stages -/

theorem generator_modify (s : Stage H) (g g' : GeneratorRef)
    (change : Generator H → Generator H) :
    (s.modify g change).generator g' =
      if g' = g then change (s.generator g) else s.generator g' := by
  simp only [generator, modify, Store.get_modify, GeneratorRef.index_inj]

theorem size_le_modify (s : Stage H) (g : GeneratorRef) (change : Generator H → Generator H) :
    s.generators.size ≤ (s.modify g change).generators.size := by
  simp only [modify, Store.modify, Store.size_set]
  omega

/-- The generator exists and is done. -/
structure Done (s : Stage H) (g : GeneratorRef) : Prop where
  allocated : g.index < s.generators.size
  completed : (s.generator g).state = .completed

variable {D L P : GeneratorRef → Prop} {s s' : Stage H} {g : GeneratorRef}

/-- A change of some generator that leaves a completed one completed. -/
theorem Done.modify (h : s.Done g) (g' : GeneratorRef) (change : Generator H → Generator H)
    (hc : g' = g → (change (s.generator g)).state = .completed) (running : List GeneratorRef) :
    Done { s.modify g' change with running } g := by
  refine ⟨Nat.lt_of_lt_of_le h.allocated (size_le_modify s g' change), ?_⟩
  show ((s.modify g' change).generator g).state = _
  rw [generator_modify]
  split
  · next heq =>
    subst heq
    exact hc rfl
  · exact h.completed

/-- A generator that is done takes no completion. -/
theorem Done.not_takes (h : s.Done g) (c : Completion) : ¬ (s.generator g).Takes c := by
  rintro (hs | ⟨hs, -⟩) <;> rw [h.completed] at hs <;> cases hs

theorem Change.done (h : Change D L P s s') (hd : s.Done g) (hP : g ∈ s.running → ¬ P g) :
    s'.Done g := by
  cases h with
  | create id f =>
    refine ⟨by simpa using Nat.lt_succ_of_lt hd.allocated, ?_⟩
    simp only [generator, Store.get_push, Nat.ne_of_lt hd.allocated, if_false]
    exact hd.completed
  | @close g' hg =>
    exact hd.modify g' (fun r => { r with state := .completed, frame := none }) (fun _ => rfl) _
  | @drop g' hg => exact hd.modify g' (fun r => { r with frame := none }) (fun _ => hd.completed) _
  | @resume g' c hg ht hf =>
    refine hd.modify g' _ ?_ _
    rintro rfl
    exact absurd ht (hd.not_takes c)
  | @fail g' c hg ht hf =>
    exact hd.modify g' (fun r => { r with state := .completed }) (fun _ => rfl) _
  | @finish g' rest hg hs =>
    exact hd.modify g' (fun r => { r with state := .completed }) (fun _ => rfl) rest
  | @pause g' rest f hg hp hs =>
    refine hd.modify g' _ ?_ rest
    -- the generator that pauses is on the stack
    rintro rfl
    exact absurd hp (hP (hs ▸ List.mem_cons_self))
  | abandon => exact ⟨hd.allocated, hd.completed⟩

/-- No step of a generator that is done gets under way. -/
theorem Change.count_le (h : Change D L P s s') (hd : s.Done g) :
    s'.running.count g ≤ s.running.count g := by
  cases h with
  | @resume g' c hg ht hf =>
    have hne : g' ≠ g := by
      rintro rfl
      exact hd.not_takes c ht
    exact Nat.le_of_eq (List.count_cons_of_ne hne)
  | finish hg hs | pause f hg hp hs =>
    rw [hs]
    exact (List.sublist_cons_self _ _).count_le _
  | abandon => exact Nat.zero_le _
  | _ => exact Nat.le_refl _

/-- The generator is done, and no more steps of it are under way than before. -/
structure Stays (g : GeneratorRef) (s s' : Stage H) : Prop where
  done : s'.Done g
  count_le : s'.running.count g ≤ s.running.count g

theorem Stays.mem_running (h : Stays g s s') (hg : g ∈ s'.running) : g ∈ s.running :=
  List.count_pos_iff.1 (Nat.lt_of_lt_of_le (List.count_pos_iff.2 hg) h.count_le)

theorem Stays.trans {s'' : Stage H} (h : Stays g s s') (h' : Stays g s' s'') : Stays g s s'' :=
  ⟨h'.done, Nat.le_trans h'.count_le h.count_le⟩

theorem Changes.stays (h : Changes D L P s s') (hd : s.Done g) (hP : g ∈ s.running → ¬ P g) :
    Stays g s s' := by
  induction h with
  | refl => exact ⟨hd, Nat.le_refl _⟩
  | tail _ h ih =>
    exact ih.trans ⟨h.done ih.done fun hg => hP (ih.mem_running hg), h.count_le ih.done⟩

end Stage

/-! ## Answers -/

/-- The value that a generator which is done answers a completion with. -/
def Completion.echo (c : Completion) : Value :=
  match c.kind with
  | .return => c.value
  | .normal | .throw => .undefined

/-- A generator that is done answers at once, and nothing happens to any generator. -/
theorem Engine.advance_completed {e : Engine H} {g : GeneratorRef}
    (h : (e.generator g).state = .completed) (a : Activation H) (c : Completion) :
    ∃ (e' : Engine H) (v : Value), e.perform a (.advanceGenerator g c) = e'.replyValue a v ∧
      e'.iteratorParts? v = some (c.echo, true) ∧ e'.generators = e.generators := by
  have hecho : doneOutcome c = .returned c.echo := by
    obtain ⟨kind, v⟩ := c
    cases kind <;> rfl
  refine ⟨(e.newIteratorResult c.echo true).2, (e.newIteratorResult c.echo true).1, ?_, ?_, rfl⟩
  · simp only [perform, stepGenerator, beginStep, h, hecho]
    rfl
  · have hget : (e.newIteratorResult c.echo true).2.object ⟨e.objects.size⟩ =
        .iteratorResult c.echo true := by
      simp [object, newIteratorResult, newObject, Store.get_push]
    show some ((e.newIteratorResult c.echo true).2.object ⟨e.objects.size⟩).iteratorParts = _
    rw [hget]
    rfl

/-! ## Runs -/

/-- A generator that is done stays done, unless its own frame stops for now. -/
theorem Steps.stays {es : List (Event H)} {w w' : World H} (h : Steps w es w') {g : GeneratorRef}
    (hd : w.config.stage.Done g)
    (hpause : g ∈ w.config.control.running → ∀ ev ∈ es, ¬ ev.before.Pauses ev.move g) :
    Stage.Stays g w.config.stage w'.config.stage := by
  induction h with
  | refl => exact ⟨hd, Nat.le_refl _⟩
  | step h hs ih =>
    have hstays := ih fun hg ev hev => hpause hg ev (List.mem_cons_of_mem _ hev)
    have hchanges := hs.changes (D := fun _ => True) (fun _ _ => trivial) fun _ _ => trivial
    exact hstays.trans (hchanges.stays hstays.done fun hg =>
      hpause (hstays.mem_running hg) _ List.mem_cons_self)

/-- **A generator that is done stays done**, unless a step of it is under way when it is
seen done and ends with a pause later. In every later world it is done, no further
step of it is under way, so that its frame is never resumed again, and it answers every
completion with an end: a return with its own value, anything else with undefined. -/
theorem Steps.completed_final {es : List (Event H)} {w w' : World H} (h : Steps w es w')
    {g : GeneratorRef} (hg : g.index < w.config.engine.generators.size)
    (hdone : (w.config.engine.generator g).state = .completed)
    (hpause : g ∈ w.config.control.running → ∀ ev ∈ es, ¬ ev.before.Pauses ev.move g) :
    (w'.config.engine.generator g).state = .completed ∧
      w'.config.control.running.count g ≤ w.config.control.running.count g ∧
      ∀ (a : Activation H) (c : Completion), ∃ (e : Engine H) (v : Value),
        w'.config.engine.perform a (.advanceGenerator g c) = e.replyValue a v ∧
          e.iteratorParts? v = some (c.echo, true) ∧
          e.generators = w'.config.engine.generators := by
  have hstays := h.stays ⟨hg, hdone⟩ hpause
  exact ⟨hstays.done.completed, hstays.count_le, Engine.advance_completed hstays.done.completed⟩

/-- A frame of the host has closed its own generator and still has the floor. -/
def World.closedInside : World Unit :=
  let start : Engine Unit := (({} : Engine Unit).newGenerator (.host ())).2
  let e := (start.perform .main (.advanceGenerator ⟨0⟩ (.normal .undefined))).tick.engine
  ⟨⟨e.closeGenerator ⟨0⟩, .host (.frame (.generator ⟨0⟩ (.iterator .main))) (.answered .done)⟩, []⟩

theorem Run.exists_closedInside : ∃ es, Run es World.closedInside := by
  have h₁ : Step ({} : World Unit) (.perform (.newGenerator (.host ()))) _ :=
    .perform_free _ rfl rfl
  have h₂ := Steps.step (.step .refl h₁)
    (.perform_free (.advanceGenerator ⟨0⟩ (.normal .undefined)) rfl rfl)
  have h₃ := h₂.step (.tick _ _)
  exact ⟨_, h₃.step (.perform_free (.closeGenerator ⟨0⟩) rfl rfl)⟩

/-- The frame that has closed its own generator returns. -/
theorem Steps.completed_final_inside :
    let e := (World.closedInside.config.engine.finishFrame (.returned .null) ()
      (.generator ⟨0⟩ (.iterator .main))).engine
    (World.closedInside.config.engine.generator ⟨0⟩).state = .completed ∧
      ⟨0⟩ ∈ World.closedInside.config.control.running ∧ (e.generator ⟨0⟩).state = .completed := by
  intro e
  have hs : Step World.closedInside (.finishFrame (.returned .null) ()) _ := .finishFrame _ ()
  have hpause : ¬ World.closedInside.Pauses (.finishFrame (.returned .null) ()) ⟨0⟩ := by
    rintro ⟨_, _, ⟨_, _⟩, ⟨⟩⟩
  have hsize : 0 < World.closedInside.config.engine.generators.size := by decide
  exact ⟨rfl, List.mem_cons_self, (Steps.completed_final (.step .refl hs) hsize rfl
    fun _ => by simpa using hpause).1⟩

/-- **A generator that closes itself can be opened again.** Its own frame closes it
and then yields. The end of the step overwrites the state, and the next request
resumes the frame. -/
theorem Run.completed_reopened :
    ∃ (es : List (Event Unit)) (w w' : World Unit), Run es w ∧
      Step w (.finishFrame (.yielded .null) ()) w' ∧
      (w.config.engine.generator ⟨0⟩).state = .completed ∧
      (w'.config.engine.generator ⟨0⟩).state = .suspendedYield ∧
      (w'.config.engine.perform .main (.advanceGenerator ⟨0⟩ (.normal .undefined))).control =
        .resume (.host ()) (.normal .undefined) (.generator ⟨0⟩ (.iterator .main)) := by
  obtain ⟨es, h⟩ := Run.exists_closedInside
  exact ⟨es, _, _, h, .finishFrame _ (), rfl, rfl, rfl⟩

end Microtask
