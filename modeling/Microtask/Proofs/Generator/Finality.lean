import Microtask.Proofs.Generator.Completing

/-!
# Completion is final

As long as the host settles no promise of a request and reaches the generator inside an async
generator by requests only (`LeftAlone`), completion is the end. Once the async generator is
completed, it stays so and its frame rests (`World.Finished`): all that is still done for it is
to answer the requests that wait, and those that come later, with `undefined`, at once.

Main statement: `Run.completion_final`.
-/

namespace Microtask

variable {H : Type}

/-- The host settles no promise of a request, and it reaches the generator inside the async
generator by requests of that only. -/
structure LeftAlone (a : AsyncGeneratorRef) (g : GeneratorRef) (es : List (Event H)) : Prop where
  requests : ∀ x ∈ requestsIn es, ¬ HostSettles x.2.capability es
  inside : ∀ ev ∈ es, g ∈ ev.before.reaches ev.move → ∃ c, ev.move.request? = some (a, c)

namespace World

/-- The request is answered with the outcome from one world to the next. -/
structure Answers (w w' : World H) (r : Request) (o : Outcome) : Prop where
  pending : (w.config.engine.promise r.capability).state = .pending
  tells : w'.config.engine.Tells r.capability o

/-- The request has been answered with the outcome in the course of some events, for good. -/
def Answered (w : World H) (es : List (Event H)) (r : Request) (o : Outcome) : Prop :=
  ∃ later m v earlier u, es = later ++ ⟨v, m⟩ :: earlier ∧ Step v m u ∧ v.Answers u r o ∧
    (w.config.engine.promise r.capability).state = (u.config.engine.promise r.capability).state

/-- What a step does for an async generator that is completed: its frame rests, and requests are
answered that were next in the queue. -/
structure Flushes (w : World H) (m : Move H) (w' : World H) (a : AsyncGeneratorRef)
    (g : GeneratorRef) (served : List Request) : Prop where
  state : (w'.config.engine.asyncGenerator a).state = .completed
  frame : w.frameEvents m g = []
  queue : (w.config.engine.asyncGenerator a).queue ++ requestsOf a (w.issued [] m) =
    served ++ (w'.config.engine.asyncGenerator a).queue
  answers : ∀ r ∈ served, w.Answers w' r (.returned .undefined)

/-- Some events after it was completed, an async generator is completed. Its frame has rested. Of
the requests that were in the queue or have come since, the first ones have been answered with
`undefined`, and the others are in the queue, where none is left once the host has the floor. -/
structure Finished (v : World H) (later : List (Event H)) (w : World H) (a : AsyncGeneratorRef)
    (g : GeneratorRef) : Prop where
  state : (w.config.engine.asyncGenerator a).state = .completed
  frame : frameLog g later = []
  requests : ∃ served, (v.config.engine.asyncGenerator a).queue ++ requestsOf a (requestsIn later) =
      served ++ (w.config.engine.asyncGenerator a).queue ∧
    ∀ r ∈ served, w.Answered later r (.returned .undefined)
  flushed : w.config.atHost = true → (w.config.engine.asyncGenerator a).queue = []

end World

/-! ## Steps of one that is completed -/

section Steps

variable {w w' : World H} {m : Move H} {es : List (Event H)} {a : AsyncGeneratorRef}
  {g : GeneratorRef}

theorem requestsOf_issued (w : World H) (m : Move H) (a : AsyncGeneratorRef)
    (issued : List (AsyncGeneratorRef × Request)) :
    requestsOf a (w.issued issued m) = requestsOf a issued ++ requestsOf a (w.issued [] m) := by
  cases hreq : m.request? with
  | none =>
    rw [World.issued_eq hreq, World.issued_eq hreq]
    exact (List.append_nil _).symm
  | some x =>
    cases m with
    | perform op =>
      have hop : op.request? = some x := hreq
      simp only [World.issued, Op.issued, hop, requestsOf, List.nil_append, List.filter_append,
        List.map_append]
    | _ => cases hreq

/-- A completed async generator answers the next request with `undefined`. -/
theorem Step.flushes_of_looks (h : Step w m w') (hw : w.Orderly es) {r : Request}
    (hr : w.Looks m a r) (hs : (w.config.engine.asyncGenerator a).state = .completed) :
    (w'.config.engine.asyncGenerator a).state = .completed ∧
      (w.config.engine.asyncGenerator a).queue = r :: (w'.config.engine.asyncGenerator a).queue ∧
      w.Answers w' r (.returned .undefined) := by
  obtain ⟨hres, hpend⟩ := World.Paired.open_request hw (.inr hr.mem_queue)
  cases hr with
  | @intro e a reply k held r rest hq =>
    have hb : (e.asyncGenerator a).state.isBusy = false := by
      rw [hs]
      rfl
    let taken := e.modifyAsyncGenerator a fun g => { g with queue := rest }
    obtain ⟨-, ht⟩ | ⟨hs', -⟩ | ⟨hs', -⟩ | ⟨⟨hs', -⟩ | hs', -⟩ := Engine.takeRequest_cases hb hq
    · obtain rfl : w' = ⟨⟨taken.answerRequest r .undefined true, .serve a reply k⟩, held⟩ := by
        cases h
        simp only [Config.tick, Engine.serve, ht]
        rfl
      have hsame : (taken.answerRequest r .undefined true).asyncGenerator a =
          { e.asyncGenerator a with queue := rest } :=
        ((taken.spares_answerRequest r .undefined true).asyncGenerator a).trans
          ((e.asyncGenerator_modify a a _).trans (if_pos rfl))
      refine ⟨(congrArg AsyncGenerator.state hsame).trans hs, ?_, hpend, ?_⟩
      · exact hq.trans (congrArg (r :: ·) (congrArg AsyncGenerator.queue hsame).symm)
      · exact Engine.tells_answer (e := taken) hres hpend .undefined true
    · cases hs.symm.trans hs'
    · cases hs.symm.trans hs'
    · cases hs.symm.trans hs'
    · cases hs.symm.trans hs'

/-- **With each step a completed async generator stays completed**, and its frame rests. -/
theorem Step.flushes (h : Step w m w') (hw : w.Orderly es)
    (hl : (w.ledger (requestsIn es)).Exclusive) (hp : w.Paired (requestsIn es) a g)
    (hs : (w.config.engine.asyncGenerator a).state = .completed) :
    ∃ served, w.Flushes m w' a g served := by
  have hb : (w.config.engine.asyncGenerator a).state.isBusy = false := by
    rw [hs]
    rfl
  have hframe : w.frameEvents m g = [] := by
    refine World.frameEvents_eq_nil fun hmem => ?_
    obtain hstands | hstands | hstands := hp.of_idle hb
    · cases hs.symm.trans hstands.outer
    · cases hs.symm.trans hstands.outer
    · exact absurd (hstands.count_eq (by decide)) (List.count_pos_iff.2 hmem).ne'
  by_cases hdrive : ∃ x ∈ w.drives m, ∃ r, x.2 = some (.serve a r)
  · obtain ⟨x, hx, r, hxr⟩ := hdrive
    obtain hpos | ⟨b, s, hd, hlook⟩ | ⟨f, -, hd⟩ :=
      World.origin_of_drives (hxr ▸ World.drives_of_mem hx) (requestsIn es)
    · exact absurd (hl.not_owed hb r) hpos.ne'
    · cases hd
      obtain ⟨hstate, hqueue, hanswers⟩ := h.flushes_of_looks hw hlook hs
      have hnone : m.request? = none := by
        cases hlook
        rfl
      refine ⟨[r], hstate, hframe, ?_, fun r' hr' => List.mem_singleton.1 hr' ▸ hanswers⟩
      rw [World.issued_eq hnone, hqueue]
      exact List.append_nil _
    · cases hd
  · have hnot : ∀ x ∈ w.drives m, ∀ r, x.2 ≠ some (.serve a r) :=
      fun x hx r hr => hdrive ⟨x, hx, r, hr⟩
    refine ⟨[], (h.state_eq hw.backed hp.allocated' hnot).trans hs, hframe, ?_, nofun⟩
    cases hreq : m.request? with
    | none =>
      rcases h.asyncGenerator_eq hw.backed hreq hnot with heq | ⟨hle, -⟩
      · rw [World.issued_eq hreq, heq]
        exact List.append_nil _
      · exact absurd hp.allocated' (Nat.not_lt_of_le hle)
    | some x =>
      obtain ⟨b, c⟩ := x
      rw [h.asyncGenerator_request hreq a]
      cases m with
      | perform op =>
        have hop : op.request? = some (b, c) := hreq
        have hissued : w.issued [] (.perform op) = [(b, ⟨c, w.config.engine.newPromise.1⟩)] := by
          simp only [World.issued, Op.issued, hop, List.nil_append]
        rw [hissued]
        by_cases hab : a = b
        · subst hab
          simp [requestsOf]
        · simp [requestsOf, hab, Ne.symm hab]
      | _ => cases hreq

/-- A new async generator has not been entered. -/
theorem Step.state_made (h : Step w m w') (hmake : (a, g) ∈ w.makes m) :
    (w'.config.engine.asyncGenerator a).state = .suspendedStart := by
  obtain ⟨f, rfl, rfl, rfl⟩ := World.of_makes hmake
  cases h with
  | @perform e a prompt held op hop =>
    exact congrArg AsyncGenerator.state ((Store.get_push e.asyncGenerators _ _).trans (if_pos rfl))

end Steps

/-! ## Runs that leave an async generator alone -/

section Runs

variable {es later earlier : List (Event H)} {v w w' : World H} {a : AsyncGeneratorRef}
  {g : GeneratorRef}

theorem LeftAlone.tail {ev : Event H} (h : LeftAlone a g (ev :: es)) : LeftAlone a g es where
  requests x hx hhost :=
    h.requests x (ev.before.subset_issued ev.move (requestsIn es) hx) (.earlier hhost)
  inside ev hev := h.inside ev (List.mem_cons_of_mem _ hev)

theorem LeftAlone.before (h : LeftAlone a g (later ++ earlier)) : LeftAlone a g earlier := by
  induction later with
  | nil => exact h
  | cons ev later ih => exact ih h.tail

/-- **What an async generator waits for** along a run, while it waits for its final result. -/
theorem Run.returning (h : Run es w) (hes : LeftAlone a g es) (hmade : (a, g) ∈ madeIn es)
    (hs : (w.config.engine.asyncGenerator a).state = .awaitingReturn) : w.Returning a g es := by
  induction h with
  | refl => cases hmade
  | @step es w₁ w₂ m h hstep ih =>
    have hpaired := Run.paired h hes.tail.inside
    have hw := Run.orderly h hes.tail.requests
    have hl := Run.exclusive h
    rcases List.mem_append.1 hmade with hmade | hmade
    · cases (hstep.state_made hmade).symm.trans hs
    · have hp := hpaired.paired hmade
      by_cases hdone : (w₁.config.engine.asyncGenerator a).state = .completed
      · obtain ⟨served, hflushes⟩ := hstep.flushes hw hl hp hdone
        cases hflushes.state.symm.trans hs
      · exact hstep.returning hw hl hp (Run.inside h) (Run.lawful h) (Run.single h)
          (hes.inside _ List.mem_cons_self) hdone (ih hes.tail hmade) hs

theorem World.Answered.persists {ev : Event H} {r : Request} {o : Outcome} (h : w.Answered es r o)
    (hp : (w.config.engine.promise r.capability).Persists
      (w'.config.engine.promise r.capability)) : w'.Answered (ev :: es) r o := by
  obtain ⟨later, m, v, earlier, u, rfl, hstep, hanswers, hsame⟩ := h
  have hsettled := hp.settled (hsame ▸ hanswers.tells.settled)
  exact ⟨ev :: later, m, v, earlier, u, rfl, hstep, hanswers, hsettled.trans hsame⟩

/-- **Once an async generator is completed**, it stays so. -/
theorem Run.finished (hv : Run earlier v) (h : Steps v later w)
    (hes : LeftAlone a g (later ++ earlier)) (hmade : (a, g) ∈ madeIn earlier)
    (hs : (v.config.engine.asyncGenerator a).state = .completed) : v.Finished later w a g := by
  induction h with
  | refl =>
    obtain ⟨served, flight, -, -, -, -, -, hflushed⟩ := Run.requests hv hes.before.requests a
    refine ⟨hs, rfl, ⟨[], List.append_nil _, nofun⟩, fun hhost => hflushed hhost ?_⟩
    rw [hs]
    rfl
  | @step later w₁ w₂ m h hstep ih =>
    obtain ⟨hstate, hframe, ⟨served, hqueue, hanswered⟩, -⟩ := ih hes.tail
    have hrun : Run (later ++ earlier) w₁ := hv.trans h
    have hw := Run.orderly hrun hes.tail.requests
    have hmade' : (a, g) ∈ madeIn (later ++ earlier) := by
      rw [madeIn, List.flatMap_append]
      exact List.mem_append_right _ hmade
    obtain ⟨now, hflushes⟩ := hstep.flushes hw (Run.exclusive hrun)
      ((Run.paired hrun hes.tail.inside).paired hmade') hstate
    obtain ⟨-, -, -, -, -, -, -, hflushed⟩ := Run.requests (hrun.step hstep) hes.requests a
    refine ⟨hflushes.state, ?_, ⟨served ++ now, ?_, fun r hr => ?_⟩, fun hhost => hflushed hhost ?_⟩
    · rw [frameLog, hframe, hflushes.frame]
      rfl
    · rw [requestsIn, requestsOf_issued, ← List.append_assoc, hqueue, List.append_assoc,
        hflushes.queue, List.append_assoc]
    · rcases List.mem_append.1 hr with hr | hr
      · exact (hanswered r hr).persists ((hstep.lawful (Run.lawful hrun)).2 r.capability)
      · exact ⟨[], m, w₁, later, w₂, rfl, hstep, hflushes.answers r hr, rfl⟩
    · rw [hflushes.state]
      rfl

/-- **The completion of an async generator is final**, on every run that leaves it alone, even
when jobs are dropped and steps abandoned. Once it is completed, it stays completed, its frame is
not resumed again, and the requests in the queue and all later ones are answered in order with
`undefined`. And it becomes completed only with a request whose step has returned or thrown,
which is to throw or to return before the frame is entered, and whose own promise, pending until
then, is settled with that outcome. -/
theorem Run.completion_final (h : Run es w) (hes : LeftAlone a g es) :
    (∀ later earlier v, es = later ++ earlier → Run earlier v → Steps v later w →
      (a, g) ∈ madeIn earlier → (v.config.engine.asyncGenerator a).state = .completed →
      v.Finished later w a g) ∧
    ∀ later m v earlier u, es = later ++ ⟨v, m⟩ :: earlier → Step v m u →
      (a, g) ∈ madeIn earlier → (v.config.engine.asyncGenerator a).state ≠ .completed →
      (u.config.engine.asyncGenerator a).state = .completed →
      ∃ r o, v.Completes m a g earlier r o ∧ v.Answers u r o := by
  refine ⟨fun later earlier v heq hv hlater hmade hs => ?_,
    fun later m v earlier u heq hstep hmade hs hs' => ?_⟩
  · subst heq
    exact hv.finished hlater hes hmade hs
  · subst heq
    obtain ⟨-, hv, -, -⟩ := h.split
    have hes' : LeftAlone a g earlier := hes.before.tail
    obtain ⟨r, o, hcompletes, hpending, htells⟩ :=
      hstep.completes (Run.orderly hv hes'.requests) (Run.exclusive hv)
        ((Run.paired hv hes'.inside).paired hmade) (Run.inside hv) hs (Run.returning hv hes' hmade) hs'
    exact ⟨r, o, hcompletes, hpending, htells⟩

end Runs

/-- Moves with which a request is made of an async generator from inside its own frame. -/
def World.askingInside : List (Move Unit) :=
  [.perform (.newAsyncGenerator (.host ())), .perform (.request ⟨0⟩ (.normal .undefined)), .tick,
    .tick, .perform (.request ⟨0⟩ (.normal .undefined)), .tick, .tick]

/-- The frame returns then. It completes the async generator with the first request, and the
second one is answered with `undefined` next. -/
theorem Run.completion_final_returned :
    let v := ({} : World Unit).after World.askingInside
    let m : Move Unit := .finishFrame (.returned .undefined) ()
    let u := v.after [m]
    let w := u.after [.tick, .tick, .tick]
    (∃ earlier r o, v.Completes m ⟨0⟩ ⟨0⟩ earlier r o ∧ v.Answers u r o) ∧
      ∃ later, w.Answered later ⟨.normal .undefined, ⟨1⟩⟩ (.returned .undefined) := by
  intro v m u w
  let earlier := ({} : World Unit).events World.askingInside
  let later := u.events [.tick, .tick, .tick]
  have hv : Run earlier v := World.steps_after (by decide +kernel)
  have hstep : Step v m u := .of_next rfl
  have hw : Steps u later w := World.steps_after (by decide +kernel)
  have hrun : Run (later ++ ⟨v, m⟩ :: earlier) w := (hv.step hstep).trans hw
  have hreach : ∀ ev ∈ later ++ ⟨v, m⟩ :: earlier, ⟨0⟩ ∈ ev.before.reaches ev.move →
      ev.move.request?.map Prod.fst = some ⟨0⟩ := by decide +kernel
  have hnamed : ∀ ev ∈ later ++ ⟨v, m⟩ :: earlier, ev.move.settles = [] ∧ ev.move.entrusts = [] := by
    decide +kernel
  have hes : LeftAlone ⟨0⟩ ⟨0⟩ (later ++ ⟨v, m⟩ :: earlier) := by
    refine ⟨fun x _ => not_hostSettles hnamed x.2.capability, fun ev hev hr => ?_⟩
    obtain ⟨⟨a, c⟩, hc, rfl⟩ := Option.map_eq_some_iff.1 (hreach ev hev hr)
    exact ⟨c, hc⟩
  obtain ⟨hfinished, hcompletes⟩ := Run.completion_final hrun hes
  have hmade : (⟨0⟩, ⟨0⟩) ∈ madeIn earlier := by decide +kernel
  obtain ⟨r, o, hends⟩ := hcompletes later m v earlier u rfl hstep hmade (by decide +kernel)
    (by decide +kernel)
  obtain ⟨-, -, ⟨served, hserved, hanswered⟩, hflushed⟩ := hfinished later (⟨v, m⟩ :: earlier) u rfl
    (hv.step hstep) hw (List.mem_append_right _ hmade) (by decide +kernel)
  refine ⟨⟨earlier, r, o, hends⟩, later, hanswered _ ?_⟩
  rw [hflushed (by decide +kernel), List.append_nil] at hserved
  have hqueue : (u.config.engine.asyncGenerator ⟨0⟩).queue ++ requestsOf ⟨0⟩ (requestsIn later) =
      [⟨.normal .undefined, ⟨1⟩⟩] := by decide +kernel
  rw [← hserved, hqueue]
  exact List.mem_cons_self

end Microtask
