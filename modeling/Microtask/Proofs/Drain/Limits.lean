import Mathlib.Algebra.Ring.Nat
import Microtask.Proofs.Drain.Course

/-!
# Drains under limits

A drain that stops at its limit has done what a drain without a limit does up to there,
and the next drain goes on where it stopped. So drains under limits, one after the other
until one returns a count, come to the same end as one drain without a limit
(`Drained.resumed`).

The proof runs both side by side. Within a drain the two engines differ in the limit
only, and the two control stacks only in the loop of the drain (`World.under`). Where
the drain under a limit stops, the host begins the next one.
-/

namespace Microtask

variable {H : Type}

/-! ## Drains and what the host does in them -/

/-- The limit is set. -/
def World.limited (w : World H) (limit : Option Nat) : World H :=
  ⟨⟨{ w.config.engine with limit }, w.config.control⟩, w.held⟩

/-- The activation has the floor, sets the limit, and runs a drain to its end. -/
structure Drained (h : Activation H) (limit : Option Nat) (w : World H) (es : List (Event H))
    (result : Except EngineError Nat) (w' : World H) : Prop where
  floor : ∃ prompt, w.config.control = .host h prompt
  idle : w.config.engine.draining = false
  steps : Steps ((w.limited limit).drainBegun h) es w'
  underway : ∀ ev ∈ es, ev.before.config.engine.draining = true
  ended : w'.config.engine.draining = false
  answer : w'.config.control = .host h (.answered (.drained result))

/-- The host gets such a drain by setting the limit and then asking for a drain. -/
theorem Drained.exists_steps {h : Activation H} {limit : Option Nat} {w w' : World H}
    {es : List (Event H)} {result : Except EngineError Nat} (hd : Drained h limit w es result w') :
    ∃ opening, Steps w (es ++ opening) w' ∧
      opening.map (·.move) = [.perform .runJobs, .perform (.setLimit limit)] := by
  obtain ⟨⟨e, control⟩, held⟩ := w
  obtain ⟨prompt, hfloor⟩ := hd.floor
  cases hfloor
  have hset : Step ⟨⟨e, .host h prompt⟩, held⟩ (.perform (.setLimit limit))
      ⟨⟨{ e with limit }, .host h (.answered .done)⟩, held⟩ :=
    .perform ⟨fun _ hf => (by cases hf), fun _ hj => (by cases hj)⟩
  have hrun : Step ⟨⟨{ e with limit }, .host h (.answered .done)⟩, held⟩ (.perform .runJobs)
      (World.drainBegun ⟨⟨{ e with limit }, .host h prompt⟩, held⟩ h) := by
    have hbegun : ({ e with limit } : Engine H).perform h .runJobs =
        (World.drainBegun ⟨⟨{ e with limit }, .host h prompt⟩, held⟩ h).config := by
      simp only [Engine.perform, Engine.runJobs, show e.draining = false from hd.idle]
      rfl
    have hstep : Step ⟨⟨{ e with limit }, .host h (.answered .done)⟩, held⟩ (.perform .runJobs)
        ⟨({ e with limit } : Engine H).perform h .runJobs, held⟩ :=
      .perform ⟨fun _ hf => (by cases hf), fun _ hj => (by cases hj)⟩
    rw [hbegun] at hstep
    exact hstep
  exact ⟨_, (Steps.step (.step .refl hset) hrun).trans hd.steps, rfl⟩

/-- What the host is told when it has the floor, and what it does then. -/
def Event.turn? (ev : Event H) : Option (Prompt H × Move H) :=
  match ev.before.config.control with
  | .host _ prompt => some (prompt, ev.move)
  | _ => none

/-- All that the host is told and does, in order. -/
def turnsIn : List (Event H) → List (Prompt H × Move H)
  | [] => []
  | ev :: es => turnsIn es ++ ev.turn?.toList

/-- Drains under the first limits have stopped at them, one after the other. -/
inductive Interrupted (h : Activation H) (limits : Nat → Nat) (w : World H) :
    Nat → World H → List (Event H) → Prop where
  | start : Interrupted h limits w 0 w []
  | next {i : Nat} {v v' : World H} {es es' : List (Event H)} :
      Interrupted h limits w i v es →
      Drained h (some (limits i)) v es' (.error (.infiniteLoop (limits i))) v' →
      Interrupted h limits w (i + 1) v' (es' ++ es)

/-! ## The same course -/

/-- The same jobs are started, and the host is told and does the same. -/
structure SameCourse (es es' : List (Event H)) : Prop where
  started : startedIn es = startedIn es'
  turns : turnsIn es = turnsIn es'

namespace SameCourse

variable {es es' : List (Event H)}

theorem cons (h : SameCourse es es') {ev ev' : Event H}
    (hs : ev.before.starts ev.move = ev'.before.starts ev'.move) (ht : ev.turn? = ev'.turn?) :
    SameCourse (ev :: es) (ev' :: es') :=
  ⟨by rw [startedIn, startedIn, h.started, hs], by rw [turnsIn, turnsIn, h.turns, ht]⟩

/-- An event in which nothing is started and the host does not have the floor. -/
theorem quiet (h : SameCourse es es') {ev : Event H} (hs : ev.before.starts ev.move = [])
    (ht : ev.turn? = none) : SameCourse (ev :: es) es' :=
  ⟨by rw [startedIn, h.started, hs, List.append_nil], by rw [turnsIn, h.turns, ht]; simp⟩

end SameCourse

/-! ## Side by side -/

/-- A drain under limits that has come as far as the drain without a limit, which is in
the given world after the events. -/
structure Pace (h : Activation H) (limits : Nat → Nat) (w₀ : World H) (es : List (Event H))
    (w : World H) (i m : Nat) (v : World H) (es₁ es₂ : List (Event H)) : Prop where
  interrupted : Interrupted h limits w₀ i v es₁
  floor : ∃ prompt, v.config.control = .host h prompt
  idle : v.config.engine.draining = false
  steps : Steps ((v.limited (some (limits i))).drainBegun h) es₂
    (w.under (some (limits i)) (.loop (some (limits i)) m h))
  underway : ∀ ev ∈ es₂, ev.before.config.engine.draining = true
  within : m ≤ limits i
  course : SameCourse (es₂ ++ es₁) es
  count : ((List.range i).map limits).sum + m = (startedIn es).length

section Moves

variable {w w' : World H} {mv : Move H}

theorem Step.under (hs : Step w mv w') (hm : w.Stays mv) (hl : mv.limits = false)
    (x : Option Nat) (d : Drain H) : Step (w.under x d) mv (w'.under x d) := by
  have := hs.under_aux hm hl x d
  rwa [← hs.draining hm] at this

theorem World.turn?_under (x : Option Nat) (d : Drain H) :
    (⟨w.under x d, mv⟩ : Event H).turn? = (⟨w, mv⟩ : Event H).turn? := by
  obtain ⟨⟨e, control⟩, held⟩ := w
  cases control <;> rfl

/-- Replacing the drain leaves a move that stays within it one that stays. -/
theorem World.Stays.under (hm : w.Stays mv) (x : Option Nat) (d : Drain H) :
    (w.under x d).Stays mv := by
  cases mv with
  | tick =>
    intro d' hd
    obtain ⟨⟨e, control⟩, held⟩ := w
    cases control with
    | drain d => exact hm d rfl
    | _ => cases hd
  | _ => exact hm

end Moves

namespace Pace

variable {h : Activation H} {limits : Nat → Nat} {w₀ w v : World H} {es es₁ es₂ : List (Event H)}
  {i m : Nat}

theorem start (hfloor : ∃ prompt, w₀.config.control = .host h prompt)
    (hidle : w₀.config.engine.draining = false) (limits : Nat → Nat) :
    Pace h limits w₀ [] ((w₀.limited none).drainBegun h) 0 0 w₀ [] [] where
  interrupted := .start
  floor := hfloor
  idle := hidle
  steps := .refl
  underway _ hev := by cases hev
  within := Nat.zero_le _
  course := ⟨rfl, rfl⟩
  count := rfl

theorem underway_cons (hp : Pace h limits w₀ es w i m v es₁ es₂) (mv : Move H)
    (hw : w.config.engine.draining = true) :
    ∀ ev ∈ (⟨w.under (some (limits i)) (.loop (some (limits i)) m h), mv⟩ : Event H) :: es₂,
      ev.before.config.engine.draining = true :=
  List.forall_mem_cons.2 ⟨hw, hp.underway⟩

/-- A move within the drain is the same on both sides. -/
theorem stays (hp : Pace h limits w₀ es w i m v es₁ es₂) {w' : World H} {mv : Move H}
    (hs : Step w mv w') (hm : w.Stays mv) (hl : mv.limits = false)
    (hw : w.config.engine.draining = true) :
    Pace h limits w₀ (⟨w, mv⟩ :: es) w' i m v es₁
      (⟨w.under (some (limits i)) (.loop (some (limits i)) m h), mv⟩ :: es₂) where
  interrupted := hp.interrupted
  floor := hp.floor
  idle := hp.idle
  steps := hp.steps.step (hs.under hm hl _ _)
  underway := hp.underway_cons mv hw
  within := hp.within
  course := by
    refine hp.course.cons ?_ (World.turn?_under _ _)
    rw [World.starts_of_stays hm, World.starts_of_stays (hm.under _ _)]
  count := by rw [startedIn, World.starts_of_stays hm, List.append_nil, hp.count]

section Rounds

variable {e : Engine H} {held : List (Job H)} {n : Nat}

/-- A round that runs a job below the limit is the same on both sides. -/
theorem pop (hp : Pace h limits w₀ es ⟨⟨e, .drain (.loop none n h)⟩, held⟩ i m v es₁ es₂)
    (hm : m < limits i) (hw : e.draining = true) {id : Nat} {j : Job H} {jobs : JobQueue (Job H)}
    (hpop : e.jobs.pop? = some ((id, j), jobs)) :
    ∃ es₂', Pace h limits w₀ (⟨⟨⟨e, .drain (.loop none n h)⟩, held⟩, .tick⟩ :: es)
      ⟨e.drainRound (.loop none n h), held⟩ i (m + 1) v es₁ es₂' := by
  have hlt : ∀ L ∈ some (limits i), m < L := fun L hL => by rwa [← Option.some.inj hL]
  have hnone : ∀ L ∈ (none : Option Nat), n < L := fun L hL => by cases hL
  -- on both sides the same job runs, above one more round
  have hround : (⟨e.drainRound (.loop none n h), held⟩ : World H).under (some (limits i))
        (.loop (some (limits i)) (m + 1) h) =
      ⟨(e.under e.draining (some (limits i))).drainRound (.loop (some (limits i)) m h), held⟩ := by
    rw [World.under, Engine.drainRound_pop hnone hpop, Engine.draining_runJob,
      Engine.drainRound_pop (e := e.under e.draining (some (limits i))) hlt hpop]
    exact congrArg (World.mk · held)
      (({ e with jobs } : Engine H).runJob_under e.draining (some (limits i)) _ id _ j).symm
  refine ⟨_, hp.interrupted, hp.floor, hp.idle, ?_, hp.underway_cons .tick hw, hm, ?_, ?_⟩
  · rw [hround]
    exact hp.steps.step (.tick _ _)
  · refine hp.course.cons ?_ rfl
    rw [World.starts_pop hnone hpop]
    exact World.starts_pop (e := e.under e.draining (some (limits i))) hlt hpop
  · rw [startedIn, World.starts_pop hnone hpop, List.length_append, ← hp.count]
    rfl

/-- At the limit the drain stops, and the host begins the next one. -/
theorem restart
    (hp : Pace h limits w₀ es ⟨⟨e, .drain (.loop none n h)⟩, held⟩ i (limits i) v es₁ es₂)
    (hw : e.draining = true) (hne : e.jobs.isEmpty = false) :
    ∃ v' es₁', Pace h limits w₀ es ⟨⟨e, .drain (.loop none n h)⟩, held⟩ (i + 1) 0 v' es₁' [] := by
  have hround := Engine.drainRound_limited (e := e.under e.draining (some (limits i))) (h := h) hne
    (Nat.le_refl (limits i))
  have hstep := hp.steps.step (.tick _ _)
  have hdrained : Drained h (some (limits i)) v _ (.error (.infiniteLoop (limits i)))
      ⟨(e.under e.draining (some (limits i))).drainRound
        (.loop (some (limits i)) (limits i) h), held⟩ :=
    ⟨hp.floor, hp.idle, hstep, hp.underway_cons .tick hw, by rw [hround], by rw [hround]⟩
  rw [hround] at hdrained
  refine ⟨_, _, hp.interrupted.next hdrained, ⟨_, rfl⟩, rfl, ?_, fun _ hev => (by cases hev),
    Nat.zero_le _, ?_, ?_⟩
  · have hbegun : (⟨⟨e, .drain (.loop none n h)⟩, held⟩ : World H).under
          (some (limits (i + 1))) (.loop (some (limits (i + 1))) 0 h) =
        World.drainBegun (World.limited
          ⟨⟨{ e.under e.draining (some (limits i)) with draining := false },
            .host h (.answered (.drained (.error (.infiniteLoop (limits i)))))⟩, held⟩
          (some (limits (i + 1)))) h := by
      simp only [World.under, Config.under, hw]
      rfl
    rw [hbegun]
    exact .refl
  · have hnone : World.starts ⟨⟨e.under e.draining (some (limits i)),
        .drain (.loop (some (limits i)) (limits i) h)⟩, held⟩ .tick = [] :=
      World.starts_limited (e := e.under e.draining (some (limits i))) hne (Nat.le_refl (limits i))
    exact hp.course.quiet hnone rfl
  · rw [List.range_succ, List.map_append, List.sum_append, ← hp.count]
    simp

/-- The last round is the same on both sides. -/
theorem finish (hp : Pace h limits w₀ es ⟨⟨e, .drain (.loop none n h)⟩, held⟩ i m v es₁ es₂)
    (hw : e.draining = true) (hempty : e.jobs.isEmpty = true) :
    ∃ es₂', SameCourse (es₂' ++ es₁) (⟨⟨⟨e, .drain (.loop none n h)⟩, held⟩, .tick⟩ :: es) ∧
      Drained h (some (limits i)) v es₂' (.ok m)
        ⟨⟨{ (e.drainRound (.loop none n h)).engine with limit := some (limits i) },
          .host h (.answered (.drained (.ok m)))⟩, held⟩ := by
  have hround : (e.under e.draining (some (limits i))).drainRound (.loop (some (limits i)) m h) =
      ⟨{ (e.drainRound (.loop none n h)).engine with limit := some (limits i) },
        .host h (.answered (.drained (.ok m)))⟩ := by
    rw [Engine.drainRound_empty hempty,
      Engine.drainRound_empty (e := e.under e.draining (some (limits i))) hempty]
    exact congrArg (Config.mk · _)
      (Engine.reportUnhandled_under { e with draining := false } false (some (limits i)))
  refine ⟨_, hp.course.cons ?_ ?_, hp.floor, hp.idle, ?_, hp.underway_cons .tick hw, ?_, rfl⟩
  · rw [World.starts_empty hempty]
    exact World.starts_empty (e := e.under e.draining (some (limits i))) hempty
  · rfl
  · rw [← hround]
    exact hp.steps.step (.tick _ _)
  · rw [Engine.drainRound_empty hempty]
    rfl

end Rounds

end Pace

/-! ## Runs -/

section Runs

variable {h : Activation H} {w₀ w w' : World H} {es : List (Event H)} {mv : Move H}

/-- A move of a drain without a limit stays within it, or runs the next job, or is the
last round. -/
theorem Drain.Course.moves {n : Nat} (hc : Drain.Course none h n w.config)
    (hw : w.config.engine.draining = true) (hs : Step w mv w') :
    w.Stays mv ∨ mv = .abandon ∨ ∃ e held, w = ⟨⟨e, .drain (.loop none n h)⟩, held⟩ ∧
      mv = .tick ∧ w' = ⟨e.drainRound (.loop none n h), held⟩ ∧
      ((∃ id j jobs, e.jobs.pop? = some ((id, j), jobs)) ∨ e.jobs.isEmpty = true) := by
  obtain hm | ⟨rfl, d, hround⟩ | ⟨rfl, hidle⟩ | rfl := w.stays_or mv
  · exact .inl hm
  · cases hs with
    | tick c held =>
      obtain ⟨e, control⟩ := c
      cases hround
      cases (hc.of_draining hw).1
      refine .inr (.inr ⟨e, held, rfl, rfl, rfl, ?_⟩)
      obtain ⟨L, hL, -⟩ | ⟨id, j, jobs, hpop, -⟩ | hempty := e.drain_cases none n
      · cases hL
      · exact .inl ⟨id, j, jobs, hpop⟩
      · exact .inr hempty
  · exact absurd (hidle.symm.trans hw) Bool.false_ne_true
  · exact .inr (.inl rfl)

variable {limits : Nat → Nat}

/-- Drains under limits keep pace with the drain without a limit. -/
theorem Steps.pace (hs : Steps ((w₀.limited none).drainBegun h) es w)
    (hfloor : ∃ prompt, w₀.config.control = .host h prompt)
    (hidle : w₀.config.engine.draining = false) (hlimits : ∀ i, 1 ≤ limits i)
    (hes : ∀ ev ∈ es, ev.before.config.engine.draining = true)
    (hl : ∀ ev ∈ es, ev.move.limits = false) (hw : w.config.engine.draining = true) :
    ∃ i m v es₁ es₂, Pace h limits w₀ es w i m v es₁ es₂ := by
  induction hs with
  | refl => exact ⟨0, 0, w₀, [], [], .start hfloor hidle limits⟩
  | @step es w₁ w₂ mv hsteps hs ih =>
    obtain ⟨hw₁, hes⟩ := List.forall_mem_cons.1 hes
    obtain ⟨hmv, hl⟩ := List.forall_mem_cons.1 hl
    obtain ⟨i, m, v, es₁, es₂, hp⟩ := ih hes hl hw₁
    obtain hm | rfl | ⟨e, held, rfl, rfl, rfl, ⟨id, j, jobs, hpop⟩ | hempty⟩ :=
      (hsteps.course hes).moves hw₁ hs
    · exact ⟨i, m, v, es₁, _, hp.stays hs hm hmv hw₁⟩
    · cases hs with
      | abandon => cases hw
    · obtain hlt | rfl := Nat.lt_or_eq_of_le hp.within
      · obtain ⟨es₂', hp'⟩ := hp.pop hlt hw₁ hpop
        exact ⟨_, _, _, _, _, hp'⟩
      · obtain ⟨v', es₁', hp'⟩ := hp.restart hw₁ (JobQueue.isEmpty_of_pop hpop)
        obtain ⟨es₂', hp''⟩ := hp'.pop (hlimits (i + 1)) hw₁ hpop
        exact ⟨_, _, _, _, _, hp''⟩
    · rw [Engine.drainRound_empty hempty] at hw
      cases hw

/-- **Drains under limits compose to the drain without a limit.** Whatever limits of at
least 1 are set between them, some number of drains stop at their limits and the next
one returns a count. Together they start the same jobs in the same order, the host is
told and does the same in them, and they leave the same engine, up to the limit. The
numbers of jobs add up. -/
theorem Drained.resumed {n : Nat} (hd : Drained h none w₀ es (.ok n) w')
    (hl : ∀ ev ∈ es, ev.move.limits = false) (hlimits : ∀ i, 1 ≤ limits i) :
    ∃ i v m es₁ es₂,
      Interrupted h limits w₀ i v es₁ ∧
      Drained h (some (limits i)) v es₂ (.ok m)
        ⟨⟨{ w'.config.engine with limit := some (limits i) },
          .host h (.answered (.drained (.ok m)))⟩, w'.held⟩ ∧
      startedIn (es₂ ++ es₁) = startedIn es ∧ turnsIn (es₂ ++ es₁) = turnsIn es ∧
      ((List.range i).map limits).sum + m = n := by
  cases hd.steps with
  | refl => exact absurd (hd.ended.symm.trans rfl) Bool.false_ne_true
  | @step es w₁ w₂ mv hsteps hs =>
    obtain ⟨hw₁, hes⟩ := List.forall_mem_cons.1 hd.underway
    obtain ⟨hmv, hl⟩ := List.forall_mem_cons.1 hl
    obtain ⟨i, m, v, es₁, es₂, hp⟩ := hsteps.pace hd.floor hd.idle hlimits hes hl hw₁
    obtain hm | rfl | ⟨e, held, rfl, rfl, rfl, ⟨id, j, jobs, hpop⟩ | hempty⟩ :=
      (hsteps.course hes).moves hw₁ hs
    · exact absurd (hd.ended.symm.trans ((hs.draining hm).trans hw₁)) Bool.false_ne_true
    · cases hs with
      | abandon => cases hd.answer
    · have hended := hd.ended
      rw [Engine.drainRound_pop (fun _ hL => by cases hL) hpop, Engine.draining_runJob] at hended
      exact absurd (hended.symm.trans hw₁) Bool.false_ne_true
    · obtain ⟨es₂', hsame, hlast⟩ := hp.finish hw₁ hempty
      refine ⟨i, v, m, es₁, es₂', hp.interrupted, hlast, hsame.started, hsame.turns, ?_⟩
      have hanswer := hd.answer
      rw [Engine.drainRound_empty hempty] at hanswer
      cases hanswer
      exact hp.count

end Runs

/-- Two jobs wait, and one runs in each of two drains. -/
theorem Drained.resumed_twice :
    ∃ (w₀ w' : World Unit) (es : List (Event Unit)), Drained .main none w₀ es (.ok 2) w' ∧
      (∀ ev ∈ es, ev.move.limits = false) ∧ (∀ _ : Nat, 1 ≤ 1) ∧
      ∃ i v m es₁ es₂, Interrupted .main (fun _ => 1) w₀ i v es₁ ∧
        Drained .main (some 1) v es₂ (.ok m)
          ⟨⟨{ w'.config.engine with limit := some 1 },
            .host .main (.answered (.drained (.ok m)))⟩, w'.held⟩ ∧
        startedIn (es₂ ++ es₁) = startedIn es ∧ turnsIn (es₂ ++ es₁) = turnsIn es ∧
        ((List.range i).map fun _ => 1).sum + m = 2 := by
  let job : Job Unit := .callback "job" ()
  let w₀ : World Unit := ⟨⟨(({} : Engine Unit).enqueue job).enqueue job, .host .main .outside⟩, []⟩
  have h₁ := (Steps.refl (w := (w₀.limited none).drainBegun .main)).step (.tick _ _)
  have h₂ := h₁.step (.finishJob (.ok ()))
  have h₃ := h₂.step (.tick _ _)
  have h₄ := h₃.step (.finishJob (.ok ()))
  have h₅ := h₄.step (.tick _ _)
  have hd : Drained .main none w₀ _ (.ok 2) _ :=
    ⟨⟨_, rfl⟩, rfl, h₅, by
      simp only [List.forall_mem_cons]
      exact ⟨rfl, rfl, rfl, rfl, rfl, fun _ hev => by cases hev⟩, rfl, rfl⟩
  refine ⟨w₀, _, _, hd, (fun hl => ⟨hl, fun _ => Nat.le_refl 1,
    hd.resumed hl fun _ => Nat.le_refl 1⟩) ?_⟩
  simp only [List.forall_mem_cons]
  exact ⟨rfl, rfl, rfl, rfl, rfl, fun _ hev => by cases hev⟩

end Microtask
