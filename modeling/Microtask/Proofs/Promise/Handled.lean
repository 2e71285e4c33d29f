import Microtask.Proofs.Promise.Transparent

/-!
# What handlers make of a settlement

A promise that `then` answers with is open until the job of its registration is run
(`Step.fires`). The job calls the handler for the settlement, and the promise stays open until
the handler is done. Then the result of the handler decides about it, and without a handler the
settlement itself does (`Engine.Decides`). Every step keeps the promise in its stage or takes it
to the next one (`Step.responds`), so that one handler is called at most, and once.

Main statement: `Run.then_outcome`.
-/

namespace Microtask

variable {H : Type}

/-! ## Decisions -/

namespace Engine

/-- What the result of a function makes of a promise that is open. -/
inductive Decides (e : Engine H) (p : PromiseRef) (e' : Engine H) :
    Except Failure Value → Prop where
  | fulfills {v : Value} : (∀ q, v ≠ .promise q) → (e'.promise p).state = .fulfilled v →
      Decides e p e' (.ok v)
  | adopts {q : PromiseRef} : ¬ Relation.ReflTransGen e.Follows q p → e.Adopts p q e' →
      Decides e p e' (.ok (.promise q))
  /-- The promise would wait for itself. -/
  | refuses {q : PromiseRef} : Relation.ReflTransGen e.Follows q p → e.Refuses p e' →
      Decides e p e' (.ok (.promise q))
  | throws {failure : Failure} {v : Value} : failure.thrown? = some v →
      (e'.promise p).state = .rejected v → Decides e p e' (.error failure)
  /-- An engine error becomes an error object. -/
  | fails {error : EngineError} : (Failure.engine error).thrown? = none →
      (e'.promise p).state = .rejected (.object ⟨e.objects.size⟩) →
      e'.object ⟨e.objects.size⟩ = .error error.constructorName (e.errorMessage error) →
      Decides e p e' (.error (.engine error))

variable {e : Engine H} {p : PromiseRef}

theorem errorValue_of_not_thrown {error : EngineError}
    (h : (Failure.engine error).thrown? = none) :
    e.errorValue error = e.newError error.constructorName (e.errorMessage error) := by
  cases error with
  | thrown v => cases h
  | _ => rfl

/-- To settle a promise is to give it the result of a function. -/
theorem settle_eq (e : Engine H) (p : PromiseRef) (kind : Settling) (v : Value) :
    e.settle p kind v = e.settleCapability (some p) (kind.result v) := by
  cases kind <;> rfl

/-- **An open promise is decided about** by the result of a function. -/
theorem decides_settleCapability (hg : e.Grounded) (hsane : ∀ x, (e.promise x).Sane)
    (hr : (e.promise p).resolved = false) (result : Except Failure Value) :
    e.Decides p (e.settleCapability (some p) result) result := by
  have hresolves := resolves_settleCapability hg hsane hr result
  cases result with
  | ok v =>
    by_cases hv : ∃ q, v = .promise q
    · obtain ⟨q, rfl⟩ := hv
      by_cases hback : Relation.ReflTransGen e.Follows q p
      · exact .refuses hback (resolve_refuses hr (hsane p) hg (hg.closesCycle_iff.2 hback))
      · have hcycle : e.closesCycle p q = false := by
          rw [← hg.closesCycle_iff] at hback
          exact Bool.not_eq_true _ ▸ hback
        exact .adopts hback (resolve_adopts hr (hsane p) hg hcycle)
    · push Not at hv
      exact .fulfills hv (hresolves.state fun _ => hv)
  | error failure =>
    cases ht : failure.thrown? with
    | some v =>
      have hvalue : (e.failureValue failure).1 = v := by
        cases failure with
        | thrown u => exact Option.some.inj ht
        | engine error =>
          cases error with
          | thrown u => exact Option.some.inj ht
          | _ => cases ht
      refine .throws ht ?_
      rw [← hvalue]
      exact hresolves.state_reject
    | none =>
      cases failure with
      | thrown u => cases ht
      | engine error =>
        have hvalue : e.failureValue (.engine error) =
            e.newError error.constructorName (e.errorMessage error) := errorValue_of_not_thrown ht
        refine .fails ht ?_ ?_
        · have hstate := hresolves.state_reject
          rw [upshot, hvalue] at hstate
          exact hstate
        · let e₁ := (e.newError error.constructorName (e.errorMessage error)).2
          have hr₁ : (e₁.promise p).resolved = false := hr
          have hengine : e.settleCapability (some p) (.error (.engine error)) =
              (e₁.lock p).settleNow p .reject (.object ⟨e.objects.size⟩) := by
            have hv : Settling.reject = .fulfill →
                ∀ q, Value.object ⟨e.objects.size⟩ ≠ .promise q := nofun
            rw [← settle_of_unresolved hr₁ hv, settleCapability, hvalue]
            rfl
          rw [hengine]
          show ((e₁.lock p).settleNow p .reject _).objects.get _ = _
          rw [objects_settleNow]
          show (e.objects.push _).get e.objects.size = _
          rw [Store.get_push, if_pos rfl]

end Engine

/-! ## Calls of handlers -/

/-- The handler that is being called for a promise, and the arguments. -/
def World.handles? (w : World H) (c : PromiseRef) : Option (FunctionRef × List Value) :=
  match w.config.control with
  | .call f args k => if k.capability? = some c then some (f, args) else none
  | _ => none

/-- The result of a handler that is delivered for a promise. -/
def World.handled? (w : World H) (c : PromiseRef) : Option (Except Failure Value) :=
  match w.config.control with
  | .deliver result k => if k.capability? = some c then some result else none
  | _ => none

/-- The handlers that have been called for a promise, the latest one first. -/
def handlersOf (c : PromiseRef) (es : List (Event H)) : List (FunctionRef × List Value) :=
  es.filterMap (·.before.handles? c)

/-- What they have come to. -/
def handledOf (c : PromiseRef) (es : List (Event H)) : List (Except Failure Value) :=
  es.filterMap (·.before.handled? c)

theorem Caller.capability_iff {k : Caller H} {c : PromiseRef} :
    k.capability? = some c ↔ ∃ d, k = .reaction (some c) d := by
  constructor
  · intro h
    cases k with
    | reaction capability d =>
      obtain rfl : capability = some c := h
      exact ⟨d, rfl⟩
    | _ => cases h
  · rintro ⟨d, rfl⟩
    rfl

namespace World

variable {w : World H} {c : PromiseRef}

theorem handles_iff {x : FunctionRef × List Value} :
    w.handles? c = some x ↔ ∃ d, w.config.control = .call x.1 x.2 (.reaction (some c) d) := by
  rw [handles?]
  constructor
  · intro h
    split at h
    · next f args k hc =>
      split at h
      · next hk =>
        cases h
        obtain ⟨d, rfl⟩ := Caller.capability_iff.1 hk
        exact ⟨d, hc⟩
      · cases h
    · cases h
  · rintro ⟨d, hc⟩
    rw [hc]
    exact if_pos rfl

theorem handled_iff {result : Except Failure Value} :
    w.handled? c = some result ↔
      ∃ d, w.config.control = .deliver result (.reaction (some c) d) := by
  rw [handled?]
  constructor
  · intro h
    split at h
    · next result' k hc =>
      split at h
      · next hk =>
        cases h
        obtain ⟨d, rfl⟩ := Caller.capability_iff.1 hk
        exact ⟨d, hc⟩
      · cases h
    · cases h
  · rintro ⟨d, hc⟩
    rw [hc]
    exact if_pos rfl

/-- No handler is called for the promise, and none comes back. -/
structure Silent (w : World H) (c : PromiseRef) : Prop where
  call : w.handles? c = none
  result : w.handled? c = none

/-- No caller settles the promise. -/
theorem silent_of_count (h : w.config.control.callers.countP (·.capability? = some c) = 0) :
    w.Silent c := by
  have hnone : ∀ d : Drain H, (Caller.reaction (some c) d).callers ≠ w.config.control.callers := by
    intro d hd
    exact (Caller.countP_pos c rfl).ne' (hd ▸ h)
  constructor
  · rw [Option.eq_none_iff_forall_ne_some]
    intro x hx
    obtain ⟨d, hc⟩ := handles_iff.1 hx
    exact hnone d (by rw [hc]; rfl)
  · rw [Option.eq_none_iff_forall_ne_some]
    intro x hx
    obtain ⟨d, hc⟩ := handled_iff.1 hx
    exact hnone d (by rw [hc]; rfl)

theorem Redeemed.silent {es : List (Event H)} (hw : w.Redeemed es c) : w.Silent c := by
  have hcarriers := hw.carriers
  refine silent_of_count ?_
  rw [Control.count_callers]
  rw [Ledger.carriers] at hcarriers
  exact (Nat.add_eq_zero_iff.1 hcarriers).2

end World

/-! ## Stages -/

/-- A drain has run the job. -/
def RanIn (es : List (Event H)) (j : Job H) : Prop :=
  ∃ ev ∈ es, ev.move = .tick ∧ ev.before.takes .tick = [j]

/-- In the course of some events the result has decided about the promise, which was open before,
in a step from a world like that. -/
def World.Decided (w : World H) (since : List (Event H)) (c : PromiseRef) (before : World H → Prop)
    (result : Except Failure Value) : Prop :=
  ∃ later u u' earlier, since = later ++ ⟨u, .tick⟩ :: earlier ∧ before u ∧ Step u .tick u' ∧
    Steps u' later w ∧ (u.config.engine.promise c).resolved = false ∧
    ((u.chore .tick).apply u.config.engine).Decides c u'.config.engine result

/-- The promise has settled, and a drain has run the job for that. -/
structure World.Handed (w : World H) (since : List (Event H)) (p : PromiseRef) (r : Registration)
    (kind : Settling) (v : Value) : Prop where
  settled : w.SettledAs kind p v
  ran : RanIn since (r.job kind v)

/-- What has become of a promise that `then` has answered with, which handlers have been called
for it, and what they have come to. -/
inductive World.Responds (w : World H) (es since : List (Event H)) (p : PromiseRef)
    (r : Registration) (c : PromiseRef) :
    List (FunctionRef × List Value) → List (Except Failure Value) → Prop where
  | attached : w.Attached es p r c → Responds w es since p r c [] []
  | calling {kind : Settling} {v : Value} {f : FunctionRef} {d : Drain H} :
      w.Handed since p r kind v → r.handler kind = some f → w.Derived es c →
      w.config.control = .call f [v] (.reaction (some c) d) → Responds w es since p r c [] []
  /-- The handler has not come back yet. -/
  | running {kind : Settling} {v : Value} {f : FunctionRef} {d : Drain H} :
      w.Handed since p r kind v → r.handler kind = some f → w.Derived es c →
      (Caller.reaction (some c) d).callers <:+ w.config.control.callers → w.handles? c = none →
      Responds w es since p r c [(f, [v])] []
  | returned {kind : Settling} {v : Value} {f : FunctionRef} {result : Except Failure Value} :
      w.Handed since p r kind v → r.handler kind = some f → w.Redeemed es c →
      w.Decided since c (·.handled? c = some result) result →
      Responds w es since p r c [(f, [v])] [result]
  /-- There is no handler for the settlement. -/
  | passed {kind : Settling} {v : Value} :
      w.Handed since p r kind v → r.handler kind = none → w.Redeemed es c →
      w.Decided since c (·.takes .tick = [r.job kind v]) (kind.result v) →
      w.config.engine.Resolves c kind v → Responds w es since p r c [] []

section Steps

variable {w w' : World H} {m : Move H} {es since : List (Event H)} {p c : PromiseRef}
  {r : Registration} {kind : Settling} {v : Value} {result : Except Failure Value}

theorem World.Decided.step {before : World H → Prop} (h : w.Decided since c before result)
    (hs : Step w m w') : w'.Decided (⟨w, m⟩ :: since) c before result := by
  obtain ⟨later, u, u', earlier, rfl, hu, hstep, hlater, hdecides⟩ := h
  exact ⟨⟨w, m⟩ :: later, u, u', earlier, rfl, hu, hstep, hlater.step hs, hdecides⟩

theorem World.Handed.step (h : w.Handed since p r kind v) (hs : Step w m w') (hrun : Run es w) :
    w'.Handed (⟨w, m⟩ :: since) p r kind v := by
  obtain ⟨ev, hev, hran⟩ := h.ran
  exact ⟨hs.keeps_state hrun.lawful h.settled, ev, List.mem_cons_of_mem _ hev, hran⟩

/-- **Without a handler the settlement decides** about the promise. -/
theorem Step.passes_on (h : Step w .tick w') (hrun : Run es w) (hent : ¬ Entrusted es c)
    (hw : w.Derived es c) (hcap : r.capability = some c) (hnone : r.handler kind = none)
    (htakes : w.takes .tick = [r.job kind v]) :
    w'.Redeemed (⟨w, .tick⟩ :: es) c ∧ w'.config.engine.Resolves c kind v ∧
      ((w.chore .tick).apply w.config.engine).Decides c w'.config.engine (kind.result v) := by
  have hl := (Run.exclusive hrun).lawful
  have hplaces := hw.places hent
  obtain ⟨limit, executed, a, id, jobs, hc, hpop, hnext, ht⟩ := w.pop_of_takes htakes
  let e : Engine H := { w.config.engine with jobs }
  have hg : e.Grounded := hrun.grounded.same rfl
  have hopen : (e.promise c).resolved = false := hw.unresolved
  have hw' : w' = ⟨⟨e.settle c kind v, .drain (.loop limit (executed + 1) a)⟩, w.held⟩ := by
    obtain ⟨-, rfl⟩ := h.eq_tick (by rw [Config.atHost, hc])
    rw [ht, r.runJob_job, Registration.fire, hnone, hcap]
  have hresolves : w'.config.engine.Resolves c kind v := by
    rw [hw']
    exact Engine.resolves_settle hg hrun.sane hopen kind v
  refine ⟨⟨hw.allocated.trans_le (h.grows (Run.backed hrun)).promises,
    hresolves.resolved (Run.sane (hrun.step h)), ?_⟩, hresolves, ?_⟩
  · -- the job was the only place
    have hjobs : jobCapabilityCount c w.jobs =
        jobCapabilityCount c (e.waitingJobs ++ w.held) + 1 := by
      rw [World.jobs, Engine.waitingJobs_pop hpop]
      exact List.countP_cons_of_pos (decide_eq_true hcap)
    rw [hc] at hplaces
    have hstack := a.count_callers c
    have hsettle := Ledger.carriers_settleCapability (c := c)
      (l := { w.ledger (requestsIn (⟨w, .tick⟩ :: es)) with engine := e, stack := a.duties })
      ((hl.sound.paired.even c).of_eq fun _ _ => rfl) (some c) (kind.result v)
    rw [hw', Engine.settle_eq]
    refine hsettle.trans ?_
    show w.config.engine.carriers c + jobCapabilityCount c (e.waitingJobs ++ w.held) +
      a.duties.count (.result c) = 0
    have hcallers : (Control.drain (.loop limit executed a) : Control H).callers = a.callers := rfl
    rw [hcallers] at hplaces
    omega
  · rw [hnext, Chore.apply_next hpop, hw', Engine.settle_eq]
    exact Engine.decides_settleCapability hg hrun.sane hopen _

/-- **The result of a handler decides** about the promise. -/
theorem Step.comes_back (h : Step w m w') (hrun : Run es w) (hw : w.Derived es c) {d : Drain H}
    (hc : w.config.control = .deliver result (.reaction (some c) d)) :
    m = .tick ∧
      ((w.chore .tick).apply w.config.engine).Decides c w'.config.engine result := by
  obtain ⟨hw', -⟩ := h.redeemed hrun hw hc
  obtain ⟨rfl, -⟩ := h.eq_tick (by rw [Config.atHost, hc])
  have hnothing : w.chore .tick = .nothing := by simp only [World.chore, hc]
  rw [hnothing, hw']
  exact ⟨rfl, Engine.decides_settleCapability hrun.grounded hrun.sane hw.unresolved result⟩

/-- While a handler is running, no job is there for the promise. -/
theorem World.Derived.no_job (hw : w.Derived es c) (hent : ¬ Entrusted es c) {d : Drain H}
    (hwaits : (Caller.reaction (some c) d).callers <:+ w.config.control.callers) {j : Job H}
    (hj : j ∈ w.jobs) : j.capability? ≠ some c := by
  intro hcap
  have hplaces := hw.places hent
  have hjob := World.jobCapabilityCount_pos hj hcap
  have hcaller := Caller.countP_pos (k := Caller.reaction (some c) d) c rfl
  have hle := hwaits.sublist.countP_le (p := fun k => decide (k.capability? = some c))
  omega

/-- **A handler runs until it comes back.** -/
theorem Step.runs_on (h : Step w m w') (hm : m.Lossless) (hrun : Run es w)
    (hleft : Untouched (⟨w, m⟩ :: es) c) (hw : w.Derived es c) {d : Drain H}
    (hwaits : (Caller.reaction (some c) d).callers <:+ w.config.control.callers)
    (hback : w.handled? c = none) :
    w'.Derived (⟨w, m⟩ :: es) c ∧
      (Caller.reaction (some c) d).callers <:+ w'.config.control.callers ∧
      w'.handles? c = none := by
  have hent : ¬ Entrusted es c := hleft.tail.entrusts
  have hdeliver : ∀ result d', w.config.control ≠ .deliver result (.reaction (some c) d') :=
    fun result d' hc => by cases hback.symm.trans (World.handled_iff.2 ⟨d', hc⟩)
  have hnojob : ∀ {id j jobs}, w.config.engine.jobs.pop? = some ((id, j), jobs) →
      j.capability? ≠ some c := fun hpop => hw.no_job hent hwaits (World.mem_jobs_of_pop hpop)
  have hredeem : ¬ w.config.Redeems c := by
    intro hred
    cases hred with
    | result hc => exact hdeliver _ _ hc
    | job hc hpop ht hp => exact hnojob hpop (Job.capability_of_target hp)
  refine ⟨h.derived hm hrun hw hleft hredeem, ?_, ?_⟩
  · rcases h.keeps_caller hm.abandon hwaits with hstays | ⟨result, hc⟩
    · exact hstays
    · exact absurd hc (hdeliver _ _)
  · rw [Option.eq_none_iff_forall_ne_some]
    intro x hx
    obtain ⟨d', hc⟩ := World.handles_iff.1 hx
    obtain ⟨_, _, _, _, _, _, hpop, hcap⟩ := h.reacting hc
    exact hnojob hpop hcap

/-- **Every step keeps a promise in its stage or takes it to the next one.** -/
theorem Step.responds (h : Step w m w') (hm : m.Lossless) (hrun : Run es w)
    (hcap : r.capability = some c) (hleft : Untouched (⟨w, m⟩ :: es) c)
    {calls : List (FunctionRef × List Value)} {results : List (Except Failure Value)}
    (hw : w.Responds es since p r c calls results) :
    w'.Responds (⟨w, m⟩ :: es) (⟨w, m⟩ :: since) p r c ((w.handles? c).toList ++ calls)
      ((w.handled? c).toList ++ results) := by
  have hent : ¬ Entrusted es c := hleft.tail.entrusts
  have hkeep : w.Redeemed es c → w'.Redeemed (⟨w, m⟩ :: es) c := fun hred =>
    h.keeps_redeemed hm.clears hrun (fun hc => hleft.entrusts ⟨_, List.mem_cons_self, hc⟩) hred
  cases hw with
  | attached ha =>
    obtain ⟨hcall, hresult⟩ := World.silent_of_count (ha.uncalled hent)
    rw [hcall, hresult]
    rcases h.fires hm hrun ha hleft with ha' | ⟨rfl, kind, v, hs, htakes, hd⟩
    · exact .attached ha'
    · have hhanded : w'.Handed (⟨w, .tick⟩ :: since) p r kind v :=
        ⟨h.keeps_state hrun.lawful hs, _, List.mem_cons_self, rfl, htakes⟩
      cases hhandler : r.handler kind with
      | some f =>
        obtain ⟨id, d, ht⟩ := World.tick_takes htakes
        rw [r.runJob_job, Registration.fire, hhandler, hcap, ← h.config_tick] at ht
        exact .calling hhanded hhandler (hd f hhandler) (congrArg Config.control ht)
      | none =>
        obtain ⟨hred, hres, hdecides⟩ := h.passes_on hrun hent ha.derived hcap hhandler htakes
        exact .passed hhanded hhandler hred
          ⟨[], w, w', since, rfl, htakes, h, .refl, ha.derived.unresolved, hdecides⟩ hres
  | @calling kind v f d hhanded hf hd hc =>
    have hcall : w.handles? c = some (f, [v]) := World.handles_iff.2 ⟨d, hc⟩
    have hresult : w.handled? c = none := by rw [World.handled?, hc]
    rw [hcall, hresult]
    have hwaits : (Caller.reaction (some c) d).callers <:+ w.config.control.callers := by
      rw [hc]
      exact List.suffix_rfl
    obtain ⟨hd', hwaits', hcall'⟩ := h.runs_on hm hrun hleft hd hwaits hresult
    exact .running (hhanded.step h hrun) hf hd' hwaits' hcall'
  | @running kind v f d hhanded hf hd hwaits hcall =>
    rw [hcall]
    cases hresult : w.handled? c with
    | none =>
      obtain ⟨hd', hwaits', hcall'⟩ := h.runs_on hm hrun hleft hd hwaits hresult
      exact .running (hhanded.step h hrun) hf hd' hwaits' hcall'
    | some result =>
      obtain ⟨d', hc⟩ := World.handled_iff.1 hresult
      obtain ⟨rfl, hdecides⟩ := h.comes_back hrun hd hc
      exact .returned (hhanded.step h hrun) hf (h.leaves_redeemed hrun hd hent hc)
        ⟨[], w, w', since, rfl, hresult, h, .refl, hd.unresolved, hdecides⟩
  | returned hhanded hf hred hdecided =>
    obtain ⟨hcall, hresult⟩ := hred.silent
    rw [hcall, hresult]
    exact .returned (hhanded.step h hrun) hf (hkeep hred) (hdecided.step h)
  | passed hhanded hf hred hdecided hres =>
    obtain ⟨hcall, hresult⟩ := hred.silent
    rw [hcall, hresult]
    exact .passed (hhanded.step h hrun) hf (hkeep hred) (hdecided.step h) (h.resolves hrun hres)

theorem Steps.responds (h : Steps w since w') (hrun : Run es w)
    (hes : ∀ ev ∈ since, ev.move.Lossless) (hcap : r.capability = some c)
    (hleft : Untouched (since ++ es) c) (hw : w.Attached es p r c) :
    w'.Responds (since ++ es) since p r c (handlersOf c since) (handledOf c since) := by
  induction h with
  | refl => exact .attached hw
  | @step since w₁ w' m h hs ih =>
    obtain ⟨hm, hes⟩ := List.forall_mem_cons.1 hes
    have hw' := hs.responds hm (hrun.trans h) hcap hleft (ih hes hleft.tail)
    have hcalls : handlersOf c (⟨w₁, m⟩ :: since) =
        (w₁.handles? c).toList ++ handlersOf c since := by
      rw [handlersOf, List.filterMap_cons]
      cases w₁.handles? c <;> rfl
    have hresults : handledOf c (⟨w₁, m⟩ :: since) =
        (w₁.handled? c).toList ++ handledOf c since := by
      rw [handledOf, List.filterMap_cons]
      cases w₁.handled? c <;> rfl
    rw [hcalls, hresults]
    exact hw'

end Steps

/-! ## Outcomes -/

section Outcomes

variable {w : World H} {es since : List (Event H)} {p c : PromiseRef} {f g : Option FunctionRef}
  {kind : Settling} {v : Value}

theorem Run.responds (h : Run es w) (hes : ∀ ev ∈ es, ev.move.Lossless)
    (hc : Obtained (Move.Then p f g) es since c) :
    w.Responds es since p ⟨f, g, some c⟩ c (handlersOf c since) (handledOf c since) := by
  obtain ⟨v, m, v', earlier, rfl, hm, hs, hobtains⟩ := hc.asked
  obtain ⟨v₁, hearlier, hs₁, hlater⟩ := Steps.split h
  obtain rfl : ⟨v.config.engine.promises.size⟩ = c := (hs.thenOf hm).1.obtains hobtains
  exact hlater.responds (Steps.step hearlier hs₁)
    (fun ev hev => hes ev (List.mem_append_left _ hev)) rfl hc.untouched
    (hs₁.attached_of_then hearlier hm)

/-- How a handler that is to be called once with the arguments decides about a promise. -/
inductive World.HandlesOnce (w : World H) (since : List (Event H)) (c : PromiseRef)
    (call : FunctionRef × List Value) : Prop where
  | upcoming : (w.config.engine.promise c).resolved = false → handlersOf c since = [] →
      handledOf c since = [] → ¬ w.Idle → HandlesOnce w since c call
  /-- It has been called and has not come back. -/
  | running : (w.config.engine.promise c).resolved = false → handlersOf c since = [call] →
      handledOf c since = [] → HandlesOnce w since c call
  | returned {result : Except Failure Value} : handlersOf c since = [call] →
      handledOf c since = [result] →
      w.Decided since c (·.handled? c = some result) result → HandlesOnce w since c call

/-- The promise has been derived from the other one without a handler for that way of
settling. -/
def PassesOn (es : List (Event H)) (kind : Settling) (p c : PromiseRef) : Prop :=
  ∃ since f g, Obtained (Move.Then p f g) es since c ∧
    Registration.handler ⟨f, g, some c⟩ kind = none

namespace World.Responds

variable {r : Registration} {calls : List (FunctionRef × List Value)}
  {results : List (Except Failure Value)}

/-- Whatever is derived from a promise that is not settled is open. -/
theorem unresolved (hw : w.Responds es since p r c calls results) (hp : w.Pending p) :
    (w.config.engine.promise c).resolved = false := by
  cases hw with
  | attached ha => exact ha.derived.unresolved
  | calling hhanded | running hhanded | returned hhanded | passed hhanded =>
    exact absurd hhanded.settled hp.not_settledAs

/-- No handler is called before the job for the settlement. -/
theorem unstarted (hw : w.Responds es since p r c calls results)
    (hnone : ∀ kind v, w.SettledAs kind p v → ¬ RanIn since (r.job kind v)) :
    (w.config.engine.promise c).resolved = false ∧ calls = [] ∧ results = [] := by
  cases hw with
  | attached ha => exact ⟨ha.derived.unresolved, rfl, rfl⟩
  | calling hhanded | running hhanded | returned hhanded | passed hhanded =>
    exact absurd hhanded.ran (hnone _ _ hhanded.settled)

/-- The handler for the settlement is called once. -/
theorem handlesOnce (hw : w.Responds es since p r c (handlersOf c since) (handledOf c since))
    (hs : w.SettledAs kind p v) {handler : FunctionRef} (hf : r.handler kind = some handler) :
    w.HandlesOnce since c (handler, [v]) := by
  have hsame : ∀ {kind' v' handler'}, w.Handed since p r kind' v' →
      r.handler kind' = some handler' → handler' = handler ∧ v' = v := by
    intro kind' v' handler' hhanded hf'
    obtain ⟨rfl, rfl⟩ := World.SettledAs.unique hs hhanded.settled
    exact ⟨Option.some.inj (hf'.symm.trans hf), rfl⟩
  generalize hcalls : handlersOf c since = calls, hresults : handledOf c since = results at hw
  cases hw with
  | attached ha => exact .upcoming ha.derived.unresolved hcalls hresults (ha.not_idle hs)
  | calling _ _ hd hcontrol =>
    refine .upcoming hd.unresolved hcalls hresults fun hidle => ?_
    have hhost := hidle.1
    rw [Config.atHost, hcontrol] at hhost
    cases hhost
  | running hhanded hf' hd =>
    obtain ⟨rfl, rfl⟩ := hsame hhanded hf'
    exact .running hd.unresolved hcalls hresults
  | returned hhanded hf' _ hdecided =>
    obtain ⟨rfl, rfl⟩ := hsame hhanded hf'
    exact .returned hcalls hresults hdecided
  | passed hhanded hnone =>
    obtain ⟨rfl, rfl⟩ := World.SettledAs.unique hs hhanded.settled
    cases hnone.symm.trans hf

/-- Without a handler the settlement itself decides, and it is passed on. -/
theorem passed_on (hw : w.Responds es since p r c calls results) (hs : w.SettledAs kind p v)
    (hnone : r.handler kind = none) :
    calls = [] ∧ results = [] ∧
      ((w.config.engine.promise c).resolved = false ∧ ¬ w.Idle ∨
        w.Decided since c (·.takes .tick = [r.job kind v]) (kind.result v) ∧
          w.config.engine.Resolves c kind v) := by
  cases hw with
  | attached ha => exact ⟨rfl, rfl, .inl ⟨ha.derived.unresolved, ha.not_idle hs⟩⟩
  | calling hhanded hf | running hhanded hf | returned hhanded hf =>
    obtain ⟨rfl, rfl⟩ := World.SettledAs.unique hs hhanded.settled
    cases hnone.symm.trans hf
  | passed hhanded _ _ hdecided hres =>
    obtain ⟨rfl, rfl⟩ := World.SettledAs.unique hs hhanded.settled
    exact ⟨rfl, rfl, .inr ⟨hdecided, hres⟩⟩

end World.Responds

/-- **A link of a chain passes the settlement on**, or it is still to do so. -/
theorem Run.passes_on (h : Run es w) (hes : ∀ ev ∈ es, ev.move.Lossless)
    (hc : PassesOn es kind p c) (hv : kind = .fulfill → ∀ q, v ≠ .promise q)
    (hp : w.SettledAs kind p v) :
    w.SettledAs kind c v ∨ (w.config.engine.promise c).resolved = false ∧ ¬ w.Idle := by
  obtain ⟨since, f, g, hobtained, hnone⟩ := hc
  obtain ⟨-, -, hopen | ⟨-, hres⟩⟩ := (h.responds hes hobtained).passed_on hp hnone
  · exact .inr hopen
  · exact .inl (hres.state hv)

/-- **A settlement passes through a chain** of any length, without handlers for it. -/
theorem Run.passes_through (h : Run es w) (hes : ∀ ev ∈ es, ev.move.Lossless)
    (hc : Relation.ReflTransGen (PassesOn es kind) p c)
    (hv : kind = .fulfill → ∀ q, v ≠ .promise q) (hp : w.SettledAs kind p v) :
    w.SettledAs kind c v ∨ (w.config.engine.promise c).resolved = false ∧ ¬ w.Idle := by
  induction hc with
  | refl => exact .inl hp
  | tail _ hlink ih =>
    rcases ih with hq | ⟨hopen, hidle⟩
    · exact h.passes_on hes hlink hv hq
    · obtain ⟨since, f, g, hobtained, -⟩ := hlink
      exact .inr ⟨(h.responds hes hobtained).unresolved ((h.sane _).pending hopen), hidle⟩

/-- **Handlers decide about derived promises.** The host has asked for a promise of what
handlers make of the settlement of another one, and leaves it alone. It is open until a drain
has run the job for the settlement, and no handler is called before that. Then the handler for
the settlement is called, once, with the settled value, and its result decides about the
promise; without such a handler the settlement itself decides. So a settlement passes through
any chain of promises that have been derived without handlers for it, unless it is a
fulfillment with a promise. -/
theorem Run.then_outcome (h : Run es w) (hes : ∀ ev ∈ es, ev.move.Lossless)
    (hc : Obtained (Move.Then p f g) es since c) :
    let r : Registration := ⟨f, g, some c⟩
    ((∀ kind v, w.SettledAs kind p v → ¬ RanIn since (r.job kind v)) →
      (w.config.engine.promise c).resolved = false ∧ handlersOf c since = [] ∧
        handledOf c since = []) ∧
    (∀ kind v handler, w.SettledAs kind p v → r.handler kind = some handler →
      w.HandlesOnce since c (handler, [v])) ∧
    (∀ kind v, w.SettledAs kind p v → r.handler kind = none →
      handlersOf c since = [] ∧ handledOf c since = [] ∧
        ((w.config.engine.promise c).resolved = false ∧ ¬ w.Idle ∨
          w.Decided since c (·.takes .tick = [r.job kind v]) (kind.result v))) ∧
    ∀ kind v d, w.SettledAs kind p v → (kind = .fulfill → ∀ q, v ≠ .promise q) →
      Relation.ReflTransGen (PassesOn es kind) p d →
      w.SettledAs kind d v ∨ (w.config.engine.promise d).resolved = false ∧ ¬ w.Idle := by
  intro r
  have hw : w.Responds es since p r c (handlersOf c since) (handledOf c since) := h.responds hes hc
  refine ⟨hw.unstarted, fun kind v handler hs hf => hw.handlesOnce hs hf,
    fun kind v hs hnone => ?_, fun kind v d hs hv hd => h.passes_through hes hd hv hs⟩
  obtain ⟨hcalls, hresults, hdecided⟩ := hw.passed_on hs hnone
  exact ⟨hcalls, hresults, hdecided.imp_right And.left⟩

/-- A handler returns the promise that it is called for. -/
theorem Run.then_outcome_refused :
    let made : List (Move Unit) :=
      [.perform .newPromise, .perform (.newFunction "handler" .repeatable ())]
    let ask : Move Unit := .perform (.promiseThen ⟨0⟩ (some ⟨0⟩) none)
    let later := [.perform (.fulfill ⟨0⟩ .null), .perform .runJobs, .tick, .tick,
      .finishCall (.ok (.promise ⟨1⟩)), .tick, .tick]
    let w := ({} : World Unit).after made
    let w₁ := w.after [ask]
    let w' := w₁.after later
    let since := w₁.events later
    handlersOf ⟨1⟩ since = [(⟨0⟩, [.null])] ∧ handledOf ⟨1⟩ since = [.ok (.promise ⟨1⟩)] ∧
      w'.HandlesOnce since ⟨1⟩ (⟨0⟩, [.null]) ∧
      w'.SettledAs .reject ⟨1⟩ (.object ⟨0⟩) ∧
      w'.config.engine.object ⟨0⟩ = .error "TypeError" "Chaining cycle detected for promise" := by
  intro made ask later w w₁ w' since
  have hs : Step w ask w₁ := World.step_after (by decide +kernel)
  have hrun : Run (({} : World Unit).events made) w := World.steps_after (by decide +kernel)
  have h : Run (since ++ ⟨w, ask⟩ :: ({} : World Unit).events made) w' :=
    Steps.trans (hrun.step hs) (World.steps_after (by decide +kernel))
  have hnamed : ∀ ev ∈ since ++ ⟨w, ask⟩ :: ({} : World Unit).events made,
      ∀ q ∈ ev.move.settles ++ ev.move.entrusts, q = ⟨0⟩ := by decide +kernel
  have huntouched : Untouched (since ++ ⟨w, ask⟩ :: ({} : World Unit).events made) ⟨1⟩ :=
    ⟨fun ev hev _ hmem => absurd (hnamed ev hev _ (List.mem_append_left _ hmem)) nofun,
      fun ⟨ev, hev, hmem⟩ => absurd (hnamed ev hev _ (List.mem_append_right _ hmem)) nofun⟩
  have hc : Obtained (Move.Then ⟨0⟩ (some ⟨0⟩) none)
      (since ++ ⟨w, ask⟩ :: ({} : World Unit).events made) since ⟨1⟩ :=
    ⟨⟨w, ask, w₁, _, rfl, .operation, hs, ⟨_, rfl⟩⟩, huntouched⟩
  have hfulfilled : w'.SettledAs .fulfill ⟨0⟩ .null := by decide +kernel
  obtain ⟨-, hhandles, -, -⟩ := Run.then_outcome h (by decide +kernel) hc
  exact ⟨by decide +kernel, by decide +kernel, hhandles _ _ _ hfulfilled rfl, by decide +kernel,
    by decide +kernel⟩

end Outcomes

end Microtask
