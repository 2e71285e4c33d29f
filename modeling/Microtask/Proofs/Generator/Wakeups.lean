import Microtask.Proofs.Calls
import Microtask.Proofs.Places
import Microtask.Proofs.Play
import Microtask.Proofs.Generator.Bodies

/-!
# Wake-ups are neither lost nor doubled

An async generator that serves a request, or an async function, that has handed control
back waits for one promise: for a pair of callbacks on it that wake the same waiter or, once
it has settled, for the job of one of them (`World.Awaits`). One that has nothing to do
waits for none. When one of the callbacks is called, it has not been used up, and from then
on nothing calls it or the other one again (`Steps.not_has`).

Main statement: `Run.wakeups`.
-/

namespace Microtask

variable {H : Type}

/-! ## Outstanding awaits -/

/-- Whoever goes on with a step of a generator has been waiting. -/
theorem Engine.code_of_step {e : Engine H} {f : FunctionRef} {d : Duty} {kind : Settling}
    (hen : e.engagement? f = some (d, kind)) (hd : d.OfStep) :
    ∃ waiter, (e.callable f).code = .wake waiter kind ∧ waiter.duty? = some d := by
  rw [engagement?] at hen
  cases hcode : (e.callable f).code with
  | wake waiter kind' =>
    rw [hcode] at hen
    obtain ⟨d', hw, heq⟩ := Option.map_eq_some_iff.1 hen
    cases heq
    exact ⟨waiter, rfl, hw⟩
  | adopt p kind' =>
    rw [hcode] at hen
    cases hen
    exact hd.elim
  | _ =>
    rw [hcode] at hen
    cases hen

namespace World

/-- The function wakes the waiter, and it can still be called. -/
structure Wakes (w : World H) (waiter : Waiter H) (kind : Settling) (f : FunctionRef) : Prop where
  code : (w.config.engine.callable f).code = .wake waiter kind
  once : (w.config.engine.callable f).usage = .once

/-- **There is one outstanding await** with the duty. -/
inductive Awaits (w : World H) (d : Duty) : Prop where
  /-- A pair of callbacks waits for a promise to settle. -/
  | attached {q : PromiseRef} {i : Nat} {f g : FunctionRef} {waiter : Waiter H} :
      (w.config.engine.promise q).state = .pending →
      (w.config.engine.promise q).onFulfilled[i]? = some ⟨.fulfill, some f, none⟩ →
      (w.config.engine.promise q).onRejected[i]? = some ⟨.reject, some g, none⟩ →
      waiter.duty? = some d → w.Wakes waiter .fulfill f → w.Wakes waiter .reject g →
      (∀ x, w.Owes d x ↔ ∃ kind, x = .reaction q kind i) → Awaits w d
  /-- The promise has settled, and the job of one of the callbacks waits. -/
  | settled {i : Nat} {kind : Settling} {f : FunctionRef} {v : Value} {waiter : Waiter H} :
      w.jobs[i]? = some (.reaction ⟨kind, some f, none⟩ v) →
      waiter.duty? = some d → w.Wakes waiter kind f →
      (∀ x, w.Owes d x ↔ x = .job i) → Awaits w d

/-- One of the duties is waited for, and no other one. -/
def AwaitsOne {α : Type} (w : World H) (duty : α → Duty) : Prop :=
  ∃ x, w.Awaits (duty x) ∧ ∀ y place, w.Owes (duty y) place → y = x

/-- None of the duties is waited for. -/
def AwaitsNone {α : Type} (w : World H) (duty : α → Duty) : Prop :=
  ∀ x place, ¬ w.Owes (duty x) place

variable {w : World H} {d : Duty} {issued : List (AsyncGeneratorRef × Request)}

/-- What the handler of a reaction with the duty of a step does. -/
theorem wakes_of_bears {r : Reaction} (h : w.config.engine.Bears r (some d)) (hd : d.OfStep)
    (hu : (w.ledger issued).Unspent d)
    (href : ∀ f, r.handler = some f → (w.ledger issued).Refers f) :
    ∃ f waiter, r = ⟨r.kind, some f, none⟩ ∧ waiter.duty? = some d ∧ w.Wakes waiter r.kind f := by
  obtain ⟨f, hf, hen, -, hc⟩ := h
  obtain ⟨waiter, hcode, hw⟩ := Engine.code_of_step hen hd
  refine ⟨f, waiter, ?_, hw, hcode, hu f r.kind hen (.inl (href f hf))⟩
  cases r
  simp_all

/-- **A duty that is owed once**, and that is not on its way, is waited for. -/
theorem awaits_of_owed (hl : (w.ledger issued).Lawful) (hu : (w.ledger issued).Unspent d)
    (hd : d.OfStep) (hone : (w.ledger issued).owed d = 1)
    (hcalled : w.Uncalled d) (hstack : w.config.control.duties.count d = 0) : w.Awaits d := by
  have hs := hl.sound
  obtain ⟨hreg, hjob⟩ | ⟨hreg, hjob⟩ := owed_one hone hcalled hstack
  · obtain ⟨i, j, hi, hduty, hplaces⟩ := owes_job hs hreg hjob
    have hmem : j ∈ (w.ledger issued).jobs := List.mem_of_getElem? hi
    cases j with
    | reaction r v =>
      obtain ⟨d', hb⟩ := hs.jobs _ hmem
      obtain rfl : d' = some d := hb.reactionDuty?.symm.trans hduty
      obtain ⟨f, waiter, hr, hw, hwakes⟩ :=
        wakes_of_bears hb hd hu fun f hf => .inr ⟨r, v, hmem, hf⟩
      rw [hr] at hi
      exact .settled hi hw hwakes hplaces
    | adoption p q =>
      cases hduty
      exact hd.elim
    | callback label code => cases hduty
  · obtain ⟨q, i, r, s, hr, hs', hpair, hduty, hplaces⟩ := owes_reaction hs hreg hjob
    obtain ⟨d', hbr, hbs⟩ := hpair.bears
    obtain rfl : d' = some d := hbr.reactionDuty?.symm.trans hduty
    have hpend := (hl.sane q).pending_of_reaction .fulfill (List.mem_of_getElem? hr)
    obtain ⟨f, waiter, hrf, hw, hf⟩ := wakes_of_bears hbr hd hu fun f hf =>
      .inl ⟨q, .fulfill, r, List.mem_of_getElem? hr, hf⟩
    obtain ⟨g, waiter', hsg, hw', hg⟩ := wakes_of_bears hbs hd hu fun f hf =>
      .inl ⟨q, .reject, s, List.mem_of_getElem? hs', hf⟩
    rw [hpair.kind] at hrf hf
    rw [hpair.kind'] at hsg hg
    -- both callbacks wake the same waiter
    obtain ⟨g', hg', hcode⟩ := hpair.twins f waiter d (by rw [hrf]) hf.code hw
    obtain rfl : g = g' := Option.some.inj ((congrArg Reaction.handler hsg).symm.trans hg')
    exact .attached hpend (hrf ▸ hr) (hsg ▸ hs') hw hf ⟨hcode, hg.once⟩ hplaces

/-- A generator whose steps are not under way has no duty on the stack. -/
theorem count_duties (hin : w.Inside) {a : AsyncGeneratorRef}
    (ha : (w.config.engine.asyncGenerator a).inner ∉ w.config.control.running) (r : Request) :
    w.config.control.duties.count (.serve a r) = 0 := by
  by_contra hcount
  obtain ⟨g, hg⟩ := Control.exists_step (d := .serve a r) trivial hcount
  exact ha ((hin _ hg a r rfl).2 ▸ Control.mem_running hg)

/-- The request that an async generator has in flight is waited for. -/
theorem awaits_flight (hl : (w.ledger issued).Flights) (hin : w.Inside)
    (hcalled : w.config.control.called? w.config.engine = none) {a : AsyncGeneratorRef} :
    ((w.config.engine.asyncGenerator a).state.isBusy = true →
      (w.config.engine.asyncGenerator a).inner ∉ w.config.control.running →
        w.AwaitsOne (Duty.serve a)) ∧
    ((w.config.engine.asyncGenerator a).state.isBusy = false → w.AwaitsNone (Duty.serve a)) := by
  obtain ⟨flight, hf⟩ := hl.flight a
  refine ⟨fun hbusy hrun => ?_, fun hidle r => ?_⟩
  · have hsome : flight.isSome = true := hf.busy.symm.trans hbusy
    obtain ⟨r, rfl⟩ := Option.isSome_iff_exists.1 hsome
    refine ⟨r, awaits_of_owed hl.lawful (hl.unspent a r) trivial ((hf.owed r).trans (if_pos rfl))
      (uncalled_of_none hcalled _) (count_duties hin hrun r), fun r' place hplace => ?_⟩
    have hpos := (Nat.zero_le _).trans_lt (hplace.count_lt hl.lawful.sound)
    exact (Option.some.inj (hf.eq_of_owed hpos)).symm
  · have hnone : flight.isSome = false := hf.busy.symm.trans hidle
    obtain rfl : flight = none := by simpa using hnone
    exact not_owes hl.lawful.sound ((hf.owed r).trans (if_neg nofun))

/-- The duty of an async function is waited for, as long as its frame is put back. -/
theorem awaits_body (hl : (w.ledger issued).Flights) {g : GeneratorRef} {p : PromiseRef}
    (hw : w.Bound issued g p) (hcalled : w.config.control.called? w.config.engine = none)
    (hrun : g ∉ w.config.control.running) :
    (w.config.engine.generator g).state = .suspendedYield ∧ w.AwaitsOne (Duty.body g) ∨
      (w.config.engine.generator g).state = .completed ∧ w.AwaitsNone (Duty.body g) := by
  have hs := hl.lawful.sound
  have hzero := List.count_eq_zero.2 hrun
  cases hw.body with
  | running hstate hcount => exact absurd (hcount.symm.trans hzero) (Nat.succ_ne_zero 0)
  | suspended hstate hf hcount ho =>
    have hle := w.config.control.tallies.count_body_le g p
    refine .inl ⟨hstate, p, awaits_of_owed hl.lawful hw.unspent trivial ho
      (uncalled_of_none hcalled _) (by omega),
      fun q place hplace => ?_⟩
    by_contra hq
    exact not_owes hs (hw.others q hq) place hplace
  | finished hstate hcount ho =>
    refine .inr ⟨hstate, fun q => not_owes hs ?_⟩
    by_cases hq : q = p
    · rw [hq, ho]
    · exact hw.others q hq

end World

/-! ## Callbacks are called once -/

section Calls

variable {w w' : World H} {m : Move H} {f : FunctionRef} {x : Duty × Settling}
  {issued : List (AsyncGeneratorRef × Request)}

theorem Acts.has {R : Rights} {l l' : Ledger H} (h : Acts R l l')
    (hen : l.engine.engagement? f = some x) (hf : l'.Has f) : l.Has f := by
  induction h with
  | refl => exact hf
  | tail h₀ h ih =>
    have hkeep := (Acts.grows h₀).engagement? (Engine.exists_of_engagement hen)
    exact ih (h.has (hkeep.trans hen) hf)

/-- **A function with a duty that nothing refers to is never called again.** -/
theorem Steps.not_has {es : List (Event H)} (h : Steps w es w')
    (hes : ∀ ev ∈ es, ev.move.clears = false) (hbacked : w.config.engine.Backed)
    (hen : w.config.engine.engagement? f = some x) (hf : ¬ (w.ledger []).Has f) :
    ∀ ev ∈ es, ev.before.config.control.called? ev.before.config.engine ≠ some f := by
  suffices hkeep : w'.config.engine.Backed ∧ w'.config.engine.engagement? f = some x ∧
      ¬ (w'.ledger []).Has f ∧
      ∀ ev ∈ es, ev.before.config.control.called? ev.before.config.engine ≠ some f from hkeep.2.2.2
  induction h with
  | refl => exact ⟨hbacked, hen, hf, fun ev hev => by cases hev⟩
  | @step es w₁ w₂ m h hs ih =>
    obtain ⟨hm, hes⟩ := List.forall_mem_cons.1 hes
    obtain ⟨hbacked₁, hen₁, hf₁, hbefore⟩ := ih hes
    have hacts := hs.acts hm (Rights.all_covers w₁ m) hbacked₁ []
    have hkeep := hacts.grows.engagement? (Engine.exists_of_engagement hen₁)
    refine ⟨hs.backed hbacked₁, hkeep.trans hen₁, fun hf₂ => hf₁ (hacts.has hen₁ hf₂), ?_⟩
    exact List.forall_mem_cons.2 ⟨fun hcall => hf₁ (.inr hcall), hbefore⟩

end Calls

/-- The call of a function with the duty wakes somebody, and none of the functions that
have the duty then is called later. -/
structure World.CallsOnce (v : World H) (later : List (Event H)) (f : FunctionRef) (d : Duty)
    (kind : Settling) : Prop where
  wakes : ∃ waiter, waiter.duty? = some d ∧ v.Wakes waiter kind f
  never : ∀ f' kind', v.config.engine.engagement? f' = some (d, kind') →
    ∀ ev ∈ later, ev.before.config.control.called? ev.before.config.engine ≠ some f'

/-- **A duty that is owed once is seen to by one call.** -/
theorem Step.calls_once {v v' w : World H} {m : Move H} (h : Step v m v')
    {later : List (Event H)} (hlater : Steps v' later w) (hm : m.clears = false)
    (hes : ∀ ev ∈ later, ev.move.clears = false) (hbacked : v.config.engine.Backed)
    {issued : List (AsyncGeneratorRef × Request)} (hs : (v.ledger issued).Sound)
    {f : FunctionRef} {d : Duty} {kind : Settling} (hd : d.OfStep)
    (hcalled : v.config.control.called? v.config.engine = some f)
    (hen : v.config.engine.engagement? f = some (d, kind)) (hle : (v.ledger issued).owed d ≤ 1)
    (hu : (v.ledger issued).Unspent d) : v.CallsOnce later f d kind := by
  obtain ⟨waiter, hcode, hw⟩ := Engine.code_of_step hen hd
  have honce : (v.config.engine.callable f).usage = .once := hu f kind hen (.inr hcalled)
  refine ⟨⟨waiter, hw, hcode, honce⟩, fun f' kind' hen' => ?_⟩
  have hacts := h.acts hm (Rights.all_covers v m) hbacked issued
  refine hlater.not_has hes (h.backed hbacked)
    ((hacts.grows.engagement? (Engine.exists_of_engagement hen')).trans hen') ?_
  rintro (href | hcall)
  · exact hs.not_refers_of_called hcalled hen hle hen' ((hacts.traces (.of_engagement hen')).refers href)
  · -- the tick has ended the call, and the waiter calls nothing
    obtain ⟨⟨e, control⟩, held⟩ := v
    cases control with
    | call f₀ args k =>
      cases h with
      | tick _ _ =>
        have hf₀ : f₀ = f := by
          have hsome := hcalled
          simp only [Control.called?] at hsome
          split at hsome
          · exact Option.some.inj hsome
          · cases hsome
        subst hf₀
        have hnone : ((e.callFunction f₀ args k).control.called?
            (e.callFunction f₀ args k).engine) = none := by
          have honce' : (e.callable f₀).usage = .once := honce
          have hcode' : (e.callable f₀).code = .wake waiter kind := hcode
          rw [Engine.callFunction, honce', hcode']
          exact Control.called?_of_callee (Engine.wake_callee _ _ _ _ _) _
        have hcall' : (e.callFunction f₀ args k).control.called?
            (e.callFunction f₀ args k).engine = some f' := hcall
        rw [hnone] at hcall'
        cases hcall'
    | _ => cases hcalled

/-! ## Runs -/

/-- **No wake-up is lost or doubled** on a run that drops nothing. Unless a callback with a
duty is just being called, there is one outstanding await for every async generator that is
busy and whose generator has no step under way, and none for one that is not busy. There
is one for every async function whose frame is put back, and none for one whose frame is
done, if the host does not reach its generator. A callback that is called wakes its
waiter, and neither it nor the other callback of the pair is called again. -/
theorem Run.wakeups {es : List (Event H)} {w : World H} (h : Run es w)
    (hes : ∀ ev ∈ es, ev.move.Lossless) :
    (w.config.control.called? w.config.engine = none →
      (∀ a, ((w.config.engine.asyncGenerator a).state.isBusy = true →
          (w.config.engine.asyncGenerator a).inner ∉ w.config.control.running →
            w.AwaitsOne (Duty.serve a)) ∧
        ((w.config.engine.asyncGenerator a).state.isBusy = false →
          w.AwaitsNone (Duty.serve a))) ∧
      ∀ g p, (g, p) ∈ launchedIn es → (∀ ev ∈ es, g ∉ ev.before.reaches ev.move) →
        g ∉ w.config.control.running →
          (w.config.engine.generator g).state = .suspendedYield ∧ w.AwaitsOne (Duty.body g) ∨
          (w.config.engine.generator g).state = .completed ∧ w.AwaitsNone (Duty.body g)) ∧
    ∀ later earlier v m f d kind, es = later ++ ⟨v, m⟩ :: earlier →
      v.config.control.called? v.config.engine = some f →
      v.config.engine.engagement? f = some (d, kind) →
      ((∃ a r, d = .serve a r) ∨ ∃ g p, d = .body g p ∧ (g, p) ∈ launchedIn earlier ∧
        ∀ ev ∈ es, g ∉ ev.before.reaches ev.move) →
      v.CallsOnce later f d kind := by
  have hl := Run.flights h hes
  have hin := Run.inside h
  refine ⟨fun hcalled => ⟨fun a => World.awaits_flight hl hin hcalled,
    fun g p hg hreach hrun => ?_⟩, ?_⟩
  · exact World.awaits_body hl (Run.bodies h hes hreach hg) hcalled hrun
  · rintro later earlier v m f d kind rfl hcalled hen hd
    obtain ⟨v', hearlier, hstep, hlater⟩ := h.split
    obtain ⟨hafter, hbefore⟩ := List.forall_mem_append.1 hes
    obtain ⟨hm, hbefore⟩ := List.forall_mem_cons.1 hbefore
    have hl' := Run.flights hearlier hbefore
    have hbacked := Run.backed hearlier
    have honce := fun hd hle hu => hstep.calls_once hlater hm.clears
      (fun ev hev => (hafter ev hev).clears) hbacked hl'.lawful.sound (d := d) hd hcalled hen hle hu
    rcases hd with ⟨a, r, rfl⟩ | ⟨g, p, rfl, hg, hreach⟩
    · exact honce trivial (hl'.owed_le a r) (hl'.unspent a r)
    · have hb := Run.bodies hearlier hbefore
        (fun ev hev => hreach ev (List.mem_append_right _ (List.mem_cons_of_mem _ hev))) hg
      exact honce trivial hb.body.owed_le hb.unspent

/-- Moves after which an async generator waits for a promise, and a callback of an async
function is being called because the wait of the function is over. -/
def World.wakingUp : List (Move Unit) :=
  [.perform .newPromise, .perform (.startAsync (.host ())), .tick,
    .finishFrame (.awaiting .undefined) (), .tick,
    .perform (.newAsyncGenerator (.host ())), .perform (.request ⟨0⟩ (.normal .undefined)), .tick,
    .tick, .finishFrame (.awaiting (.promise ⟨0⟩)) (), .tick, .tick, .perform .runJobs, .tick]

/-- An async generator waits for a promise, and an async function that has waited goes on
and returns. -/
theorem Run.wakeups_waiting :
    let v := ({} : World Unit).after World.wakingUp
    let later := (v.after [.tick]).events [.tick, .finishFrame (.returned .undefined) ()]
    let w := (v.after [.tick]).after [.tick, .finishFrame (.returned .undefined) ()]
    v.CallsOnce later ⟨0⟩ (.body ⟨0⟩ ⟨1⟩) .fulfill ∧ w.AwaitsOne (Duty.serve ⟨0⟩) ∧
      w.AwaitsNone (Duty.body ⟨0⟩) := by
  intro v later w
  have hearlier : Run (({} : World Unit).events World.wakingUp) v :=
    World.steps_after (by decide +kernel)
  have hcall : Step v .tick (v.after [.tick]) := .of_next rfl
  have hlater : Steps (v.after [.tick]) later w := World.steps_after (by decide +kernel)
  have h := Run.wakeups ((hearlier.step hcall).trans hlater) (by decide +kernel)
  obtain ⟨hawaits, honce⟩ := h
  have hreach : ∀ ev ∈ later ++ ⟨v, .tick⟩ :: ({} : World Unit).events World.wakingUp,
      ⟨0⟩ ∉ ev.before.reaches ev.move := by decide +kernel
  have hbody := (hawaits (by decide +kernel)).2 ⟨0⟩ ⟨1⟩ (by decide +kernel) hreach
    (by decide +kernel)
  refine ⟨honce _ _ v .tick ⟨0⟩ (.body ⟨0⟩ ⟨1⟩) .fulfill rfl (by decide +kernel)
    (by decide +kernel) (.inr ⟨⟨0⟩, ⟨1⟩, rfl, by decide +kernel, hreach⟩), ?_, ?_⟩
  · exact ((hawaits (by decide +kernel)).1 ⟨0⟩).1 (by decide +kernel) (by decide +kernel)
  · exact (hbody.resolve_left fun hstate => absurd hstate.1 (by decide +kernel)).2

end Microtask
