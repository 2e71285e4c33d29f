import Microtask.Proofs.Act
import Microtask.Proofs.Moves

/-!
# Steps as acts

Every step of a world is a chain of acts on its ledger (`Step.acts`), provided
that the rights cover what the step settles. The functions of the machine are
taken one by one, from the inside out: what becomes of a stopped frame, the steps
of generators, waking, calling, delivering, serving, running jobs, and the
operations of the host.

Main statement: `Step.acts`.
-/

namespace Microtask

variable {H : Type} {R : Rights}

namespace Engine

variable {l : Ledger H}

/-! ## Answers and waits -/

theorem engages_wake {w : Waiter H} {d : Duty} (hd : w.duty? = some d) :
    d.Engages (H := H) ⟨"awaitFulfilled", .once, .wake w .fulfill⟩
      ⟨"awaitRejected", .once, .wake w .reject⟩ := by
  refine ⟨?_, ?_, rfl, rfl, fun w' hw => ?_⟩
  · simp [Code.engagement?, hd]
  · simp [Code.engagement?, hd]
  · cases hw
    rfl

/-- Waiting moves the duty on top of the stack to a pair of callbacks. -/
theorem await_acts {d : Duty} {rest : List Duty} {w : Waiter H} (hd : w.duty? = some d)
    (hs : l.stack = d :: rest) (hR : R.Drives d) (hF : R.Fresh l.engine) (v : Value) :
    Acts R l { l with engine := l.engine.await v w, stack := rest } :=
  (Acts.effects (promiseOf_effects hF v)).tail (.engage hs (engages_wake hd) hR)

section Serving

variable {a : AsyncGeneratorRef} {r : Request} {rest : List Duty}
  (hs : l.stack = .serve a r :: rest) (ha : l.serving = some a) (hm : R.move (.serve a r))
include hs ha hm

theorem answerRequest_acts {s : AsyncGeneratorState} (hb : s.isBusy = false) (v : Value)
    (done : Bool) :
    Acts R l { l with
      engine := (l.engine.setAsyncState a s).answerRequest r v done, stack := rest } := by
  have ho : Acts R l { l with engine := (l.engine.newIteratorResult v done).2 } :=
    Acts.effects (newObject_aside l.engine (.iteratorResult v done)).effects
  exact ho.tail (.answer .fulfill hs ha hb (fun _ p => nofun) hm)

theorem failWith_acts (reason : Value) :
    Acts R l { l with engine := l.engine.failWith a r reason, stack := rest } :=
  .single (.answer .reject hs ha rfl nofun hm)

/-- After a step on its behalf a request is answered, or it waits. -/
theorem absorbOutcome_acts (hF : R.Fresh l.engine) (result : Except EngineError Outcome) :
    Acts R l { l with engine := l.engine.absorbOutcome a r result, stack := rest } := by
  have hhold : Acts R l { l with engine := l.engine.setAsyncState a .awaitingReturn } :=
    .single (.hold hs hm)
  unfold absorbOutcome
  split
  · exact await_acts rfl hs hm hF _
  · exact answerRequest_acts hs ha hm rfl _ false
  · exact await_acts rfl hs hm hF _
  · refine hhold.trans (await_acts (w := .returning a r) rfl ?_ hm ?_ _)
    · exact hs
    · exact ⟨hF.promises, hF.functions, hF.tallies⟩
  · exact answerRequest_acts hs ha hm rfl _ true
  · exact failWith_acts hs ha hm _
  · next error =>
    have he := Acts.effects (errorValue_effects (R := R) l.engine error)
    -- the error is created after the generator is done, which makes no difference
    have hswap : (l.engine.setAsyncState a .completed).errorValue error =
        ((l.engine.errorValue error).1,
          (l.engine.errorValue error).2.setAsyncState a .completed) := by
      cases error <;> rfl
    dsimp only
    rw [hswap]
    exact he.tail (.answer .reject hs ha rfl nofun hm)

end Serving

theorem absorbBodyOutcome_acts {g : GeneratorRef} {p : PromiseRef} {rest : List Duty}
    (hm : R.move (.body g p)) (hs : l.stack = .body g p :: rest) (hF : R.Fresh l.engine)
    (hp : R.May l.engine p)
    (result : Except EngineError Outcome) :
    Acts R l { l with engine := l.engine.absorbBodyOutcome g p result, stack := rest } := by
  have hdone : ∀ {e : Engine H}, l.engine.Effects R e →
      Acts R l { l with engine := e, stack := rest } :=
    fun he => (Acts.effects he).tail (.discharge hs rfl hm)
  unfold absorbBodyOutcome
  split
  · exact await_acts rfl hs hm hF _
  · exact await_acts rfl hs hm hF _
  · exact hdone (resolve_effects hp _)
  · exact hdone (reject_effects hp _)
  · next error =>
    have he := errorValue_effects (R := R) l.engine error
    exact hdone (he.trans (reject_effects (hp.grows he.grows) _))

/-! ## Frames and generator steps -/

section Frames

variable {e : Engine H} {held : List (Job H)} {issued : List (AsyncGeneratorRef × Request)}

theorem conclude_acts (hF : R.Fresh e) {g : GeneratorRef} {purpose : Purpose H}
    (hg : R.Carries (g, purpose.duty? g)) (hp : ∀ p ∈ purpose.targets, R.May e p)
    (result : Except EngineError Outcome) :
    Acts R { engine := e, held, stack := purpose.duties g, issued }
      ((e.conclude g result purpose).ledger held issued) := by
  cases purpose with
  | outcome h => exact .refl
  | iterator h => exact Acts.effects (iteratorAnswer_effects hg.1 result)
  | serving a r reply k =>
    refine Relation.ReflTransGen.head (.look a rfl) ?_
    exact absorbOutcome_acts rfl rfl (hg.2 _ rfl) hF result
  | body p reply k =>
    exact absorbBodyOutcome_acts (hg.2 _ rfl) rfl hF (hp p (List.mem_singleton.2 rfl)) result

theorem stepGenerator_acts (hF : R.Fresh e) {g : GeneratorRef} (purpose : Purpose H)
    (hg : R.Carries (g, purpose.duty? g)) (hp : ∀ p ∈ purpose.targets, R.May e p)
    (c : Completion) :
    Acts R { engine := e, held, stack := purpose.duties g, issued }
      ((e.stepGenerator g c purpose).ledger held issued) := by
  have hb := beginStep_effects (e := e) hg.1 c
  have hstart : Acts R { engine := e, held, stack := purpose.duties g, issued }
      { engine := (e.beginStep g c).1, held, stack := purpose.duties g, issued } :=
    Acts.effects hb
  unfold stepGenerator
  split
  · next e' result heq =>
    rw [heq] at hb hstart
    exact hstart.trans
      (conclude_acts (hF.grows hb.grows) hg (fun p h => (hp p h).grows hb.grows) result)
  · next e' f heq =>
    rw [heq] at hstart
    exact hstart

variable {s : Stepper H}

theorem frameStopped_acts (hF : R.Fresh e) (hs : ∀ p ∈ s.targets, R.May e p)
    (hd : ∀ x ∈ s.drives, R.Carries x) (o : Outcome) (f : Frame H) :
    Acts R { engine := e, held, stack := s.duties, issued }
      ((e.frameStopped o f s).ledger held issued) := by
  cases s with
  | host h => exact .refl
  | generator g purpose =>
    have hg : R.Carries (g, purpose.duty? g) := hd _ (List.mem_singleton.2 rfl)
    have he := endStep_effects (e := e) hg.1 f o
    have hend : Acts R { engine := e, held, stack := purpose.duties g, issued }
        { engine := e.endStep g f o, held, stack := purpose.duties g, issued } := Acts.effects he
    exact hend.trans (conclude_acts (hF.grows he.grows) hg (fun p h => (hs p h).grows he.grows) _)

theorem scriptProgress_acts (hF : R.Fresh e) (hs : ∀ p ∈ s.targets, R.May e p)
    (hd : ∀ x ∈ s.drives, R.Carries x) (progress : ScriptFrame.Progress) :
    Acts R { engine := e, held, stack := s.duties, issued }
      ((e.scriptProgress s progress).ledger held issued) := by
  cases progress with
  | running f => exact .refl
  | stopped o f => exact frameStopped_acts hF hs hd o _

theorem resumeFrame_acts (hF : R.Fresh e) (hs : ∀ p ∈ s.targets, R.May e p)
    (hd : ∀ x ∈ s.drives, R.Carries x) (c : Completion) (f : Frame H) :
    Acts R { engine := e, held, stack := s.duties, issued }
      ((e.resumeFrame c s f).ledger held issued) := by
  cases f with
  | values f => exact frameStopped_acts hF hs hd _ _
  | script f => exact scriptProgress_acts hF hs hd _
  | host code => exact .refl

end Frames

/-! ## Functions -/

section Functions

variable {e : Engine H} {held : List (Job H)} {issued : List (AsyncGeneratorRef × Request)}
  {k : Caller H}

/-- A waiter that goes on has its duty on top of the stack. -/
theorem wake_acts (hF : R.Fresh e) {w : Waiter H} {d : Duty} (hd : w.duty? = some d)
    {kind : Settling} (hw : ∀ p ∈ (Code.wake w kind).targets e, R.May e p)
    (hg : ∀ x ∈ w.drives e, R.Carries x) (v : Value) :
    Acts R { engine := e, held, stack := d :: k.duties, issued }
      ((e.wake kind v k w).ledger held issued) := by
  have hserve : ∀ a r, ∀ p ∈ (Purpose.serving a r .undefined k).targets, R.May e p := by
    intro a r p hp
    cases hp
  cases w with
  | yielding a r =>
    cases hd
    have hg := hg _ (List.mem_singleton.2 rfl)
    cases kind with
    | fulfill =>
      refine Relation.ReflTransGen.head (.look a rfl) ?_
      exact answerRequest_acts rfl rfl (hg.2 _ rfl) rfl v false
    | reject => exact stepGenerator_acts hF (.serving a r .undefined k) hg (hserve a r) _
  | awaiting a r =>
    cases hd
    exact stepGenerator_acts hF (.serving a r .undefined k) (hg _ (List.mem_singleton.2 rfl))
      (hserve a r) _
  | returning a r =>
    cases hd
    have hm : R.move (.serve a r) := (hg _ (List.mem_singleton.2 rfl)).2 _ rfl
    refine Relation.ReflTransGen.head (.look a rfl) ?_
    cases kind with
    | fulfill => exact answerRequest_acts rfl rfl hm rfl v true
    | reject => exact failWith_acts rfl rfl hm v
  | body g p =>
    cases hd
    exact stepGenerator_acts hF (.body p .undefined k) (hg _ (List.mem_singleton.2 rfl)) hw _
  | host onFulfilled onRejected => cases hd

theorem ledger_call_of_free {f : FunctionRef} (h : e.engagement? f = none) (args : List Value)
    (k : Caller H) :
    (Config.mk e (.call f args k)).ledger held issued =
      { engine := e, held, stack := k.duties, issued } := by
  simp [Config.ledger, Control.called?, Control.duties, Control.serving?, h]

theorem ledger_call_of_engaged {f : FunctionRef} {x : Duty × Settling}
    (h : e.engagement? f = some x) (args : List Value) (k : Caller H) :
    (Config.mk e (.call f args k)).ledger held issued =
      { engine := e, held, called := some f, stack := k.duties, issued } := by
  simp [Config.ledger, Control.called?, Control.duties, Control.serving?, h]

theorem tally_used (e : Engine H) (f : FunctionRef) (t : TallyRef) :
    (e.used f).tally t = e.tally t := by
  unfold used
  split <;> rfl

theorem drives_used (e : Engine H) (f : FunctionRef) (w : Waiter H) :
    w.drives (e.used f) = w.drives e := by
  have hsame : ∀ a, (e.used f).asyncGenerator a = e.asyncGenerator a := by
    intro a
    unfold used
    split <;> rfl
  cases w <;> simp only [Waiter.drives, hsame]

theorem targets_used (e : Engine H) (f : FunctionRef) (c : Code H) :
    c.targets (e.used f) = c.targets e := by
  cases c <;> simp only [Code.targets, tally_used]

/-- A function that has not been used up runs its code, on the arguments or on
the first of them. -/
theorem callFunction_eq {f : FunctionRef} (h : (e.callable f).usage ≠ .spent) (args : List Value)
    (k : Caller H) :
    ∃ given, e.callFunction f args k = (e.used f).runCode given k (e.callable f).code := by
  cases hu : (e.callable f).usage with
  | repeatable => exact ⟨args, by simp only [callFunction, used, hu]⟩
  | once => exact ⟨[Value.argument args 0], by simp only [callFunction, used, hu]⟩
  | spent => exact absurd hu h

/-- Code without a duty. -/
theorem runCode_acts {c : Code H} (hfree : c.engagement? = none) (hbacked : c.Backed e)
    (hc : ∀ p ∈ c.targets e, R.May e p) (hcount : ∀ t ∈ c.tally?, R.count t)
    (args : List Value) : Acts R { engine := e, held, stack := k.duties, issued }
      ((e.runCode args k c).ledger held issued) := by
  cases c with
  | host code => exact .refl
  | resolve p => exact Acts.effects (resolve_effects (hc p (List.mem_singleton.2 rfl)) _)
  | reject p => exact Acts.effects (reject_effects (hc p (List.mem_singleton.2 rfl)) _)
  | adopt p kind => cases hfree
  | wake w kind =>
    cases w with
    | host onFulfilled onRejected => exact .refl
    | _ => cases hfree
  | report t i kind =>
    refine Acts.effects (report_effects hbacked (fun ho => hc _ ?_) (hcount t rfl) kind _)
    simp [Code.targets, ho]
  | afterwards callback kind =>
    have hplain : e.Plain callback := hbacked
    rw [runCode, ledger_call_of_free hplain.free]
    exact .refl
  | constant v kind => cases kind <;> exact .refl

/-- A function that may go on with its step has a duty that may change its place. -/
theorem drives_of_engagement {f : FunctionRef} {d : Duty} {kind : Settling}
    (h : e.engagement? f = some (d, kind))
    (hd : ∀ x ∈ (e.callable f).code.drives e, R.Carries x) : R.Drives d := by
  rw [engagement?] at h
  cases hc : (e.callable f).code with
  | wake w kind' =>
    rw [hc] at h hd
    cases w with
    | host onFulfilled onRejected => cases h
    | _ =>
      cases h
      exact (hd _ (List.mem_singleton.2 rfl)).2 _ rfl
  | adopt p kind' =>
    rw [hc] at h
    cases h
    trivial
  | _ =>
    rw [hc] at h
    cases h

theorem callFunction_acts (hF : R.Fresh e) (hbacked : e.Backed) {f : FunctionRef}
    (args : List Value) (hc : ∀ p ∈ (Control.call f args k).targets e, R.May e p)
    (hd : ∀ x ∈ (Control.call f args k).drives e, R.Carries x)
    (hcount : ∀ t ∈ (Control.call f args k).tally? e, R.count t) (hspend : R.spend f) :
    Acts R ((Config.mk e (.call f args k)).ledger held issued)
      ((e.callFunction f args k).ledger held issued) := by
  have hg := grows_used e f
  by_cases hu : (e.callable f).usage = .spent
  · have heq : e.callFunction f args k = ⟨e, .deliver (.ok .undefined) k⟩ := by
      simp only [callFunction, hu]
    rw [heq]
    cases hen : e.engagement? f with
    | none =>
      rw [ledger_call_of_free hen]
      exact .refl
    | some x =>
      rw [ledger_call_of_engaged hen]
      exact .single (.lapse rfl hu fun d kind hen => drives_of_engagement hen hd)
  have hc' : ∀ p ∈ (e.callable f).code.targets (e.used f), R.May (e.used f) p := by
    intro p hp
    refine (hc p ?_).grows hg
    rw [targets_used] at hp
    rw [Control.targets, if_neg hu]
    exact hp
  obtain ⟨given, heq⟩ := callFunction_eq hu args k
  rw [heq]
  cases hen : e.engagement? f with
  | none =>
    rw [ledger_call_of_free hen]
    have hused : e.Effects R (e.used f) := by
      unfold used
      split
      · next honce => exact .single (.spend hen honce hspend)
      · exact .refl
      · exact .refl
    have hcode : (e.callable f).code.Backed (e.used f) :=
      R.vouches_backed.grows (f := f) hg (hbacked f)
    have hstart : Acts R { engine := e, held, stack := k.duties, issued }
        { engine := e.used f, held, stack := k.duties, issued } := Acts.effects hused
    exact hstart.trans (runCode_acts hen hcode hc' hcount given)
  | some x =>
    obtain ⟨d, kind⟩ := x
    rw [ledger_call_of_engaged hen]
    cases hcode : (e.callable f).code with
    | adopt p kind' =>
      have hcall : ∃ e₁, Aside R (e.used f) e₁ ∧
          Fate p e₁ ((e.used f).runCode given k (.adopt p kind')).engine := by
        cases kind' with
        | fulfill => exact resolveNow_fate (e.used f) p _
        | reject => exact ⟨_, .refl (e.used f), .settled .reject _⟩
      obtain ⟨e₁, ha, hfate⟩ := hcall
      exact .single (.adopt rfl hcode hu ha hfate)
    | wake w kind' =>
      obtain ⟨d, hduty, rfl, rfl⟩ : ∃ d', w.duty? = some d' ∧ d' = d ∧ kind' = kind := by
        simpa [engagement?, hcode, Code.engagement?] using hen
      refine Relation.ReflTransGen.head (.wake rfl hen ?_ hu (drives_of_engagement hen hd)) ?_
      · rintro p rfl
        cases w <;> cases hduty
      · have hsteps : ∀ x ∈ w.drives (e.used f), R.Carries x := by
          intro x hx
          refine hd x ?_
          rw [drives_used] at hx
          rw [Control.drives, hcode]
          exact hx
        rw [hcode] at hc'
        exact wake_acts (hF.grows hg) hduty hc' hsteps _
    | _ => simp [engagement?, hcode, Code.engagement?] at hen

theorem deliver_acts (hF : R.Fresh e) (hk : ∀ p ∈ k.targets, R.May e p)
    (result : Except Failure Value) :
    Acts R { engine := e, held, stack := k.duties, issued }
      ((e.deliver result k).ledger held issued) := by
  cases k with
  | host h => exact .refl
  | reaction capability d =>
    have hset : e.Effects R (e.settleCapability capability result) :=
      settleCapability_effects (fun q hq => hk q (Option.mem_toList.2 hq)) result
    have hstart : Acts R
        { engine := e, held, stack := (Caller.reaction capability d).duties, issued }
        { engine := e.settleCapability capability result, held,
          stack := (Caller.reaction capability d).duties, issued } := Acts.effects hset
    refine hstart.trans ?_
    cases capability with
    | none => exact .refl
    | some p => exact .single (.discharge rfl rfl trivial)
  | executor p h =>
    have hp : R.May e p := hk p (List.mem_singleton.2 rfl)
    cases result with
    | ok v => exact .single (.discharge rfl rfl trivial)
    | error failure =>
      have hf := failureValue_effects (R := R) e failure
      have hrej := hf.trans (reject_effects (hp.grows hf.grows) (e.failureValue failure).1)
      have hstart : Acts R { engine := e, held, stack := (Caller.executor p h).duties, issued }
          { engine := (e.failureValue failure).2.reject p (e.failureValue failure).1, held,
            stack := (Caller.executor p h).duties, issued } := Acts.effects hrej
      exact hstart.tail (.discharge rfl rfl trivial)
  | finalizer settled kind k =>
    cases result with
    | ok returned => exact Acts.effects (passAfter_effects hF returned settled kind)
    | error failure => exact .refl
  | discarding k => exact .refl

end Functions

/-! ## Async generators -/

section AsyncGenerators

variable {e : Engine H} {held : List (Job H)} {issued : List (AsyncGeneratorRef × Request)}

/-- Taking a request and changing the state, in two steps or in one. -/
theorem setAsyncState_take (e : Engine H) (a : AsyncGeneratorRef) (rest : List Request)
    (s t : AsyncGeneratorState) :
    (e.modifyAsyncGenerator a fun g => { g with queue := rest, state := s }).setAsyncState a t =
      (e.modifyAsyncGenerator a fun g => { g with queue := rest }).setAsyncState a t := by
  simp only [setAsyncState, modifyAsyncGenerator, Store.modify_modify]
  rfl

theorem setAsyncState_queue (e : Engine H) (a : AsyncGeneratorRef) (rest : List Request)
    (s : AsyncGeneratorState) :
    (e.modifyAsyncGenerator a fun g => { g with queue := rest }).setAsyncState a s =
      e.modifyAsyncGenerator a fun g => { g with queue := rest, state := s } := by
  simp only [setAsyncState, modifyAsyncGenerator, Store.modify_modify]
  rfl

theorem setAsyncState_same {a : AsyncGeneratorRef} {s : AsyncGeneratorState}
    (h : (e.asyncGenerator a).state = s) (rest : List Request) :
    (e.modifyAsyncGenerator a fun g => { g with queue := rest }).setAsyncState a s =
      e.modifyAsyncGenerator a fun g => { g with queue := rest } := by
  rw [setAsyncState_queue]
  simp only [modifyAsyncGenerator]
  congr 1
  refine Store.modify_congr ?_
  simp only [← h]
  rfl

theorem asyncGenerator_modify (e : Engine H) (a b : AsyncGeneratorRef)
    (change : AsyncGenerator → AsyncGenerator) :
    (e.modifyAsyncGenerator a change).asyncGenerator b =
      if b = a then change (e.asyncGenerator a) else e.asyncGenerator b := by
  simp only [asyncGenerator, modifyAsyncGenerator, Store.get_modify, AsyncGeneratorRef.index_inj]

/-- The ways in which a request that is taken off the queue is served. -/
theorem takeRequest_cases {e : Engine H} {a : AsyncGeneratorRef} {r : Request} {rest : List Request}
    (hb : (e.asyncGenerator a).state.isBusy = false)
    (hq : (e.asyncGenerator a).queue = r :: rest) :
    let taken := e.modifyAsyncGenerator a fun g => { g with queue := rest }
    let inner := (e.asyncGenerator a).inner
    ((e.asyncGenerator a).state = .completed ∧
        e.takeRequest a = (taken.answerRequest r .undefined true, .answered)) ∨
      ((e.asyncGenerator a).state = .suspendedStart ∧ r.completion.kind = .throw ∧
        e.takeRequest a =
          ((taken.closeGenerator inner).failWith a r r.completion.value, .answered)) ∨
      ((e.asyncGenerator a).state = .suspendedStart ∧ r.completion.kind = .return ∧
        e.takeRequest a =
          ((taken.closeGenerator inner).awaitReturn a r r.completion.value, .answered)) ∨
      (((e.asyncGenerator a).state = .suspendedStart ∧ r.completion.kind = .normal ∨
          (e.asyncGenerator a).state = .suspendedYield) ∧
        e.takeRequest a = (taken.setAsyncState a .executing, .resume inner r)) := by
  unfold takeRequest
  simp only [hb, hq]
  cases hs : (e.asyncGenerator a).state with
  | completed => exact .inl ⟨rfl, rfl⟩
  | suspendedStart =>
    cases hk : r.completion.kind with
    | normal => exact .inr (.inr (.inr ⟨.inl ⟨rfl, rfl⟩, rfl⟩))
    | throw => exact .inr (.inl ⟨rfl, rfl, rfl⟩)
    | «return» => exact .inr (.inr (.inl ⟨rfl, rfl, rfl⟩))
  | suspendedYield => exact .inr (.inr (.inr ⟨.inr rfl, rfl⟩))
  | executing | awaitingReturn =>
    rw [hs] at hb
    cases hb

theorem serve_acts (hF : R.Fresh e) (a : AsyncGeneratorRef)
    (hd : ∀ x ∈ (e.asyncGenerator a).drives a, R.Carries x) (reply : Value) (k : Caller H) :
    Acts R { engine := e, held, stack := k.duties, serving := some a, issued }
      ((e.serve a reply k).ledger held issued) := by
  unfold serve
  by_cases hb : (e.asyncGenerator a).state.isBusy = true
  · have hidle : e.takeRequest a = (e, .idle) := by simp [takeRequest, hb]
    rw [hidle]
    exact .single (.idle rfl (.inl hb))
  have hb : (e.asyncGenerator a).state.isBusy = false := by simpa using hb
  cases hq : (e.asyncGenerator a).queue with
  | nil =>
    have hidle : e.takeRequest a = (e, .idle) := by simp [takeRequest, hb, hq]
    rw [hidle]
    exact .single (.idle rfl (.inr hq))
  | cons r rest =>
    have hinner : R.Carries ((e.asyncGenerator a).inner, some (.serve a r)) :=
      hd _ (by simp [AsyncGenerator.drives, hq])
    have hm : R.move (.serve a r) := hinner.2 _ rfl
    have htake : ∀ (e' : Engine H) {s : AsyncGeneratorState},
        e'.asyncGenerator a = e.asyncGenerator a → s.isBusy = true →
        Acts R { engine := e', held, stack := k.duties, serving := some a, issued }
          { engine := e'.modifyAsyncGenerator a fun g => { g with queue := rest, state := s }, held,
            stack := .serve a r :: k.duties, serving := some a, issued } :=
      fun e' _ he hs => .single (.take rfl (he ▸ hb) (he ▸ hq) hs hm)
    let closed := e.closeGenerator (e.asyncGenerator a).inner
    have hclose : Acts R { engine := e, held, stack := k.duties, serving := some a, issued }
        { engine := closed, held, stack := k.duties, serving := some a, issued } :=
      Acts.effects (modifyGenerator_effects hinner.1 _)
    have hswap : (e.modifyAsyncGenerator a fun g => { g with queue := rest }).closeGenerator
        (e.asyncGenerator a).inner =
        closed.modifyAsyncGenerator a fun g => { g with queue := rest } := rfl
    obtain ⟨hs, ht⟩ | ⟨-, -, ht⟩ | ⟨-, -, ht⟩ | ⟨-, ht⟩ := takeRequest_cases hb hq
    · rw [ht, ← setAsyncState_same hs rest, ← setAsyncState_take e a rest .executing]
      exact (htake e rfl rfl).trans (answerRequest_acts rfl rfl hm rfl _ true)
    · rw [ht, hswap, failWith, ← setAsyncState_take closed a rest .executing]
      exact hclose.trans ((htake closed rfl rfl).trans (failWith_acts rfl rfl hm _))
    · rw [ht, hswap, awaitReturn, setAsyncState_queue]
      exact hclose.trans ((htake closed rfl rfl).trans
        (await_acts (w := .returning a r) rfl rfl hm ⟨hF.promises, hF.functions, hF.tallies⟩ _))
    · rw [ht, setAsyncState_queue]
      refine (htake e (s := .executing) rfl rfl).trans ?_
      refine Relation.ReflTransGen.head (.idle rfl (.inl ?_)) ?_
      · rw [asyncGenerator_modify, if_pos rfl]
        rfl
      · exact stepGenerator_acts (e := e.modifyAsyncGenerator a fun g =>
          { g with queue := rest, state := .executing }) ⟨hF.promises, hF.functions, hF.tallies⟩
          (.serving a r reply k) hinner
          (by simp [Purpose.targets]) _

end AsyncGenerators

/-! ## Jobs -/

section Jobs

variable {e : Engine H} {held : List (Job H)} {issued : List (AsyncGeneratorRef × Request)}

theorem runJob_acts (hR : R.manage) {id : Nat} {j : Job H} {jobs : JobQueue (Job H)}
    (hpop : e.jobs.pop? = some ((id, j), jobs)) (hj : ∀ p ∈ j.targets, R.May e p) (d : Drain H) :
    Acts R { engine := e, held, stack := d.duties, issued }
      ((({ e with jobs } : Engine H).runJob id d j).ledger held issued) := by
  have hrun : (∀ p q, j ≠ .adoption p q) →
      Acts R { engine := e, held, stack := d.duties, issued }
        { engine := { e with jobs }, held, called := e.calledBy j, stack := j.results ++ d.duties,
          issued } :=
    fun hne => .single (.pop hpop hne rfl hR)
  cases j with
  | reaction r v =>
    refine (hrun nofun).trans ?_
    obtain ⟨kind, handler, capability⟩ := r
    cases handler with
    | some f =>
      cases hen : e.engagement? f with
      | none =>
        have hcalled : e.calledBy (.reaction ⟨kind, some f, capability⟩ v) = none := by
          simp [calledBy, hen]
        have hfree : ({ e with jobs } : Engine H).engagement? f = none := hen
        rw [hcalled]
        show Acts R _ (Config.ledger ⟨_, .call f [v] (.reaction capability d)⟩ held issued)
        rw [ledger_call_of_free hfree]
        exact .refl
      | some x =>
        have hcalled : e.calledBy (.reaction ⟨kind, some f, capability⟩ v) = some f := by
          simp [calledBy, hen]
        have hduty : ({ e with jobs } : Engine H).engagement? f = some x := hen
        rw [hcalled]
        show Acts R _ (Config.ledger ⟨_, .call f [v] (.reaction capability d)⟩ held issued)
        rw [ledger_call_of_engaged hduty]
        exact .refl
    | none =>
      cases capability with
      | none => exact .refl
      | some p =>
        have hp : R.May ({ e with jobs } : Engine H) p := hj p (List.mem_singleton.2 rfl)
        have hset := settle_effects hp kind v
        exact (Acts.effects hset).tail (.discharge rfl rfl trivial)
  | adoption p q => exact .single (.attach hpop hR)
  | callback label code => exact hrun nofun

theorem settings_effects (e : Engine H) (draining : Bool) (limit : Option Nat)
    (policy : RejectionPolicy) (warnings : List String) :
    e.Effects R { e with draining, limit, policy, warnings } :=
  (Aside.settings e draining limit policy warnings).effects

theorem drainRound_acts {limit : Option Nat} {executed : Nat} {h : Activation H}
    (hR : e.limitReached limit executed = false → R.manage)
    (hj : ∀ p ∈ (Control.drain (.loop limit executed h)).targets e, R.May e p) :
    Acts R { engine := e, held, stack := (Drain.loop limit executed h).duties, issued }
      ((e.drainRound (.loop limit executed h)).ledger held issued) := by
  have hstop : e.Effects R { e with draining := false } :=
    settings_effects e false e.limit e.policy e.warnings
  unfold drainRound
  dsimp only
  split
  · exact Acts.effects hstop
  · next hlimit =>
    have hR : R.manage := hR (by simpa using hlimit)
    cases hpop : e.jobs.pop? with
    | none => exact Acts.effects (hstop.tail (.aside (.reportUnhandled _ hR)))
    | some next =>
      obtain ⟨⟨id, j⟩, jobs⟩ := next
      refine runJob_acts hR hpop (fun p hp => hj p ?_) (.loop limit (executed + 1) h)
      simpa [Control.targets, hlimit, hpop] using hp

theorem jobEnded_acts (id : Nat) (d : Drain H) (result : Except EngineError Unit) :
    Acts R { engine := e, held, stack := d.duties, issued }
      ((e.jobEnded id d result).ledger held issued) := by
  cases result with
  | ok u => exact .refl
  | error error =>
    exact Acts.effects (settings_effects e e.draining e.limit e.policy _)

end Jobs

/-! ## Operations of the host -/

section Operations

variable {e : Engine H} {held : List (Job H)} {issued : List (AsyncGeneratorRef × Request)}
  {h : Activation H}

theorem request_acts (hr : R.request) (a : AsyncGeneratorRef) (c : Completion) (k : Caller H) :
    Acts R { engine := e, held, stack := k.duties, issued }
      ((e.request a c k).ledger held (issued ++ [(a, ⟨c, ⟨e.promises.size⟩⟩)])) :=
  .single (.request a c hr rfl)

theorem startAsync_acts (hF : R.Fresh e)
    (hg : R.Carries (⟨e.generators.size⟩,
      some (.body ⟨e.generators.size⟩ ⟨e.promises.size⟩))) (f : Frame H) (k : Caller H) :
    Acts R { engine := e, held, stack := k.duties, issued }
      ((e.startAsync f k).ledger held issued) := by
  have hnew : e.Effects R (e.newPromise.2.newGenerator f).2 :=
    (newPromise_effects e).tail (.aside (.newGenerator _ f))
  have hown : R.Owns (e.newPromise.2.newGenerator f).2 e.newPromise.1 := Rights.owns_new hF
  have hstart : Acts R { engine := e, held, stack := k.duties, issued }
      { engine := (e.newPromise.2.newGenerator f).2, held, stack := k.duties, issued } :=
    Acts.effects hnew
  refine hstart.trans (Relation.ReflTransGen.head
    (.start (d := .body (e.newPromise.2.newGenerator f).1 e.newPromise.1) rfl hown
      (hg.2 _ rfl)) ?_)
  refine stepGenerator_acts (g := (e.newPromise.2.newGenerator f).1) (hF.grows hnew.grows)
    (.body e.newPromise.1 (.promise e.newPromise.1) k) hg ?_ _
  intro p hp
  rw [List.mem_singleton.1 hp]
  exact hown.may

theorem construct_acts (hF : R.Fresh e) {executor : FunctionRef} (hx : e.Plain executor) :
    Acts R { engine := e, held, stack := h.duties, issued }
      ((e.construct executor h).ledger held issued) := by
  have hnew := newPromise_effects (R := R) e
  have hown : R.Owns e.newPromise.2 e.newPromise.1 := Rights.owns_new hF
  obtain ⟨hf, -, -⟩ := resolvingFunctions_effects (R := R) (hF.grows hnew.grows) (.inl hown)
  have hstart : Acts R { engine := e, held, stack := h.duties, issued }
      { engine := (e.newPromise.2.resolvingFunctions e.newPromise.1).2, held, stack := h.duties,
        issued } := Acts.effects (hnew.trans hf)
  have hcall : (e.construct executor h).ledger held issued =
      { engine := (e.newPromise.2.resolvingFunctions e.newPromise.1).2, held,
        stack := .construct e.newPromise.1 :: h.duties, issued } :=
    ledger_call_of_free ((hnew.trans hf).grows.plain hx).free _ (.executor e.newPromise.1 h)
  rw [hcall]
  exact hstart.tail (.start rfl (hown.grows hf.grows) trivial)

theorem runJobs_acts :
    Acts R { engine := e, held, stack := h.duties, issued } ((e.runJobs h).ledger held issued) := by
  unfold runJobs
  split
  · exact .refl
  · exact Acts.effects (settings_effects e true e.limit e.policy e.warnings)

theorem perform_acts (hF : R.Fresh e) {op : Op H} (hop : op.Admissible e)
    (hclears : op.clears = false) (htargets : ∀ p ∈ op.targets, R.May e p)
    (hentrusted : ∀ p ∈ op.entrusts, R.entrusted p)
    (hrequest : op.request?.isSome = true → R.request)
    (hmanage : op.chore ≠ .nothing → R.manage) (hdrive : ∀ x ∈ op.drives e, R.Carries x)
    (hattach : ∀ f ∈ op.functions, R.attach f) (hwrite : ∀ o ∈ op.writes, R.write o) :
    Acts R { engine := e, held, stack := h.duties, issued }
      ((e.perform h op).ledger (op.takes e ++ held) (op.issued e issued)) := by
  have hreply : ∀ {e' : Engine H}, e.Effects R e' →
      Acts R { engine := e, held, stack := h.duties, issued }
        { engine := e', held, stack := h.duties, issued } := fun he => Acts.effects he
  have hfunction : ∀ g ∈ op.functions, Attachable R e g :=
    fun g hg => ⟨.of_isPublic (hop.functions g hg), hattach g hg⟩
  have hhandler : ∀ {f : Option FunctionRef}, (∀ g ∈ f, g ∈ op.functions) →
      AttachableHandler R e f :=
    fun hf g hg => hfunction g (hf g hg)
  have hsettings := settings_effects (R := R) e
  have hnamed : ∀ g, (g, none) ∈ op.drives e → R.Carries (g, none) := fun g hg => hdrive _ hg
  cases op with
  | newObject o => exact hreply (newObject_aside e o).effects
  | setProperty o key v =>
    exact hreply (Aside.setProperty e key v (hwrite o (List.mem_singleton.2 rfl))).effects
  | newFunction name usage code => exact hreply (newFunction_effects trivial)
  | call f args =>
    have hf : e.Plain f := .of_isPublic (hop.functions f (List.mem_singleton.2 rfl))
    have hcall : (Config.mk e (.call f args (.host h))).ledger held issued =
        { engine := e, held, stack := h.duties, issued } := ledger_call_of_free hf.free args (.host h)
    have hstay : Acts R { engine := e, held, stack := h.duties, issued }
        ((Config.mk e (.call f args (.host h))).ledger held issued) := hcall ▸ .refl
    exact hstay
  | resumeFrame f c => exact .refl
  | newGenerator f => exact hreply (Aside.newGenerator e f).effects
  | stepGenerator g c =>
    exact stepGenerator_acts hF (.outcome h) (hnamed g (List.mem_singleton.2 rfl))
      (by simp [Purpose.targets]) c
  | advanceGenerator g c =>
    exact stepGenerator_acts hF (.iterator h) (hnamed g (List.mem_singleton.2 rfl))
      (by simp [Purpose.targets]) c
  | closeGenerator g =>
    exact hreply (modifyGenerator_effects (hnamed g (List.mem_singleton.2 rfl)).1 _)
  | dropFrame g =>
    exact hreply (modifyGenerator_effects (hnamed g (List.mem_singleton.2 rfl)).1 _)
  | generatorMethod receiver method args =>
    unfold perform
    dsimp only
    split
    · next g c heq =>
      exact stepGenerator_acts hF (.iterator h) (hnamed g (List.mem_singleton.2 rfl))
        (by simp [Purpose.targets]) c
    · exact .refl
    · exact .refl
  | newAsyncGenerator f => exact hreply (Aside.newAsyncGenerator e f).effects
  | request a c => exact request_acts (hrequest rfl) a c (.host h)
  | asyncGeneratorMethod receiver method args =>
    cases receiver with
    | asyncGenerator a =>
      cases hmethod : methodCompletion? method (Value.argument args 0) with
      | none =>
        simp only [perform, Op.issued, Op.request?, hmethod]
        exact .refl
      | some c =>
        have hr : R.request := hrequest (by simp [Op.request?, hmethod])
        simp only [perform, Op.issued, Op.request?, hmethod]
        exact request_acts hr a c (.host h)
    | _ => exact .refl
  | startAsync f => exact startAsync_acts hF (hdrive _ (List.mem_singleton.2 rfl)) f (.host h)
  | newPromise => exact hreply (newPromise_effects e)
  | resolve p v => exact hreply (resolve_effects (htargets p (List.mem_singleton.2 rfl)) v)
  | fulfill p v => exact hreply (fulfill_effects (htargets p (List.mem_singleton.2 rfl)) v)
  | reject p reason => exact hreply (reject_effects (htargets p (List.mem_singleton.2 rfl)) reason)
  | promiseOf v => exact hreply (promiseOf_effects hF v)
  | rejectedPromise reason => exact hreply (rejectedPromise_effects hF reason)
  | newCapability =>
    exact hreply ((newPromise_effects e).trans
      (resolvingFunctions_effects (hF.grows (grows_newPromise e)) (.inl (Rights.owns_new hF))).1)
  | resolvingFunctions p =>
    exact hreply (resolvingFunctions_effects hF
      (.inr (hentrusted p (List.mem_singleton.2 rfl)))).1
  | construct executor =>
    exact construct_acts hF (.of_isPublic (hop.functions executor (List.mem_singleton.2 rfl)))
  | promiseThen p f g =>
    exact hreply (promiseThen_effects hF (hhandler (by simp +contextual [Op.functions]))
      (hhandler (by simp +contextual [Op.functions])))
  | promiseCatch p g =>
    exact hreply (promiseThen_effects hF attachableHandler_none
      (hhandler (by simp +contextual [Op.functions])))
  | promiseFinally p callback =>
    exact hreply (promiseFinally_effects hF (hhandler (by simp +contextual [Op.functions])))
  | performThen p f g capability =>
    refine hreply (performThen_effects (hhandler (by simp +contextual [Op.functions]))
      (hhandler (by simp +contextual [Op.functions])) fun q hq => .inr (hentrusted q ?_))
    exact Option.mem_toList.2 hq
  | collect c items => exact hreply (collect_effects hF c items)
  | race items => exact hreply (race_effects hF items)
  | promiseMethod receiver method args =>
    exact hreply (promiseMethod_effects hF hfunction receiver method)
  | promiseFunction method args => exact hreply (promiseFunction_effects hF method args)
  | await v onFulfilled onRejected => exact hreply (await_effects hF v onFulfilled onRejected)
  | setPolicy policy => exact hreply (hsettings e.draining e.limit policy e.warnings)
  | takeReported => exact hreply (Aside.takeReported e (hmanage (by rintro ⟨⟩))).effects
  | enqueue j =>
    cases j with
    | callback label code => exact hreply (.single (.callback e label code (hmanage (by rintro ⟨⟩))))
    | _ => cases hop.job _ rfl
  | runJobs => exact runJobs_acts
  | setLimit limit => exact hreply (hsettings e.draining limit e.policy e.warnings)
  | popJob =>
    rw [perform]
    cases hpop : e.jobs.pop? with
    | none =>
      simp only [Op.takes, hpop]
      exact .refl
    | some next =>
      obtain ⟨⟨id, j⟩, jobs⟩ := next
      simp only [Op.takes, hpop]
      exact .single (.takeOff hpop (hmanage (by rintro ⟨⟩)))
  | clearJobs => cases hclears
  | reset => cases hclears

end Operations

end Engine

/-! ## Steps -/

/-- A tick. -/
theorem Config.tick_acts {c : Config H} {held : List (Job H)}
    {issued : List (AsyncGeneratorRef × Request)} (hF : R.Fresh c.engine)
    (hbacked : c.engine.Backed) (ht : ∀ p ∈ c.control.targets c.engine, R.May c.engine p)
    (hR : (World.mk c held).chore .tick ≠ .nothing → R.manage)
    (hd : ∀ x ∈ c.control.drives c.engine, R.Carries x)
    (hcount : ∀ t ∈ c.control.tally? c.engine, R.count t)
    (hspend : ∀ f ∈ c.control.callee?, R.spend f) :
    Acts R (c.ledger held issued) (c.tick.ledger held issued) := by
  obtain ⟨e, control⟩ := c
  cases control with
  | host h prompt => exact .refl
  | call f args k => exact Engine.callFunction_acts hF hbacked args ht hd hcount (hspend f rfl)
  | deliver result k => exact Engine.deliver_acts hF ht result
  | resume f c s => exact Engine.resumeFrame_acts hF ht hd c f
  | run f s => exact Engine.scriptProgress_acts hF ht hd _
  | serve a reply k => exact Engine.serve_acts hF a hd reply k
  | drain d =>
    obtain ⟨limit, executed, h⟩ := d
    refine Engine.drainRound_acts (fun hlimit => hR ?_) ht
    simp only [World.chore, hlimit]
    cases e.jobs.pop? <;> rintro ⟨⟩

/-- **Every step is a chain of acts on the ledger**, as long as it does not drop
the jobs that wait. -/
theorem Step.acts {w w' : World H} {m : Move H} (h : Step w m w') (hm : m.clears = false)
    (hR : R.Covers w m) (hbacked : w.config.engine.Backed)
    (issued : List (AsyncGeneratorRef × Request)) :
    Acts R (w.ledger issued) (w'.ledger (w.issued issued m)) := by
  obtain ⟨hF, ht, he, hr, hmanage, hd, hlose, hattach, hwrite, hcount, hspend⟩ := hR
  cases h with
  | tick c held => exact Config.tick_acts hF hbacked ht hmanage hd hcount hspend
  | perform hop => exact Engine.perform_acts hF hop hm ht he hr hmanage hd hattach hwrite
  | putBack => exact .single (.putBack rfl (hmanage (by rintro ⟨⟩)))
  | finishCall result => exact .refl
  | finishFrame o code => exact Engine.frameStopped_acts hF ht hd o _
  | @finishJob e id d prompt held result => exact Engine.jobEnded_acts id d result
  | @abandon e h prompt held =>
    have hstop := Engine.settings_effects (R := R) e false e.limit e.policy e.warnings
    have hstart : Acts R { engine := e, held, stack := h.duties, issued }
        { engine := { e with draining := false }, held, stack := h.duties, issued } :=
      Acts.effects hstop
    exact hstart.tail (.abandon rfl rfl (hlose rfl))

/-- **A step that is not a chain of acts** drops the jobs that wait. -/
theorem Step.clears {w w' : World H} {m : Move H} (h : Step w m w') (hm : m.clears = true)
    (issued : List (AsyncGeneratorRef × Request)) :
    ∃ e, w'.ledger (w.issued issued m) = { w.ledger issued with engine := e } ∧
      w.config.engine.Alike e ∧ e.asyncGenerators = w.config.engine.asyncGenerators ∧
      e.waitingJobs = [] := by
  cases h with
  | @perform e h prompt held op hop =>
    cases op with
    | clearJobs => exact ⟨{ e with jobs := e.jobs.clear }, rfl, ⟨rfl, rfl, rfl⟩, rfl, rfl⟩
    | reset => exact ⟨e.reset, rfl, ⟨rfl, rfl, rfl⟩, rfl, rfl⟩
    | _ => cases hm
  | putBack => cases hm
  | _ => cases hm

/-- **A step that makes a request** appends it to the queue of the async generator,
and the machine looks at that next. -/
theorem Step.request {w w' : World H} {m : Move H} (h : Step w m w') {a : AsyncGeneratorRef}
    {c : Completion} (hm : m.request? = some (a, c))
    (issued : List (AsyncGeneratorRef × Request)) :
    (w.ledger issued).serving = none ∧
      w'.ledger (w.issued issued m) = { w.ledger issued with
        engine := (w.config.engine.addRequest a c).2
        serving := some a
        issued := issued ++ [(a, ⟨c, w.config.engine.newPromise.1⟩)] } := by
  cases h with
  | @perform e h prompt held op hop =>
    refine ⟨rfl, ?_⟩
    cases op with
    | request a' c' =>
      cases hm
      rfl
    | asyncGeneratorMethod receiver method args =>
      cases receiver with
      | asyncGenerator a' =>
        cases hmethod : Engine.methodCompletion? method (Value.argument args 0) with
        | none => simp [Move.request?, Op.request?, hmethod] at hm
        | some c' =>
          obtain ⟨rfl, rfl⟩ : a' = a ∧ c' = c := by
            simpa [Move.request?, Op.request?, hmethod] using hm
          simp only [Engine.perform, World.issued, Op.issued, Op.request?, hmethod]
          rfl
      | _ => cases hm
    | _ => cases hm
  | _ => cases hm

/-! ## Runs -/

/-- No step takes back what no operation does. -/
theorem Step.grows {w w' : World H} {m : Move H} (h : Step w m w')
    (hbacked : w.config.engine.Backed) : w.config.engine.Grows w'.config.engine := by
  cases hm : m.clears with
  | true =>
    obtain ⟨e, hl, he, -, -⟩ := h.clears hm []
    rw [show w'.config.engine = e from congrArg Ledger.engine hl]
    exact he.grows
  | false => exact (h.acts hm (Rights.all_covers w m) hbacked []).grows

/-- What holds of all code that a step makes holds of all functions for good. -/
theorem Step.codes {w w' : World H} {m : Move H} (h : Step w m w')
    (hbacked : w.config.engine.Backed) {R : Rights} (hcovers : R.Covers w m)
    {Good : Engine H → FunctionRef → Code H → Prop} (hG : R.Vouches Good)
    (hw : w.config.engine.Codes Good) : w'.config.engine.Codes Good := by
  cases hm : m.clears with
  | true =>
    obtain ⟨e, hl, he, -, -⟩ := h.clears hm []
    have hengine : w'.config.engine = e := congrArg Ledger.engine hl
    rw [hengine]
    exact hw.of_callables hG he.callables he.grows
  | false =>
    exact (h.acts hm hcovers hbacked []).preserve (P := fun l => l.engine.Codes Good)
      (fun ha => ha.codes hG) hw

/-- What functions refer to stays there. -/
theorem Step.backed {w w' : World H} {m : Move H} (h : Step w m w')
    (hw : w.config.engine.Backed) : w'.config.engine.Backed :=
  h.codes hw (Rights.all_covers w m) Rights.all.vouches_backed hw

/-- The functions of a fresh engine do nothing. -/
theorem Engine.codes_start {Good : Engine H → FunctionRef → Code H → Prop}
    (h : ∀ f, Good {} f (.constant .undefined .fulfill)) : ({} : Engine H).Codes Good := by
  intro f
  have hnone : ({} : Engine H).callable f = default := Store.get_of_size_le (Nat.zero_le _)
  rw [hnone]
  exact h f

theorem Run.backed {es : List (Event H)} {w : World H} (h : Run es w) : w.config.engine.Backed :=
  h.preserve (P := fun w => w.config.engine.Backed) (fun hs => hs.backed)
    (Engine.codes_start fun _ => trivial)

end Microtask
