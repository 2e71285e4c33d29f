import Microtask.Proofs.Combinator.Outcomes
import Microtask.Proofs.Promise.Finally

/-!
# `finally` is transparent

A promise that `then` answers with, without handlers, passes the settlement of the other promise
on (`World.Passing`). One that `finally` answers with does so too, after its callback has been
called, unless the callback throws or returns a promise that is not fulfilled
(`Engine.interruption?`). So both are in the same state when no job is left
(`World.ComesTo.finalized`).

Main statement: `Run.finally_transparent`.
-/

namespace Microtask

variable {H : Type}

/-! ## Passing a settlement on -/

section Passing

variable {w w' : World H} {m : Move H} {es since : List (Event H)} {p c : PromiseRef}

/-- The promise has been attached without handlers, or it has been resolved with the settlement
of the other one. -/
inductive World.Passing (w : World H) (es : List (Event H)) (p c : PromiseRef) : Prop where
  | attached : w.Attached es p ⟨none, none, some c⟩ c → Passing w es p c
  | passed {kind : Settling} {v : Value} : (w.config.engine.promise p).state = kind.state v →
      w.config.engine.Resolves c kind v → Passing w es p c

theorem Step.passing (h : Step w m w') (hm : m.Lossless) (hrun : Run es w)
    (hleft : Untouched (⟨w, m⟩ :: es) c) (hw : w.Passing es p c) :
    w'.Passing (⟨w, m⟩ :: es) p c := by
  cases hw with
  | attached ha =>
    rcases h.attached hm hrun ha hleft with ha' | hfired
    · exact .attached ha'
    · cases hfired with
      | @called kind v f d _ hf => cases kind <;> cases hf
      | resolved hs _ hres => exact .passed hs hres
  | @passed kind v hs hres =>
    exact .passed (h.keeps_state hrun.lawful hs) (h.resolves hrun hres)

theorem Steps.passing (h : Steps w since w') (hrun : Run es w)
    (hes : ∀ ev ∈ since, ev.move.Lossless) (hleft : Untouched (since ++ es) c)
    (hw : w.Passing es p c) : w'.Passing (since ++ es) p c := by
  induction h with
  | refl => exact hw
  | @step since w₁ w' m h hs ih =>
    obtain ⟨hm, hes⟩ := List.forall_mem_cons.1 hes
    exact hs.passing hm (hrun.trans h) hleft
      (ih hes hleft.tail)

/-- A registration of a promise that has settled waits as a job. -/
theorem World.Attached.not_idle {r : Registration} (ha : w.Attached es p r c) {kind : Settling}
    {v : Value} (hs : w.SettledAs kind p v) : ¬ w.Idle := fun hidle =>
  kind.state_ne_pending v (hs.symm.trans (ha.pending_of_idle hidle.2))

/-- When no job is left, a settlement has been passed on. -/
theorem World.Passing.resolves_of_idle (hw : w.Passing es p c) (hidle : w.Idle) {kind : Settling}
    {v : Value} (hs : w.SettledAs kind p v) : w.config.engine.Resolves c kind v := by
  cases hw with
  | attached ha => exact absurd hidle (ha.not_idle hs)
  | passed hs' hres =>
    obtain ⟨rfl, rfl⟩ := Settling.state_inj (hs.symm.trans hs')
    exact hres

end Passing

/-! ## Asking for promises -/

/-- The host asks for the promise of what handlers make of a settlement, by an operation or by a
method. -/
inductive Move.Then (p : PromiseRef) (f g : Option FunctionRef) : Move H → Prop where
  | operation : Then p f g (.perform (.promiseThen p f g))
  | rejection : f = none → Then p f g (.perform (.promiseCatch p g))
  | method {args : List Value} : Engine.functionArgument args 0 = f →
      Engine.functionArgument args 1 = g →
      Then p f g (.perform (.promiseMethod (.promise p) "then" args))
  | catchMethod {args : List Value} : f = none → Engine.functionArgument args 0 = g →
      Then p f g (.perform (.promiseMethod (.promise p) "catch" args))

/-- The host asks for `then` without handlers, by the operation or by the method. -/
inductive Move.PlainThen (p : PromiseRef) : Move H → Prop where
  | operation : PlainThen p (.perform (.promiseThen p none none))
  | method {args : List Value} : Engine.functionArgument args 0 = none →
      Engine.functionArgument args 1 = none →
      PlainThen p (.perform (.promiseMethod (.promise p) "then" args))

/-- The host asks for `finally` with a callback, by the operation or by the method. -/
inductive Move.Finally (p : PromiseRef) (f : FunctionRef) : Move H → Prop where
  | operation : Finally p f (.perform (.promiseFinally p (some f)))
  | method {args : List Value} : Engine.functionArgument args 0 = some f →
      Finally p f (.perform (.promiseMethod (.promise p) "finally" args))

section Asking

variable {w w' : World H} {m : Move H} {es : List (Event H)} {p : PromiseRef} {f : FunctionRef}

/-- The move answers with the promise. -/
structure World.Grants (w : World H) (m : Move H) (w' : World H) (answer : PromiseRef × Engine H) :
    Prop where
  request : m.request? = none
  answers : ∃ a prompt, w.config.control = .host a prompt ∧
    w' = ⟨⟨answer.2, .host a (.answered (.value (.ok (.promise answer.1))))⟩, w.held⟩

theorem World.Grants.ledger {answer : PromiseRef × Engine H} (h : w.Grants m w' answer) :
    w'.ledger (requestsIn (⟨w, m⟩ :: es)) =
      { w.ledger (requestsIn es) with engine := answer.2 } := by
  have hissued : requestsIn (⟨w, m⟩ :: es) = requestsIn es := World.issued_eq h.request w _
  obtain ⟨a, prompt, hc, rfl⟩ := h.answers
  obtain ⟨⟨e, control⟩, held⟩ := w
  cases hc
  rw [hissued]
  rfl

theorem Engine.functionArgument_mem {args : List Value} {i : Nat}
    (h : functionArgument args i = some f) : f ∈ args.filterMap Value.asFunction? := by
  refine List.mem_filterMap.2 ⟨Value.argument args i, ?_, h⟩
  cases hv : args[i]? with
  | none =>
    rw [functionArgument, Value.argument, List.getD_eq_getElem?_getD, hv] at h
    cases h
  | some v =>
    rw [Value.argument, List.getD_eq_getElem?_getD, hv]
    exact List.mem_of_getElem? hv

/-- The handlers are functions that the host has. -/
theorem Step.thenOf {g g' : Option FunctionRef} (h : Step w m w') (hm : m.Then p g g') :
    w.Grants m w' (w.config.engine.promiseThen p g g') ∧
      w.config.engine.PlainHandler g ∧ w.config.engine.PlainHandler g' := by
  have hplain : ∀ {x : Option FunctionRef}, (∀ f ∈ x, f ∈ m.functions) →
      w.config.engine.PlainHandler x := fun hx f hf => h.plain_of_functions (hx f hf)
  cases hm with
  | operation =>
    refine ⟨?_, hplain fun f hf => List.mem_append_left _ (Option.mem_toList.2 hf),
      hplain fun f hf => List.mem_append_right _ (Option.mem_toList.2 hf)⟩
    cases h with
    | perform hop => exact ⟨rfl, _, _, rfl, rfl⟩
  | rejection hg =>
    subst hg
    refine ⟨?_, nofun, hplain fun f hf => Option.mem_toList.2 hf⟩
    cases h with
    | perform hop => exact ⟨rfl, _, _, rfl, rfl⟩
  | @method args hg hg' =>
    refine ⟨?_, hplain fun f hf => Engine.functionArgument_mem (hg.trans hf),
      hplain fun f hf => Engine.functionArgument_mem (hg'.trans hf)⟩
    cases h with
    | @perform e a prompt held op hop =>
      have hthen : e.promiseMethod (.promise p) "then" args =
          (.ok (e.promiseThen p g g').1, (e.promiseThen p g g').2) := by
        simp only [Engine.promiseMethod, hg, hg']
      refine ⟨rfl, a, prompt, rfl, ?_⟩
      show World.mk (e.perform a (.promiseMethod (.promise p) "then" args)) _ = _
      rw [Engine.perform, hthen]
      rfl
  | @catchMethod args hg hg' =>
    subst hg
    refine ⟨?_, nofun, hplain fun f hf => Engine.functionArgument_mem (hg'.trans hf)⟩
    cases h with
    | @perform e a prompt held op hop =>
      have hcatch : e.promiseMethod (.promise p) "catch" args =
          (.ok (e.promiseThen p none g').1, (e.promiseThen p none g').2) := by
        simp only [Engine.promiseMethod, Engine.promiseCatch, hg']
      refine ⟨rfl, a, prompt, rfl, ?_⟩
      show World.mk (e.perform a (.promiseMethod (.promise p) "catch" args)) _ = _
      rw [Engine.perform, hcatch]
      rfl

/-- **A promise that `then` answers with is attached.** -/
theorem Step.attached_of_then {g g' : Option FunctionRef} (h : Step w m w') (hrun : Run es w)
    (hm : m.Then p g g') :
    w'.Attached (⟨w, m⟩ :: es) p ⟨g, g', some ⟨w.config.engine.promises.size⟩⟩
      ⟨w.config.engine.promises.size⟩ := by
  obtain ⟨hgrants, hg, hg'⟩ := h.thenOf hm
  exact Run.attached hrun .refl (fun f hf => ⟨hg f hf, trivial⟩) (fun f hf => ⟨hg' f hf, trivial⟩)
    hgrants.ledger

theorem Move.PlainThen.asks (h : m.PlainThen p) : m.Then p none none := by
  cases h with
  | operation => exact .operation
  | method hf hg => exact .method hf hg

/-- The callback is a function that the host has. -/
theorem Step.finallyOf (h : Step w m w') (hm : m.Finally p f) :
    w.Grants m w' (w.config.engine.promiseFinally p (some f)) ∧ w.config.engine.Plain f := by
  cases hm with
  | operation =>
    have hplain : w.config.engine.Plain f := h.plain_of_functions (List.mem_singleton_self f)
    cases h with
    | perform hop => exact ⟨⟨rfl, _, _, rfl, rfl⟩, hplain⟩
  | @method args hf =>
    have hmem : f ∈ (Move.perform (.promiseMethod (.promise p) "finally" args) : Move H).functions :=
      Engine.functionArgument_mem hf
    have hplain : w.config.engine.Plain f := h.plain_of_functions hmem
    cases h with
    | @perform e a prompt held op hop =>
      have hfinally : e.promiseMethod (.promise p) "finally" args =
          (.ok (e.promiseFinally p (some f)).1, (e.promiseFinally p (some f)).2) := by
        simp only [Engine.promiseMethod, hf]
      refine ⟨⟨rfl, a, prompt, rfl, ?_⟩, hplain⟩
      show World.mk (e.perform a (.promiseMethod (.promise p) "finally" args)) _ = _
      rw [Engine.perform, hfinally]
      rfl

/-- **The promise of a `then` without handlers passes the settlement on.** -/
theorem Step.passing_of_then (h : Step w m w') (hrun : Run es w) (hm : m.PlainThen p) :
    w'.Passing (⟨w, m⟩ :: es) p ⟨w.config.engine.promises.size⟩ :=
  .attached (h.attached_of_then hrun hm.asks)

/-- **The callback of a `finally` is to be called.** -/
theorem Step.upcoming_of_finally (h : Step w m w') (hrun : Run es w) (hm : m.Finally p f) :
    ∃ x : Finalizer, x.input = p ∧ x.result = ⟨w.config.engine.promises.size⟩ ∧ x.callback = f ∧
      w'.Equipped x ∧ w'.Upcoming (⟨w, m⟩ :: es) x := by
  obtain ⟨hgrants, hplain⟩ := h.finallyOf hm
  let c : Callable H := ⟨"thenFinally", .repeatable, .afterwards f .fulfill⟩
  let c' : Callable H := ⟨"catchFinally", .repeatable, .afterwards f .reject⟩
  let e := w.config.engine
  let e₂ := ((e.newFunction c).2.newFunction c').2
  let x : Finalizer :=
    ⟨p, ⟨e.promises.size⟩, f, (e.newFunction c).1, ((e.newFunction c).2.newFunction c').1⟩
  obtain ⟨heffects, hf, hg⟩ := Engine.newFunctions_effects
    (R := Rights.making (⟨w, m⟩ :: es) ⟨e.promises.size⟩) (e := e) (c := c) (d := c')
    (Rights.making_fresh _) ⟨hplain, trivial⟩
    ⟨(Engine.grows_newFunction e c).plain hplain, trivial⟩
  have hattached : w'.Attached (⟨w, m⟩ :: es) p x.registration x.result :=
    Run.attached (e := e₂) hrun heffects (Engine.attachableHandler_some hf)
      (Engine.attachableHandler_some hg) hgrants.ledger
  have hengine :
      w'.config.engine = (e₂.promiseThen p (some x.onFulfilled) (some x.onRejected)).2 := by
    obtain ⟨a, prompt, -, rfl⟩ := hgrants.answers
    rfl
  have hcallables : w'.config.engine.callables = e₂.callables := by
    rw [hengine, Engine.callables_promiseThen]
  obtain ⟨hc, hc'⟩ := Ledger.callable_newFunctions e c c'
  have hsize : e₂.callables.size = e.callables.size + 2 := Engine.size_newFunctions e c c'
  have hsize' : x.onRejected.index = e.callables.size + 1 := Store.size_push ..
  refine ⟨x, rfl, rfl, rfl, fun kind => ?_, .attached hattached⟩
  cases kind with
  | fulfill =>
    refine World.provides_of_callable hcallables ?_ hc
    exact (Nat.lt_add_of_pos_right (by decide)).trans_eq hsize.symm
  | reject =>
    refine World.provides_of_callable hcallables ?_ hc'
    exact hsize'.trans_lt ((Nat.lt_succ_self _).trans_eq hsize.symm)

end Asking

/-! ## Outcomes -/

/-- What a `finally` comes to by itself when its callback has thrown, or has returned a promise
that is not fulfilled. Otherwise it passes the settlement on. -/
def Engine.interruption? (e : Engine H) : Settling → Value → Option PromiseState
  | .reject, reason => some (.rejected reason)
  | .fulfill, .promise q =>
    match (e.promise q).state with
    | .pending => some .pending
    | .rejected reason => some (.rejected reason)
    | .fulfilled _ => none
  | .fulfill, _ => none

theorem Engine.StandsFor.interruption {e : Engine H} {q : PromiseRef} {v : Value}
    (h : e.StandsFor q v) : e.interruption? .fulfill v =
      match (e.promise q).state with
      | .pending => some .pending
      | .rejected reason => some (.rejected reason)
      | .fulfilled _ => none := by
  cases h with
  | itself => rfl
  | plain hv hs =>
    rw [hs]
    cases v with
    | promise q => exact absurd rfl (hv q)
    | _ => rfl

section Outcomes

variable {w : World H} {es since : List (Event H)} {x : Finalizer} {p d : PromiseRef}
  {f : FunctionRef} {kind : Settling} {v : Value}

/-- The result is pending while the promise is that the callback has returned. -/
theorem World.ComesTo.pending (hw : w.ComesTo es x (.fulfill, .promise d)) (hrun : Run es w)
    (hd : w.Pending d) : w.Pending x.result := by
  generalize hy : (Settling.fulfill, Value.promise d) = y at hw
  cases hw with
  | failing | failed => cases hy
  | returning h => exact h.pending hrun
  | @returned returned c _ hres hr =>
    cases hy
    obtain ⟨q, g, kind, v, -, hq, -, hr⟩ := hr
    have hq : q = d := by
      cases hq with
      | itself => rfl
      | plain hv => exact absurd rfl (hv d)
    subst hq
    have hne : ∀ kind u, (w.config.engine.promise q).state ≠ Settling.state kind u :=
      fun kind u hs => kind.state_ne_pending u (hs.symm.trans hd)
    cases hr with
    | attached ha => exact (hres.tied_of_open (hrun.sane c) ha.derived.unresolved).pending
    | calling hs | delivering hs | restored hs => exact absurd hs (hne .fulfill _)
    | rejected hs => exact absurd hs (hne .reject _)

/-- **When no job is left**, the result of the callback has interrupted the `finally`, or the
settlement has been restored. -/
theorem World.ComesTo.outcome {y : Settling × Value} (hw : w.ComesTo es x y) (hrun : Run es w)
    (hidle : w.Idle) (hrest : w.config.engine.Rests) (hs : w.SettledAs kind x.input v) :
    w.config.engine.interruption? y.1 y.2 = some (w.config.engine.promise x.result).state ∨
      w.config.engine.interruption? y.1 y.2 = none ∧ ∃ c, w.config.engine.Resolves c kind v ∧
        (w.config.engine.promise x.result).state = (w.config.engine.promise c).state := by
  have hhost := hidle.1
  cases hw with
  | failing _ hc | returning _ _ hc =>
    rw [Config.atHost, hc] at hhost
    cases hhost
  | failed _ hres => exact .inl (congrArg some hres.state_reject.symm)
  | @returned returned c _ hres hr =>
    obtain ⟨q, g, kind', v', hs', hq, -, hr⟩ := hr
    obtain ⟨rfl, rfl⟩ := Settling.state_inj (hs.symm.trans hs')
    have hinter := hq.interruption
    rcases hr.cases_idle hidle.1 hidle.2 with ⟨hqs, hd⟩ | ⟨u, hqs, hc⟩ | ⟨reason, hqs, hc⟩ <;>
      rw [hqs] at hinter
    · refine .inl (hinter.trans (congrArg some ?_))
      exact (hres.tied_of_open (hrun.sane c) hd.unresolved).pending.symm
    · exact .inr ⟨hinter, c, hc, hres.state_eq hrest hc.state_ne⟩
    · refine .inl (hinter.trans (congrArg some ?_))
      exact ((hres.state_eq hrest hc.state_ne).trans hc.state_reject).symm

/-! ## Runs -/

theorem World.Upcoming.derived (hw : w.Upcoming es x) : w.Derived es x.result := by
  cases hw with
  | attached ha => exact ha.derived
  | calling _ hd | callingBack _ hd => exact hd

/-- A callback that is to be called waits for a promise that is pending, when no job is left. -/
theorem World.Upcoming.pending_of_idle (hw : w.Upcoming es x) (hidle : w.Idle) :
    w.Pending x.input := by
  have hhost := hidle.1
  cases hw with
  | attached ha => exact ha.pending_of_idle hidle.2
  | calling _ _ hc | callingBack _ _ hc =>
    rw [Config.atHost, hc] at hhost
    cases hhost

theorem World.Underway.waiting {drain : Drain H} (hw : w.Underway es x kind v drain) :
    ∃ k ∈ w.config.control.callers, k.finalizes? = some x.result :=
  ⟨_, hw.waits.subset (by rw [Caller.callers_eq]; exact List.mem_cons_self), rfl⟩

/-- In the course of a run the host has asked for a promise, and has left it alone. -/
structure Obtained (Q : Move H → Prop) (es since : List (Event H)) (c : PromiseRef) : Prop where
  asked : ∃ v m v' earlier, es = since ++ ⟨v, m⟩ :: earlier ∧ Q m ∧ Step v m v' ∧ v'.Obtains c
  untouched : Untouched es c

theorem World.Grants.obtains {v v' : World H} {m : Move H} {answer : PromiseRef × Engine H}
    (h : v.Grants m v' answer) (hd : v'.Obtains d) : answer.1 = d := by
  obtain ⟨a, prompt, -, rfl⟩ := h.answers
  obtain ⟨a', hc⟩ := hd
  cases hc
  rfl

theorem Run.passing (h : Run es w) (hes : ∀ ev ∈ es, ev.move.Lossless)
    (ht : Obtained (Move.PlainThen p) es since d) : w.Passing es p d := by
  obtain ⟨v, m, v', earlier, rfl, hm, hs, hobtains⟩ := ht.asked
  obtain ⟨v₁, hearlier, hs₁, hlater⟩ := Steps.split h
  obtain rfl : ⟨v.config.engine.promises.size⟩ = d := (hs.thenOf hm.asks).1.obtains hobtains
  exact hlater.passing (Steps.step hearlier hs₁) (fun ev hev => hes ev (List.mem_append_left _ hev))
    ht.untouched (hs₁.passing_of_then hearlier hm)

theorem Run.finalizes (h : Run es w) (hes : ∀ ev ∈ es, ev.move.Lossless)
    (hd : Obtained (Move.Finally p f) es since d)
    (hfollowed : ∀ q, w.HasFollowed since d q → Untouched es q) :
    ∃ x : Finalizer, x.input = p ∧ x.result = d ∧ x.callback = f ∧ w.Finalizes es since x := by
  obtain ⟨v, m, v', earlier, rfl, hm, hs, hobtains⟩ := hd.asked
  obtain ⟨v₁, hearlier, hs₁, hlater⟩ := Steps.split h
  obtain ⟨x, hinput, hresult, hcallback, hx, hw⟩ := hs₁.upcoming_of_finally hearlier hm
  obtain rfl : x.result = d := hresult.trans ((hs.finallyOf hm).1.obtains hobtains)
  exact ⟨x, hinput, rfl, hcallback, (hlater.finalizes (Steps.step hearlier hs₁)
    (fun ev hev => hes ev (List.mem_append_left _ hev)) hd.untouched hfollowed hx hw).2⟩

/-- What has become of the promise of a `finally` with the result of its callback. It is rejected
if the callback has thrown, or has returned a promise that is rejected. It is pending while a
promise is that the callback has returned. Otherwise it is in the same state as any promise that
a `then` without handlers has answered with, which is that of the settled promise. -/
structure World.Finalized (w : World H) (es : List (Event H)) (p d : PromiseRef)
    (y : Settling × Value) : Prop where
  threw : ∀ reason, y = (.reject, reason) → w.SettledAs .reject d reason
  waits : ∀ q, y = (.fulfill, .promise q) → w.Pending q → w.Pending d
  rejected : ∀ q reason, y = (.fulfill, .promise q) → w.SettledAs .reject q reason →
    w.SettledAs .reject d reason
  passed : y.1 = .fulfill → (∀ q, y.2 = .promise q → ∃ u, w.SettledAs .fulfill q u) →
    (∀ since' t, Obtained (Move.PlainThen p) es since' t →
      (w.config.engine.promise d).state = (w.config.engine.promise t).state) ∧
    ∀ kind v, w.SettledAs kind p v → (kind = .fulfill → ∀ q, v ≠ .promise q) →
      w.SettledAs kind d v

/-- **When no job is left**, the result of the callback has had its consequence. -/
theorem World.ComesTo.finalized {y : Settling × Value} (hw : w.ComesTo es x y) (hrun : Run es w)
    (hes : ∀ ev ∈ es, ev.move.Lossless) (hidle : w.Idle) (hs : w.SettledAs kind x.input v) :
    w.Finalized es x.input x.result y := by
  have hrest : w.config.engine.Rests :=
    hrun.rests (fun ev hev => (hes ev hev).clears) hidle.1 hidle.2
  have houtcome := hw.outcome hrun hidle hrest hs
  have hstate : ∀ {s}, w.config.engine.interruption? y.1 y.2 = some s →
      (w.config.engine.promise x.result).state = s := by
    intro s hy
    rcases houtcome with hsome | ⟨hnone, -⟩
    · exact Option.some.inj (hsome.symm.trans hy)
    · cases hnone.symm.trans hy
  refine ⟨?_, ?_, ?_, fun hkind hreturned => ?_⟩
  · rintro reason rfl
    exact hstate rfl
  · rintro q rfl hq
    refine hstate ?_
    rw [Engine.interruption?, hq]
  · rintro q reason rfl hq
    refine hstate ?_
    rw [Engine.interruption?, hq]
    rfl
  · have hnone : w.config.engine.interruption? y.1 y.2 = none := by
      obtain ⟨way, returned⟩ := y
      cases hkind
      cases returned with
      | promise q =>
        obtain ⟨u, hu⟩ := hreturned q rfl
        rw [Engine.interruption?, hu]
        rfl
      | _ => rfl
    obtain hsome | ⟨-, c, hc, hcd⟩ := houtcome
    · cases hnone.symm.trans hsome
    refine ⟨fun since' t ht => hcd.trans ?_, fun kind' v' hs' hv => hcd.trans ?_⟩
    · exact hc.state_unique hrest ((hrun.passing hes ht).resolves_of_idle hidle hs)
    · obtain ⟨rfl, rfl⟩ := World.SettledAs.unique hs hs'
      exact hc.state hv

/-- **`finally` is transparent unless its callback fails.** The host has asked for the promise of
a `finally`, and leaves it alone, and what it follows in the meantime. When no job is left and
the other promise has settled, the callback has been called once, without arguments, and has had
its consequence (`World.Finalized`), unless it is still running. At any time, the promise is pending
while a promise is that the callback has returned. -/
theorem Run.finally_transparent (h : Run es w) (hes : ∀ ev ∈ es, ev.move.Lossless)
    (hd : Obtained (Move.Finally p f) es since d)
    (hfollowed : ∀ q, w.HasFollowed since d q → Untouched es q) :
    (∀ q, resultsFor d since = [(.fulfill, .promise q)] → w.Pending q → w.Pending d) ∧
    (w.Idle → w.Pending p →
      callsFor d since = [] ∧ resultsFor d since = [] ∧ w.Pending d) ∧
    ∀ kind v, w.Idle → w.SettledAs kind p v → callsFor d since = [(f, [])] ∧
      ((resultsFor d since = [] ∧ w.Pending d ∧
          ∃ k ∈ w.config.control.callers, k.finalizes? = some d) ∨
        ∃ y, resultsFor d since = [y] ∧ w.Finalized es p d y) := by
  obtain ⟨x, rfl, rfl, rfl, hw⟩ := h.finalizes hes hd hfollowed
  refine ⟨fun q hy hq => ?_, fun hidle hp => ?_, fun kind v hidle hp => ?_⟩
  · cases hw with
    | upcoming _ _ hresults | underway _ _ hresults => cases hresults.symm.trans hy
    | comesTo _ hw _ hresults =>
      cases hresults.symm.trans hy
      exact hw.pending h hq
  · cases hw with
    | upcoming hw hcalls hresults => exact ⟨hcalls, hresults, hw.derived.pending h⟩
    | underway hw => exact absurd hw.settled hp.not_settledAs
    | comesTo hs => exact absurd hs hp.not_settledAs
  · cases hw with
    | upcoming hw => exact absurd hp (hw.pending_of_idle hidle).not_settledAs
    | underway hw hcalls hresults =>
      exact ⟨hcalls, .inl ⟨hresults, hw.derived.pending h, hw.waiting⟩⟩
    | comesTo _ hw hcalls hresults =>
      exact ⟨hcalls, .inr ⟨_, hresults, hw.finalized h hes hidle hp⟩⟩

/-- The promise is rejected, and the callback returns nothing of interest. -/
theorem Run.finally_transparent_rejected :
    let made : List (Move Unit) :=
      [.perform .newPromise, .perform (.newFunction "cleanup" .repeatable ())]
    let ask : Move Unit := .perform (.promiseFinally ⟨0⟩ (some ⟨0⟩))
    let later := [.perform (.reject ⟨0⟩ .null), .perform .runJobs, .tick, .tick, .tick,
      .finishCall (.ok .undefined)] ++ List.replicate 10 .tick
    let w := ({} : World Unit).after made
    let w₁ := w.after [ask]
    let w' := w₁.after later
    let es := w₁.events later ++ ⟨w, ask⟩ :: ({} : World Unit).events made
    callsFor ⟨1⟩ (w₁.events later) = [(⟨0⟩, [])] ∧
      resultsFor ⟨1⟩ (w₁.events later) = [(.fulfill, .undefined)] ∧
      w'.Finalized es ⟨0⟩ ⟨1⟩ (.fulfill, .undefined) ∧ w'.SettledAs .reject ⟨1⟩ .null := by
  intro made ask later w w₁ w' es
  have hs : Step w ask w₁ := World.step_after (by decide +kernel)
  have hrun : Run (({} : World Unit).events made) w := World.steps_after (by decide +kernel)
  have h : Run es w' := Steps.trans (hrun.step hs) (World.steps_after (by decide +kernel))
  have hnamed : ∀ ev ∈ es, ∀ q ∈ ev.move.settles ++ ev.move.entrusts, q = ⟨0⟩ := by decide +kernel
  have huntouched : ∀ q, q ≠ ⟨0⟩ → Untouched es q := fun q hq =>
    ⟨fun ev hev _ hmem => hq (hnamed ev hev q (List.mem_append_left _ hmem)),
      fun ⟨ev, hev, hmem⟩ => hq (hnamed ev hev q (List.mem_append_right _ hmem))⟩
  have hfollowed : ∀ q, w'.HasFollowed (w₁.events later) ⟨1⟩ q → q ≠ ⟨0⟩ := by
    have hnow : (w'.config.engine.promise ⟨1⟩).following ≠ some ⟨0⟩ := by decide +kernel
    have hbefore : ∀ ev ∈ w₁.events later,
        (ev.before.config.engine.promise ⟨1⟩).following ≠ some ⟨0⟩ := by decide +kernel
    rintro q (hq | ⟨ev, hev, hq⟩) rfl
    · exact hnow hq
    · exact hbefore ev hev hq
  have hd : Obtained (Move.Finally ⟨0⟩ ⟨0⟩) es (w₁.events later) ⟨1⟩ :=
    ⟨⟨w, ask, w₁, _, rfl, .operation, hs, ⟨_, rfl⟩⟩, huntouched ⟨1⟩ nofun⟩
  have hrejected : w'.SettledAs .reject ⟨0⟩ .null := by decide +kernel
  have hresults : resultsFor ⟨1⟩ (w₁.events later) = [(.fulfill, .undefined)] := by decide +kernel
  obtain ⟨-, -, hsettled⟩ := Run.finally_transparent h (by decide +kernel) hd
    fun q hq => huntouched q (hfollowed q hq)
  obtain ⟨hcalls, ⟨hnone, -⟩ | ⟨y, hy, hfinalized⟩⟩ :=
    hsettled _ _ ⟨by decide +kernel, by decide +kernel⟩ hrejected
  · cases hresults.symm.trans hnone
  · cases hresults.symm.trans hy
    exact ⟨hcalls, hresults, hfinalized, (hfinalized.passed rfl nofun).2 _ _ hrejected nofun⟩

end Outcomes

end Microtask
