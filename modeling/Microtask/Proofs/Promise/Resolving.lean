import Microtask.Proofs.Promise.Faithful

/-!
# What a resolution comes to

What becomes of a promise that has been resolved with a value is determined by the value
(`Engine.Resolves`). It settles with the value, or it follows the promise that the value is and
goes on with what that one settles with. If that one follows it in turn, it is rejected, and all
that follow it are rejected with the same error (`Engine.Echoes`). Every step keeps this so
(`Step.resolves`), and when no job is left, two promises that have been resolved with the same
value are in the same state (`Engine.Resolves.state_unique`).
-/

namespace Microtask

variable {H : Type}

namespace Engine

/-! ## Resolutions -/

/-- The promise is rejected with the reason, or follows one that is. -/
inductive Echoes (e : Engine H) (reason : Value) : PromiseRef → Prop where
  | rejected {q : PromiseRef} : (e.promise q).state = .rejected reason → Echoes e reason q
  | tied {q t : PromiseRef} : (e.promise q).Tied t → Echoes e reason t → Echoes e reason q

/-- The promise has been resolved or rejected with the value. -/
inductive Resolves (e : Engine H) (p : PromiseRef) : Settling → Value → Prop where
  | settled {kind : Settling} {v : Value} : (kind = .fulfill → ∀ q, v ≠ .promise q) →
      (e.promise p).state = kind.state v → Resolves e p kind v
  | follows {q : PromiseRef} : (e.promise p).Tied q → Resolves e p .fulfill (.promise q)
  /-- The promise cannot follow one that follows it. -/
  | refused {q : PromiseRef} {reason : Value} : (e.promise p).state = .rejected reason →
      e.Echoes reason q → Resolves e p .fulfill (.promise q)
  /-- The promise that it has followed has settled. -/
  | passed {q : PromiseRef} {kind : Settling} {v : Value} : (e.promise q).state = kind.state v →
      Resolves e p kind v → Resolves e p .fulfill (.promise q)

variable {e : Engine H} {p q : PromiseRef} {kind : Settling} {v reason : Value}

/-- With a value that is no promise it has settled. -/
theorem Resolves.state (h : e.Resolves p kind v) (hv : kind = .fulfill → ∀ q, v ≠ .promise q) :
    (e.promise p).state = kind.state v := by
  cases h with
  | settled _ hs => exact hs
  | _ => exact absurd rfl (hv rfl _)

theorem Resolves.state_reject (h : e.Resolves p .reject reason) :
    (e.promise p).state = .rejected reason :=
  h.state nofun

/-- It is never fulfilled with a promise. -/
theorem Resolves.state_ne (h : e.Resolves p kind v) (q : PromiseRef) :
    (e.promise p).state ≠ .fulfilled (.promise q) := by
  induction h with
  | settled hv hs =>
    rw [hs]
    rintro hq
    obtain ⟨rfl, rfl⟩ := Settling.eq_of_fulfilled hq
    exact hv rfl q rfl
  | follows ht =>
    rw [ht.pending]
    nofun
  | refused hs =>
    rw [hs]
    nofun
  | passed _ _ ih => exact ih

/-- Its fate is decided. -/
theorem Resolves.resolved (h : e.Resolves p kind v) (hsane : ∀ x, (e.promise x).Sane) :
    (e.promise p).resolved = true := by
  have hsettled : (e.promise p).state ≠ .pending → (e.promise p).resolved = true :=
    fun hs => ((hsane p).settled hs).1
  induction h with
  | @settled kind v _ hs => exact hsettled (hs ▸ kind.state_ne_pending v)
  | follows ht => exact ht.resolved
  | refused hs => exact hsettled (by rw [hs]; nofun)
  | passed _ _ ih => exact ih

/-- It follows a promise that is open. -/
theorem Resolves.tied_of_open (h : e.Resolves p .fulfill (.promise q)) (hsane : (e.promise q).Sane)
    (hq : (e.promise q).resolved = false) : (e.promise p).Tied q := by
  have hpend := hsane.pending hq
  cases h with
  | settled hv => exact absurd rfl (hv rfl q)
  | follows ht => exact ht
  | refused _ hecho =>
    cases hecho with
    | rejected hs => cases hpend.symm.trans hs
    | tied ht => cases hq.symm.trans ht.resolved
  | @passed _ kind v hs => exact absurd (hs.symm.trans hpend) (kind.state_ne_pending v)

/-- A link is that of a promise whose fate is decided. -/
theorem tied_of_following (hsane : (e.promise p).Sane) (h : (e.promise p).following = some q) :
    (e.promise p).Tied q := by
  have hpend : (e.promise p).state = .pending := by
    by_contra hs
    rw [(hsane.settled hs).2.2.2] at h
    cases h
  refine ⟨hpend, ?_, h⟩
  by_contra hr
  rw [hsane.undecided hpend (Bool.not_eq_true _ ▸ hr)] at h
  cases h

/-! ## Deciding a fate -/

theorem state_settleNow (hpend : (e.promise p).state = .pending) (kind : Settling) (v : Value) :
    ((e.settleNow p kind v).promise p).state = kind.state v := by
  have h := promise_settleNow hpend kind v p
  rw [if_pos rfl] at h
  exact congrArg Promise.state h

section Fate

variable (hpend : (e.promise p).state = .pending)
include hpend

theorem resolves_rejectNow : (e.rejectNow p v).Resolves p .reject v :=
  .settled nofun (state_settleNow hpend .reject v)

variable (hsane : ∀ x, x ≠ p → (e.promise x).Sane)
include hsane

/-- All promises whose links lead to one that is rejected echo that. -/
theorem echoes_rejectNow (hq : Relation.ReflTransGen e.Follows q p) :
    (e.rejectNow p reason).Echoes reason q := by
  have hself : ((e.rejectNow p reason).promise p).state = .rejected reason :=
    state_settleNow hpend .reject reason
  induction hq using Relation.ReflTransGen.head_induction_on with
  | refl => exact .rejected hself
  | @head q t hqt _ ih =>
    by_cases hqp : q = p
    · exact .rejected (hqp ▸ hself)
    · have h := promise_settleNow hpend .reject reason q
      rw [if_neg hqp] at h
      have htied := tied_of_following (hsane q hqp) hqt
      exact .tied (htied.of_eq (congrArg Promise.state h) (congrArg Promise.resolved h)
        (congrArg Promise.following h)) ih

variable (hg : e.Grounded) (hr : (e.promise p).resolved = true)
include hg hr

theorem resolves_resolveNow : (e.resolveNow p v).Resolves p .fulfill v := by
  by_cases hv : ∃ q, v = .promise q
  · obtain ⟨q, rfl⟩ := hv
    cases hc : e.closesCycle p q with
    | true =>
      rw [resolveNow, if_pos hc]
      exact .refused (state_settleNow (e := (e.newError _ _).2) hpend .reject _)
        (echoes_rejectNow (e := (e.newError _ _).2) hpend hsane (hg.closesCycle_iff.1 hc))
    | false =>
      have hengine : e.resolveNow p (.promise q) = e.link p q := by
        rw [resolveNow, if_neg (by rw [hc]; exact Bool.false_ne_true)]
        rfl
      have hlink := promise_link e p q p
      rw [if_pos rfl] at hlink
      rw [hengine]
      exact .follows ⟨(congrArg Promise.state hlink).trans hpend,
        (congrArg Promise.resolved hlink).trans hr, congrArg Promise.following hlink⟩
  · have hengine : e.resolveNow p v = e.fulfillNow p v := by
      cases v with
      | promise q => exact absurd ⟨q, rfl⟩ hv
      | _ => rfl
    rw [hengine]
    exact .settled (fun _ q hq => hv ⟨q, hq⟩) (state_settleNow hpend .fulfill v)

end Fate

/-- What the result of a function settles a promise with. The value of a failure is the reason. -/
def upshot (e : Engine H) : Except Failure Value → Settling × Value
  | .ok v => (.fulfill, v)
  | .error failure => (.reject, (e.failureValue failure).1)

section Settle

variable (hg : e.Grounded) (hsane : ∀ x, (e.promise x).Sane)
  (hr : (e.promise p).resolved = false)
include hg hsane hr

/-- **A promise that is open is resolved or rejected** when it is settled. -/
theorem resolves_settle (kind : Settling) (v : Value) : (e.settle p kind v).Resolves p kind v := by
  have hpend : ((e.lock p).promise p).state = .pending :=
    (read_lock Promise.state (fun _ => rfl) e p p).trans ((hsane p).pending hr)
  have hsane' : ∀ x, x ≠ p → ((e.lock p).promise x).Sane := by
    intro x hx
    rw [promise_lock, if_neg hx]
    exact hsane x
  cases kind with
  | fulfill =>
    rw [settle, resolve, decideFate_of_unresolved hr]
    refine resolves_resolveNow hpend hsane' (hg.lock p) ?_
    rw [promise_lock, if_pos rfl]
  | reject =>
    rw [settle, reject, decideFate_of_unresolved hr]
    exact resolves_rejectNow hpend

/-- The result of a handler resolves the promise. -/
theorem resolves_settleCapability (result : Except Failure Value) :
    (e.settleCapability (some p) result).Resolves p (e.upshot result).1 (e.upshot result).2 := by
  cases result with
  | ok v => exact resolves_settle hg hsane hr .fulfill v
  | error failure =>
    have hpromise : (e.failureValue failure).2.promises = e.promises := by
      cases failure with
      | engine error => cases error <;> rfl
      | thrown v => rfl
    have hsame : ∀ x, (e.failureValue failure).2.promise x = e.promise x := fun x => by
      rw [promise, hpromise]
      rfl
    exact resolves_settle (hg.same hpromise) (fun x => by rw [hsame]; exact hsane x)
      (by rw [hsame]; exact hr) .reject _

end Settle

end Engine

/-! ## Steps -/

section Steps

variable {w w' : World H} {m : Move H} {es : List (Event H)} {p q : PromiseRef} {kind : Settling}
  {v reason : Value}

/-- The callback of an adoption passes on what it is handed, if it has not been called
before. -/
theorem Engine.callFunction_passes {e : Engine H} (hg : e.Grounded)
    (hsane : ∀ x, (e.promise x).Sane) {f : FunctionRef} (h : (e.promise p).Tied q)
    (hcode : (e.callable f).code = .adopt p kind) (v : Value) (k : Caller H) :
    ((e.callFunction f [v] k).engine.promise p).Tied q ∨
      (e.callFunction f [v] k).engine.Resolves p kind v := by
  have hrun : ∀ e₁ : Engine H, e₁.promises = e.promises →
      (e₁.runCode [v] k (.adopt p kind)).engine.Resolves p kind v := by
    intro e₁ he₁
    have hsame : ∀ x, e₁.promise x = e.promise x := fun x => by rw [promise, promise, he₁]
    have hpend : (e₁.promise p).state = .pending := by rw [hsame, h.pending]
    cases kind with
    | reject => exact Engine.resolves_rejectNow hpend
    | fulfill =>
      exact Engine.resolves_resolveNow hpend (fun x _ => by rw [hsame]; exact hsane x) (hg.same he₁)
        (by rw [hsame, h.resolved])
  cases hu : (e.callable f).usage with
  | repeatable =>
    simp only [callFunction, hu, hcode]
    exact .inr (hrun e rfl)
  | once =>
    simp only [callFunction, hu, hcode]
    exact .inr (hrun (e.spend f) rfl)
  | spent =>
    simp only [callFunction, hu]
    exact .inl h

/-- **A promise that is tied stays tied, or it is resolved** with what the other one has settled
with. -/
theorem Step.hands_on (h : Step w m w') (hrun : Run es w) (hp : (w.config.engine.promise p).Tied q) :
    (w'.config.engine.promise p).Tied q ∨ ∃ kind v,
      (w.config.engine.promise q).state = kind.state v ∧ w'.config.engine.Resolves p kind v := by
  rcases h.tied (Run.backed hrun) hp with htied | ⟨rfl, f, args, k, kind, hc, hcode⟩
  · exact .inl htied
  · obtain ⟨q', v, rfl, hq, hv⟩ := hrun.adoption_handed hc hcode
    obtain rfl : q' = q := Option.some.inj (hq.symm.trans hp.following)
    obtain ⟨⟨e, control⟩, held⟩ := w
    cases hc
    cases h with
    | tick =>
      exact (Engine.callFunction_passes hrun.grounded hrun.sane hp hcode v k).imp id fun hres =>
        ⟨kind, v, hv, hres⟩

theorem Step.echoes (h : Step w m w') (hrun : Run es w) (hq : w.config.engine.Echoes reason q) :
    w'.config.engine.Echoes reason q := by
  induction hq with
  | @rejected q hs =>
    have hs : (w.config.engine.promise q).state = Settling.reject.state reason := hs
    exact .rejected (h.keeps_state hrun.lawful hs)
  | @tied q t ht hecho ih =>
    rcases h.hands_on hrun ht with htied | ⟨kind, v, hs, hres⟩
    · exact .tied htied ih
    · cases hecho with
      | rejected hs' =>
        obtain ⟨rfl, rfl⟩ := Settling.eq_of_rejected (hs.symm.trans hs')
        exact .rejected hres.state_reject
      | tied ht' => exact absurd (hs.symm.trans ht'.pending) (kind.state_ne_pending v)

/-- **What a promise has been resolved with goes on to determine it.** -/
theorem Step.resolves (h : Step w m w') (hrun : Run es w)
    (hp : w.config.engine.Resolves p kind v) : w'.config.engine.Resolves p kind v := by
  have hkeep : ∀ {x} kind v, (w.config.engine.promise x).state = Settling.state kind v →
      (w'.config.engine.promise x).state = kind.state v := fun _ _ => h.keeps_state hrun.lawful
  induction hp with
  | settled hv hs => exact .settled hv (hkeep _ _ hs)
  | follows ht =>
    rcases h.hands_on hrun ht with htied | ⟨kind, v, hs, hres⟩
    · exact .follows htied
    · exact .passed (hkeep _ _ hs) hres
  | refused hs hq => exact .refused (hkeep .reject _ hs) (h.echoes hrun hq)
  | passed hs _ ih => exact .passed (hkeep _ _ hs) ih

end Steps

/-! ## When no job is left -/

namespace Engine

variable {e : Engine H} {p q x y : PromiseRef} {kind : Settling} {v reason : Value}

/-- No promise follows one that has settled. -/
def Rests (e : Engine H) : Prop :=
  ∀ p q, (e.promise p).Tied q → (e.promise q).state = .pending

section Rest

variable (hrest : e.Rests)
include hrest

theorem Echoes.state (h : e.Echoes reason q) : (e.promise q).state = .rejected reason := by
  induction h with
  | rejected hs => exact hs
  | tied ht _ ih => cases ih.symm.trans (hrest _ _ ht)

namespace Resolves

/-- **Promises that have been resolved with the same value are in the same state.** -/
theorem state_unique (hx : e.Resolves x kind v) (hy : e.Resolves y kind v) :
    (e.promise x).state = (e.promise y).state := by
  induction hx with
  | settled hv hs => exact hs.trans (hy.state hv).symm
  | @follows q ht =>
    have hq := hrest _ _ ht
    cases hy with
    | settled hv => exact absurd rfl (hv rfl q)
    | follows ht' => exact ht.pending.trans ht'.pending.symm
    | refused _ hecho => cases hq.symm.trans (hecho.state hrest)
    | @passed _ kind v hs => exact absurd (hs.symm.trans hq) (kind.state_ne_pending v)
  | @refused q reason hs hecho =>
    have hq := hecho.state hrest
    cases hy with
    | settled hv => exact absurd rfl (hv rfl q)
    | follows ht' => cases hq.symm.trans (hrest _ _ ht')
    | refused hs' hecho' =>
      rw [hs, hs', ← hq, ← hecho'.state hrest]
    | passed hs' hy =>
      obtain ⟨rfl, rfl⟩ := Settling.eq_of_rejected (hs'.symm.trans hq)
      exact hs.trans hy.state_reject.symm
  | @passed q kind v hs hx ih =>
    cases hy with
    | settled hv => exact absurd rfl (hv rfl q)
    | follows ht' => exact absurd (hs.symm.trans (hrest _ _ ht')) (kind.state_ne_pending v)
    | refused hs' hecho =>
      obtain ⟨rfl, rfl⟩ := Settling.eq_of_rejected (hs.symm.trans (hecho.state hrest))
      exact hx.state_reject.trans hs'.symm
    | passed hs' hy =>
      obtain ⟨rfl, rfl⟩ := Settling.state_inj (hs.symm.trans hs')
      exact ih hy

/-- A promise that has been resolved with another one is in the state of that one, unless that
one is fulfilled with a promise. -/
theorem state_eq (h : e.Resolves p .fulfill (.promise q))
    (hq : ∀ t, (e.promise q).state ≠ .fulfilled (.promise t)) :
    (e.promise p).state = (e.promise q).state := by
  cases h with
  | settled hv => exact absurd rfl (hv rfl q)
  | follows ht => exact ht.pending.trans (hrest _ _ ht).symm
  | refused hs hecho => exact hs.trans (hecho.state hrest).symm
  | @passed _ kind v hs hp =>
    refine (hp.state ?_).trans hs.symm
    rintro rfl t rfl
    exact hq t hs

end Resolves

end Rest

end Engine

/-- The host has the floor, and no job is left, not even one that it has taken off the queue. -/
theorem Run.rests {es : List (Event H)} {w : World H} (h : Run es w)
    (hes : ∀ ev ∈ es, ev.move.clears = false) (hhost : w.config.atHost = true) (hj : w.jobs = []) :
    w.config.engine.Rests := by
  intro p q ht
  have hcalled : w.config.control.called? w.config.engine = none := by
    cases hc : w.config.control with
    | call f args k => rw [Config.atHost, hc] at hhost; cases hhost
    | _ => rfl
  exact (h.balanced hes).following_pending hcalled hj ht.locked ht.following

end Microtask
