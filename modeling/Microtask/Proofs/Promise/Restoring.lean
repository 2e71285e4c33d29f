import Microtask.Proofs.Combinator.Verdict
import Microtask.Proofs.Promise.Derived

/-!
# Restoring a settlement

When the callback of a `finally` has returned, the engine derives a promise from what it has
returned, which restores the settlement from before (`Engine.passAfter`). As long as the returned
promise is pending, that one is open (`World.Restoring`). When the returned promise has been
fulfilled, a handler that ignores the value is called, and its result is the settlement from
before; when the returned promise has been rejected, the rejection is passed on
(`Step.restoring`, `World.Restoring.cases_idle`).
-/

namespace Microtask

variable {H : Type}

section Restoring

variable {w w' : World H} {m : Move H} {es : List (Event H)} {p q c : PromiseRef}
  {f g : FunctionRef} {kind : Settling} {v : Value}

/-! ## Functions of the engine -/

/-- The function exists and runs the code whenever it is called. -/
structure World.Provides (w : World H) (f : FunctionRef) (c : Code H) : Prop where
  allocated : f.index < w.config.engine.callables.size
  does : w.config.engine.Does f c

theorem World.provides_of_callable {e : Engine H} {f : FunctionRef} {name : String} {code : Code H}
    (he : w.config.engine.callables = e.callables) (hf : f.index < e.callables.size)
    (hc : e.callable f = ⟨name, .repeatable, code⟩) : w.Provides f code := by
  have hcallable : w.config.engine.callable f = e.callable f := by
    rw [Engine.callable, he]
    rfl
  refine ⟨he ▸ hf, ?_⟩
  rw [Engine.Does, hcallable, hc]
  exact ⟨rfl, rfl⟩

theorem Step.provides (h : Step w m w') (hbacked : w.config.engine.Backed) {code : Code H}
    (hf : w.Provides f code) : w'.Provides f code :=
  ⟨hf.allocated.trans_le (h.grows hbacked).callables, h.does hbacked hf.allocated hf.does⟩

/-- A promise is not redeemed while a function is being called. -/
theorem Config.not_redeems_of_call {x : Config H} {args : List Value} {k : Caller H}
    (hc : x.control = .call f args k) : ¬ x.Redeems c := by
  rintro (hc' | hc')
  · cases hc.symm.trans hc'
  · cases hc.symm.trans hc'

/-! ## Stages -/

/-- What a handler returns or throws that is to restore a settlement. -/
def Settling.result : Settling → Value → Except Failure Value
  | .fulfill, v => .ok v
  | .reject, v => .error (.thrown v)

/-- The promise `c` restores the settlement when `q` has been fulfilled, by the handler `g`. -/
inductive World.Restoring (w : World H) (es : List (Event H)) (q c : PromiseRef) (g : FunctionRef)
    (kind : Settling) (v : Value) : Prop where
  | attached : w.Attached es q ⟨some g, none, some c⟩ c → Restoring w es q c g kind v
  | calling {u : Value} {d : Drain H} : (w.config.engine.promise q).state = .fulfilled u →
      w.Derived es c → w.config.control = .call g [u] (.reaction (some c) d) →
      Restoring w es q c g kind v
  | delivering {u : Value} {d : Drain H} : (w.config.engine.promise q).state = .fulfilled u →
      w.Derived es c → w.config.control = .deliver (kind.result v) (.reaction (some c) d) →
      Restoring w es q c g kind v
  | restored {u : Value} : (w.config.engine.promise q).state = .fulfilled u →
      w.config.engine.Resolves c kind v → Restoring w es q c g kind v
  | rejected {reason : Value} : (w.config.engine.promise q).state = .rejected reason →
      w.config.engine.Resolves c .reject reason → Restoring w es q c g kind v

/-- The result of a handler settles the capability. -/
theorem Step.redeemed (h : Step w m w') (hrun : Run es w) (hw : w.Derived es c)
    {result : Except Failure Value} {d : Drain H}
    (hc : w.config.control = .deliver result (.reaction (some c) d)) :
    w' = ⟨⟨w.config.engine.settleCapability (some c) result, .drain d⟩, w.held⟩ ∧
      w'.config.engine.Resolves c (w.config.engine.upshot result).1
        (w.config.engine.upshot result).2 := by
  obtain ⟨-, rfl⟩ := h.eq_tick (by rw [Config.atHost, hc])
  have htick : w.config.tick = ⟨w.config.engine.settleCapability (some c) result, .drain d⟩ := by
    obtain ⟨⟨e, control⟩, held⟩ := w
    cases hc
    rfl
  rw [htick]
  exact ⟨rfl, Engine.resolves_settleCapability hrun.grounded hrun.sane hw.unresolved result⟩

/-- **The settlement is restored step by step.** -/
theorem Step.restoring (h : Step w m w') (hm : m.Lossless) (hrun : Run es w)
    (hg : w.Provides g (.constant v kind)) (hw : w.Restoring es q c g kind v)
    (hleft : (w.config.engine.promise c).resolved = false → Untouched (⟨w, m⟩ :: es) c) :
    w'.Restoring (⟨w, m⟩ :: es) q c g kind v := by
  have hkeep : ∀ kind' u, (w.config.engine.promise q).state = Settling.state kind' u →
      (w'.config.engine.promise q).state = kind'.state u := fun _ _ => h.keeps_state hrun.lawful
  cases hw with
  | attached ha =>
    rcases h.attached hm hrun ha (hleft ha.derived.unresolved) with ha' | hfired
    · exact .attached ha'
    · cases hfired with
      | @called kind' u f d hs hf hd hc =>
        cases kind' with
        | fulfill =>
          obtain rfl : g = f := Option.some.inj hf
          exact .calling hs hd hc
        | reject => cases hf
      | @resolved kind' u hs hf hres =>
        cases kind' with
        | fulfill => cases hf
        | reject => exact .rejected hs hres
  | @calling u d hs hd hc =>
    have hd' := h.derived hm hrun hd (hleft hd.unresolved) (Config.not_redeems_of_call hc)
    obtain rfl := h.runs hc hg.does
    refine .delivering (d := d) (hkeep .fulfill u hs) hd' ?_
    cases kind <;> rfl
  | @delivering u d hs hd hc =>
    obtain ⟨-, hres⟩ := h.redeemed hrun hd hc
    refine .restored (hkeep .fulfill u hs) ?_
    cases kind <;> exact hres
  | @restored u hs hres => exact .restored (hkeep .fulfill u hs) (h.resolves hrun hres)
  | @rejected u hs hres => exact .rejected (hkeep .reject u hs) (h.resolves hrun hres)

/-! ## When no job is left -/

/-- A promise that is attached waits for one that is pending, when no job is left. -/
theorem World.Attached.pending_of_idle {r : Registration} (h : w.Attached es p r c)
    (hj : w.jobs = []) : (w.config.engine.promise p).state = .pending := by
  rcases h.place with hs | ⟨kind, v, -, hjob⟩
  · exact hs.pending
  · rw [hj] at hjob
    cases hjob

/-- **When no job is left**, the promise is open as the other one is, or the settlement has been
restored, or the promise is rejected as the other one is. -/
theorem World.Restoring.cases_idle (hw : w.Restoring es q c g kind v)
    (hhost : w.config.atHost = true) (hj : w.jobs = []) :
    ((w.config.engine.promise q).state = .pending ∧ w.Derived es c) ∨
      (∃ u, (w.config.engine.promise q).state = .fulfilled u ∧
        w.config.engine.Resolves c kind v) ∨
      ∃ reason, (w.config.engine.promise q).state = .rejected reason ∧
        w.config.engine.Resolves c .reject reason := by
  cases hw with
  | attached ha => exact .inl ⟨ha.pending_of_idle hj, ha.derived⟩
  | calling _ _ hc | delivering _ _ hc =>
    rw [Config.atHost, hc] at hhost
    cases hhost
  | @restored u hs hres => exact .inr (.inl ⟨_, hs, hres⟩)
  | rejected hs hres => exact .inr (.inr ⟨_, hs, hres⟩)

/-! ## After a callback -/

/-- The promise `c` restores the settlement of `p` after the value that has been returned. -/
def World.Restores (w : World H) (es : List (Event H)) (p : PromiseRef) (returned : Value)
    (c : PromiseRef) : Prop :=
  ∃ q g kind v, (w.config.engine.promise p).state = kind.state v ∧
    w.config.engine.StandsFor q returned ∧ w.Provides g (.constant v kind) ∧
    w.Restoring es q c g kind v

theorem Step.restores (h : Step w m w') (hm : m.Lossless) (hrun : Run es w) {returned : Value}
    (hw : w.Restores es p returned c)
    (hleft : (w.config.engine.promise c).resolved = false → Untouched (⟨w, m⟩ :: es) c) :
    w'.Restores (⟨w, m⟩ :: es) p returned c := by
  obtain ⟨q, g, kind, v, hs, hq, hg, hr⟩ := hw
  have hpersists := (h.lawful hrun.lawful).2
  exact ⟨q, g, kind, v, h.keeps_state hrun.lawful hs, hq.persists (hpersists q),
    h.provides (Run.backed hrun) hg, h.restoring hm hrun hg hr hleft⟩

/-- **When a callback has returned**, a promise is made that restores the settlement, and the
result of the handler is that promise. -/
theorem Step.returned (h : Step w m w') (hrun : Run es w) {returned : Value} {k : Caller H}
    (hc : w.config.control = .deliver (.ok returned) (.finalizer v kind k))
    (hp : (w.config.engine.promise p).state = kind.state v) :
    ∃ c : PromiseRef, w.config.engine.promises.size ≤ c.index ∧
      w'.config.control = .deliver (.ok (.promise c)) k ∧
      w'.Restores (⟨w, m⟩ :: es) p returned c := by
  obtain ⟨rfl, hw'⟩ := h.eq_tick (by rw [Config.atHost, hc])
  let e := (w.config.engine.promiseOf returned).2
  let q := (w.config.engine.promiseOf returned).1
  -- the name of the function depends on the settlement
  obtain ⟨name, htick⟩ : ∃ name : String,
      let x := e.newFunction ⟨name, .repeatable, .constant v kind⟩
      w.config.tick = ⟨(x.2.promiseThen q (some x.1) none).2,
        .deliver (.ok (.promise ⟨x.2.promises.size⟩)) k⟩ := by
    obtain ⟨⟨e, control⟩, held⟩ := w
    cases hc
    cases kind <;> exact ⟨_, rfl⟩
  let g := (e.newFunction ⟨name, .repeatable, .constant v kind⟩).1
  let e₁ := (e.newFunction ⟨name, .repeatable, .constant v kind⟩).2
  rw [htick] at hw'
  let R := Rights.making (⟨w, .tick⟩ :: es) ⟨e₁.promises.size⟩
  have hfresh : ∀ e : Engine H, R.Fresh e := fun e => Rights.making_fresh _
  have hvalue : Engine.Effects R w.config.engine e := Engine.promiseOf_effects (hfresh _) returned
  have hgranted : (Callable.mk name .repeatable (.constant v kind) : Callable H).code.Granted R e :=
    trivial
  have heffects : Engine.Effects R w.config.engine e₁ :=
    hvalue.trans (Engine.newFunction_effects hgranted)
  have hattached : w'.Attached (⟨w, .tick⟩ :: es) q ⟨some g, none, some ⟨e₁.promises.size⟩⟩
      ⟨e₁.promises.size⟩ := by
    refine Run.attached hrun heffects
      (Engine.attachableHandler_some (Engine.attachable_newFunction (hfresh _) hgranted))
      Engine.attachableHandler_none ?_
    obtain ⟨⟨e₀, control⟩, held⟩ := w
    cases hc
    rw [hw']
    rfl
  have hengine : w'.config.engine = (e₁.promiseThen q (some g) none).2 := by rw [hw']
  have hstate : (w'.config.engine.promise q).state = (e.promise q).state := by
    rw [hengine]
    exact Engine.state_promiseThen e₁ q (some g) none q
  have hprovides : w'.Provides g (.constant v kind) := by
    refine World.provides_of_callable (e := e₁) ?_ ?_
      ((Engine.callable_newFunction e _ _).trans (if_pos rfl))
    · rw [hengine, Engine.callables_promiseThen]
    · exact (Nat.lt_succ_self _).trans_eq (Store.size_push ..).symm
  exact ⟨⟨e₁.promises.size⟩, hvalue.grows.promises, by rw [hw'], q, g, kind, v,
    h.keeps_state hrun.lawful hp,
    (Engine.standsFor_promiseOf w.config.engine returned).of_state hstate, hprovides,
    .attached hattached⟩

end Restoring

end Microtask
