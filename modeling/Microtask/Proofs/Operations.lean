import Microtask.Proofs.Effect

/-!
# Operations as effects

Every operation that runs neither a function nor a frame is a chain of effects,
from deciding the fate of a promise to the combinators. The hypotheses say where
the right to settle a promise comes from: the promise is new, or it is the result
of a tally, or the caller has it.
-/

namespace Microtask.Engine

variable {H : Type} {R : Rights} {e : Engine H} {p : PromiseRef}

theorem Aside.effects {e' : Engine H} (h : Aside R e e') : Effects R e e' := .single (.aside h)

/-- A loop of operations that all are chains of effects. The invariant of the
loop holds of everything that grows. -/
theorem Effects.foldl {α : Type} {f : Engine H → α → Engine H} {P : Engine H → Prop}
    (hP : ∀ e e', e.Grows e' → P e → P e') (hf : ∀ e a, P e → Effects R e (f e a)) :
    ∀ (as : List α) {e : Engine H}, P e → Effects R e (as.foldl f e) := by
  intro as
  induction as with
  | nil => intro e _; exact .refl
  | cons a as ih =>
    intro e he
    have ha := hf e a he
    exact ha.trans (ih (hP e _ ha.grows he))

/-! ## Errors -/

/-- Nothing changes. -/
theorem Aside.refl (e : Engine H) : Aside R e e :=
  .settings e e.draining e.limit e.policy e.warnings

theorem newObject_aside (e : Engine H) (o : Object) : Aside R e (e.newObject o).2 := .newObject e o

theorem errorValue_effects (e : Engine H) (error : EngineError) :
    Effects R e (e.errorValue error).2 := by
  cases error with
  | thrown v => exact .refl
  | _ => exact (newObject_aside e _).effects

theorem failureValue_effects (e : Engine H) (failure : Failure) :
    Effects R e (e.failureValue failure).2 := by
  cases failure with
  | engine error => exact errorValue_effects e error
  | thrown v => exact .refl

/-! ## Deciding the fate of a promise -/

/-- What resolving a promise makes of it. An error that a cycle calls for is
created first. -/
theorem resolveNow_fate (e : Engine H) (p : PromiseRef) (v : Value) :
    ∃ e₁, Aside R e e₁ ∧ Fate p e₁ (e.resolveNow p v) := by
  have hsame : Aside R e e := .refl e
  unfold resolveNow
  split
  · next q =>
    split
    · next hc =>
      exact ⟨_, newObject_aside e (.error "TypeError" "Chaining cycle detected for promise"),
        .settled .reject _⟩
    · next hc => exact ⟨e, hsame, .adopts (Bool.not_eq_true _ ▸ hc)⟩
  · exact ⟨e, hsame, .settled .fulfill _⟩

/-- Deciding a fate after a change that does not concern promises. -/
theorem Fate.effects {e₁ e' : Engine H} (hr : (e.promise p).resolved = false) (hR : R.settle p)
    (ha : Aside R e e₁) (h : Fate p (e₁.lock p) e') : Effects R e e' := by
  refine ha.effects.tail (.decide ?_ hR h)
  rw [ha.promise]
  exact hr

/-- A fate that was decided before stays as it is. -/
theorem decideFate_effects (h : R.May e p) {next : Engine H → Engine H}
    (hnext : (e.promise p).resolved = false → R.settle p → Effects R e (next (e.lock p))) :
    Effects R e (e.decideFate p next) := by
  unfold decideFate
  split
  · exact .refl
  · next hr =>
    have hr : (e.promise p).resolved = false := by simpa using hr
    exact hnext hr (h hr)

theorem fulfill_effects (h : R.May e p) (v : Value) : Effects R e (e.fulfill p v) :=
  decideFate_effects h fun hr hR => .single (.decide hr hR (.settled .fulfill v))

theorem reject_effects (h : R.May e p) (reason : Value) : Effects R e (e.reject p reason) :=
  decideFate_effects h fun hr hR => .single (.decide hr hR (.settled .reject reason))

theorem resolve_effects (h : R.May e p) (v : Value) : Effects R e (e.resolve p v) := by
  refine decideFate_effects h fun hr hR => ?_
  unfold resolveNow
  split
  · next q =>
    split
    · -- the error is created after the promise is locked, which makes no difference
      exact Fate.effects hr hR (newObject_aside e _) (.settled .reject _)
    · next hc => exact .single (.decide hr hR (.adopts (Bool.not_eq_true _ ▸ hc)))
  · exact .single (.decide hr hR (.settled .fulfill _))

theorem settle_effects (h : R.May e p) (kind : Settling) (v : Value) :
    Effects R e (e.settle p kind v) := by
  cases kind with
  | fulfill => exact resolve_effects h v
  | reject => exact reject_effects h v

/-- A promise whose fate is decided is left alone. -/
theorem settle_of_resolved (h : (e.promise p).resolved = true) (kind : Settling) (v : Value) :
    e.settle p kind v = e := by
  cases kind with
  | fulfill => simp only [settle, resolve, decideFate, h, if_true]
  | reject => simp only [settle, reject, decideFate, h, if_true]

theorem decideFate_of_unresolved (h : (e.promise p).resolved = false)
    (next : Engine H → Engine H) : e.decideFate p next = next (e.lock p) :=
  if_neg (by rw [h]; exact Bool.false_ne_true)

/-- Otherwise its fate is decided. -/
theorem settle_fate (h : (e.promise p).resolved = false) (kind : Settling) (v : Value) :
    ∃ e₁, Aside R (e.lock p) e₁ ∧ Fate p e₁ (e.settle p kind v) := by
  cases kind with
  | fulfill =>
    rw [settle, resolve, decideFate_of_unresolved h]
    exact resolveNow_fate (e.lock p) p v
  | reject =>
    rw [settle, reject, decideFate_of_unresolved h]
    exact ⟨_, .refl _, .settled .reject v⟩

/-- It settles, unless it is to adopt a promise. -/
theorem settle_of_unresolved (h : (e.promise p).resolved = false) {kind : Settling} {v : Value}
    (hv : kind = .fulfill → ∀ q, v ≠ .promise q) :
    e.settle p kind v = (e.lock p).settleNow p kind v := by
  cases kind with
  | fulfill =>
    simp only [settle, resolve, decideFate, h, Bool.false_eq_true, if_false]
    cases v with
    | promise q => exact absurd rfl (hv rfl q)
    | _ => rfl
  | reject =>
    simp only [settle, reject, decideFate, h, Bool.false_eq_true, if_false]
    rfl

theorem settleCapability_effects {capability : Option PromiseRef} (h : ∀ q ∈ capability, R.May e q)
    (result : Except Failure Value) : Effects R e (e.settleCapability capability result) := by
  cases capability with
  | none => exact .refl
  | some p =>
    have hp := h p rfl
    cases result with
    | ok v => exact resolve_effects hp v
    | error failure =>
      have hf := failureValue_effects (R := R) e failure
      exact hf.trans (reject_effects (hp.grows hf.grows) _)

/-! ## Promises and functions that are new -/

theorem newPromise_effects (e : Engine H) : Effects R e e.newPromise.2 := .single (.newPromise e)

theorem promiseOf_effects (hF : R.Fresh e) (v : Value) : Effects R e (e.promiseOf v).2 := by
  cases v with
  | promise p => exact .refl
  | _ => exact (newPromise_effects e).trans (resolve_effects (Rights.owns_new hF).may _)

theorem rejectedPromise_effects (hF : R.Fresh e) (reason : Value) :
    Effects R e (e.rejectedPromise reason).2 :=
  (newPromise_effects e).trans (reject_effects (Rights.owns_new hF).may reason)

theorem newFunction_effects {c : Callable H} (h : c.code.Granted R e) :
    Effects R e (e.newFunction c).2 :=
  .single (.newFunction h)

/-- A new function without a duty is plain. -/
theorem plain_newFunction {c : Callable H} (h : c.code.Granted R e) :
    (e.newFunction c).2.Plain (e.newFunction c).1 := by
  refine ⟨by simp [newFunction], ?_⟩
  have hc : (e.newFunction c).2.callable (e.newFunction c).1 = c := by
    rw [callable_newFunction]
    exact if_pos rfl
  rw [engagement?, hc]
  exact h.engagement?

/-- A function without a duty that may be called later. -/
structure Attachable (R : Rights) (e : Engine H) (f : FunctionRef) : Prop where
  plain : e.Plain f
  attach : R.attach f

/-- A handler that is such a function, if there is one. -/
def AttachableHandler (R : Rights) (e : Engine H) (handler : Option FunctionRef) : Prop :=
  ∀ f ∈ handler, Attachable R e f

theorem Attachable.grows {e' : Engine H} {f : FunctionRef} (h : Attachable R e f)
    (hg : e.Grows e') : Attachable R e' f :=
  ⟨hg.plain h.plain, h.attach⟩

theorem AttachableHandler.grows {e' : Engine H} {f : Option FunctionRef}
    (h : AttachableHandler R e f) (hg : e.Grows e') : AttachableHandler R e' f :=
  fun g hf => (h g hf).grows hg

theorem AttachableHandler.plain {f : Option FunctionRef} (h : AttachableHandler R e f) :
    e.PlainHandler f :=
  fun g hf => (h g hf).plain

theorem attachableHandler_some {f : FunctionRef} (h : Attachable R e f) :
    AttachableHandler R e (some f) := by
  rintro g ⟨⟩
  exact h

theorem attachableHandler_none : AttachableHandler R e none := by
  rintro g ⟨⟩

theorem attachable_newFunction (hF : R.Fresh e) {c : Callable H} (h : c.code.Granted R e) :
    Attachable R (e.newFunction c).2 (e.newFunction c).1 :=
  ⟨plain_newFunction h, hF.functions _ le_rfl⟩

/-- Two functions, where the second may be of code that the engine with the first
one grants. -/
theorem newFunctions_effects (hF : R.Fresh e) {c d : Callable H} (hc : c.code.Granted R e)
    (hd : d.code.Granted R (e.newFunction c).2) :
    Effects R e ((e.newFunction c).2.newFunction d).2 ∧
      Attachable R ((e.newFunction c).2.newFunction d).2 (e.newFunction c).1 ∧
      Attachable R ((e.newFunction c).2.newFunction d).2 ((e.newFunction c).2.newFunction d).1 := by
  have hnext : Effects R (e.newFunction c).2 ((e.newFunction c).2.newFunction d).2 :=
    newFunction_effects hd
  exact ⟨(newFunction_effects hc).trans hnext, (attachable_newFunction hF hc).grows hnext.grows,
    attachable_newFunction (hF.grows (grows_newFunction e c)) hd⟩

theorem resolvingFunctions_effects (hF : R.Fresh e) (h : R.Allows e p) :
    Effects R e (e.resolvingFunctions p).2 ∧
      Attachable R (e.resolvingFunctions p).2 (e.resolvingFunctions p).1.1 ∧
      Attachable R (e.resolvingFunctions p).2 (e.resolvingFunctions p).1.2 :=
  newFunctions_effects (c := ⟨"resolve", .repeatable, .resolve p⟩)
    (d := ⟨"reject", .repeatable, .reject p⟩) hF h (h.grows (grows_newFunction e _))

/-! ## Attaching -/

section Attaching

variable {f g : Option FunctionRef}

theorem performThen_effects (hf : AttachableHandler R e f) (hg : AttachableHandler R e g)
    {capability : Option PromiseRef} (hc : ∀ q ∈ capability, R.Allows e q) :
    Effects R e (e.performThen p f g capability) := by
  refine .single (.performThen p hf.plain hg.plain hc fun x hx => ?_)
  rcases hx with hx | hx
  · exact (hf x hx).attach
  · exact (hg x hx).attach

/-- A pair of new functions, attached without a capability. -/
theorem performThen_new {f g : FunctionRef} (hf : Attachable R e f) (hg : Attachable R e g) :
    Effects R e (e.performThen p (some f) (some g) none) :=
  performThen_effects (attachableHandler_some hf) (attachableHandler_some hg) (by rintro q ⟨⟩)

theorem promiseThen_effects (hF : R.Fresh e) (hf : AttachableHandler R e f)
    (hg : AttachableHandler R e g) : Effects R e (e.promiseThen p f g).2 := by
  have hnew := newPromise_effects (R := R) e
  refine hnew.trans (performThen_effects (hf.grows hnew.grows) (hg.grows hnew.grows) ?_)
  rintro q ⟨⟩
  exact .inl (Rights.owns_new hF)

theorem promiseFinally_effects (hF : R.Fresh e) (hf : AttachableHandler R e f) :
    Effects R e (e.promiseFinally p f).2 := by
  cases f with
  | none => exact promiseThen_effects hF attachableHandler_none attachableHandler_none
  | some f =>
    obtain ⟨hplain, hattach⟩ := hf f rfl
    obtain ⟨h, h₁, h₂⟩ := newFunctions_effects (R := R)
      (c := ⟨"thenFinally", .repeatable, .afterwards f .fulfill⟩)
      (d := ⟨"catchFinally", .repeatable, .afterwards f .reject⟩)
      hF ⟨hplain, hattach⟩ ⟨(grows_newFunction e _).plain hplain, hattach⟩
    exact h.trans (promiseThen_effects (hF.grows h.grows) (attachableHandler_some h₁)
      (attachableHandler_some h₂))

/-- The host waits. -/
theorem await_effects (hF : R.Fresh e) (v : Value) (onFulfilled onRejected : H) :
    Effects R e (e.await v (.host onFulfilled onRejected)) := by
  have hv := promiseOf_effects hF v
  obtain ⟨h, h₁, h₂⟩ := newFunctions_effects (R := R) (e := (e.promiseOf v).2)
    (c := ⟨"awaitFulfilled", .once, .wake (.host onFulfilled onRejected) .fulfill⟩)
    (d := ⟨"awaitRejected", .once, .wake (.host onFulfilled onRejected) .reject⟩)
    (hF.grows hv.grows) rfl rfl
  exact hv.trans (h.trans (performThen_new h₁ h₂))

theorem passAfter_effects (hF : R.Fresh e) (returned settled : Value) (kind : Settling) :
    Effects R e (e.passAfter returned settled kind).2 := by
  have hv := promiseOf_effects hF returned
  -- the name of the callback depends on the kind, and nothing else does
  have hthen : ∀ name, Effects R e
      (let handler := (e.promiseOf returned).2.newFunction ⟨name, .repeatable, .constant settled kind⟩
       (handler.2.promiseThen (e.promiseOf returned).1 (some handler.1) none).2) := by
    intro name
    let c : Callable H := ⟨name, .repeatable, .constant settled kind⟩
    have hg : c.code.Granted R (e.promiseOf returned).2 := trivial
    have hc := newFunction_effects hg
    exact hv.trans (hc.trans (promiseThen_effects (hF.grows (hv.trans hc).grows)
      (attachableHandler_some (attachable_newFunction (hF.grows hv.grows) hg))
      attachableHandler_none))
  exact hthen _

end Attaching

/-! ## Combinators -/

section Tallies

variable {t : TallyRef}

theorem concludeTally_effects (r : Tally) (h : R.May e r.result) :
    Effects R e (e.concludeTally r) := by
  unfold concludeTally
  split
  · cases r.collection with
    | all | allSettled =>
      have ho := (newObject_aside (R := R) e (.ofList r.values)).effects
      exact ho.trans (resolve_effects (h.grows ho.grows) _)
    | any =>
      have ho := (newObject_aside (R := R) e (.ofList r.values)).effects.trans
        (newObject_aside _ ((Object.error "AggregateError" "All promises were rejected").set
          "errors" (e.newObject (.ofList r.values)).1)).effects
      exact ho.trans (reject_effects (h.grows ho.grows) _)
  · exact .refl

theorem modifyTally_effects {change : Tally → Tally} (ht : t.index < e.tallies.size)
    (hc : (change (e.tally t)).result = (e.tally t).result) (h : R.May e (e.tally t).result)
    (hR : R.count t) : Effects R e (e.modifyTally t change) :=
  (Aside.modifyTally ht hc h hR).effects

theorem countDown_effects (ht : t.index < e.tallies.size) (h : R.May e (e.tally t).result)
    (hR : R.count t) : Effects R e (e.countDown t) := by
  have hm : Effects R e (e.modifyTally t fun _ => (e.tally t).countDown) :=
    modifyTally_effects ht rfl h hR
  exact hm.trans (concludeTally_effects (e.tally t).countDown (h.grows hm.grows))

theorem slotContent_effects (e : Engine H) (c : Collection) (kind : Settling) (v : Value) :
    Effects R e (e.slotContent c kind v).2 := by
  cases c <;> cases kind <;> first | exact .refl | exact (newObject_aside e _).effects

theorem report_effects {i : Nat} (ht : t.index < e.tallies.size)
    (h : (e.tally t).accepts i = true → R.May e (e.tally t).result) (hR : R.count t)
    (kind : Settling) (v : Value) : Effects R e (e.report t i kind v) := by
  unfold report
  by_cases ho : (e.tally t).accepts i = true
  · simp only [ho, if_true]
    have hs := slotContent_effects (R := R) e (e.tally t).collection kind v
    have hmay : ∀ {e' : Engine H}, e.Effects R e' → R.May e' (e'.tally t).result := by
      intro e' he
      rw [he.grows.result t ht]
      exact (h ho).grows he.grows
    have hfill : Effects R e ((e.slotContent (e.tally t).collection kind v).2.modifyTally t
        (·.fill i (e.slotContent (e.tally t).collection kind v).1)) :=
      hs.trans (modifyTally_effects (ht.trans_le hs.grows.tallies) rfl (hmay hs) hR)
    exact hfill.trans (countDown_effects (ht.trans_le hfill.grows.tallies) (hmay hfill) hR)
  · simp only [ho]
    exact .refl

/-- A tally that has been created and may be counted, and whose result may be settled. -/
def OwnsTally (R : Rights) (t : TallyRef) (e : Engine H) : Prop :=
  t.index < e.tallies.size ∧ R.Owns e (e.tally t).result ∧ R.count t

theorem OwnsTally.grows {e' : Engine H} (hg : e.Grows e') (h : OwnsTally R t e) :
    OwnsTally R t e' := by
  refine ⟨h.1.trans_le hg.tallies, ?_, h.2.2⟩
  rw [hg.result t h.1]
  exact h.2.1.grows hg

/-- The code of an element callback reports to the tally or settles its result. -/
theorem OwnsTally.granted (h : OwnsTally R t e) (i : Nat) (kind : Settling) :
    (Code.report t i kind).Granted R e ∧ (Code.resolve (e.tally t).result).Granted R e ∧
      (Code.reject (e.tally t).result).Granted R e :=
  ⟨⟨h.1, .inl h.2.1, h.2.2⟩, .inl h.2.1, .inl h.2.1⟩

theorem elementCallbacks_effects (hF : R.Fresh e) (h : OwnsTally R t e) (i : Nat) :
    Effects R e (e.elementCallbacks t i).2 ∧
      Attachable R (e.elementCallbacks t i).2 (e.elementCallbacks t i).1.1 ∧
      Attachable R (e.elementCallbacks t i).2 (e.elementCallbacks t i).1.2 := by
  have hnext : ∀ c : Callable H, OwnsTally R t (e.newFunction c).2 :=
    fun c => h.grows (grows_newFunction e c)
  cases hc : (e.tally t).collection with
  | all =>
    simp only [elementCallbacks, hc]
    exact newFunctions_effects hF (h.granted i .fulfill).1 ((hnext _).granted i .reject).2.2
  | allSettled =>
    simp only [elementCallbacks, hc]
    exact newFunctions_effects hF (h.granted i .fulfill).1 ((hnext _).granted i .reject).1
  | any =>
    simp only [elementCallbacks, hc]
    exact newFunctions_effects hF (h.granted i .fulfill).2.1 ((hnext _).granted i .reject).1

theorem addElement_effects (hF : R.Fresh e) (h : OwnsTally R t e) (v : Value) (i : Nat) :
    Effects R e (e.addElement t v i) := by
  have hm : Effects R e
      (e.modifyTally t fun r => { r with outstanding := r.outstanding + 1 }) :=
    modifyTally_effects h.1 rfl h.2.1.may h.2.2
  obtain ⟨hc, h₁, h₂⟩ := elementCallbacks_effects (hF.grows hm.grows) (h.grows hm.grows) i
  have hp := promiseOf_effects (hF.grows (hm.trans hc).grows) v
  exact hm.trans (hc.trans (hp.trans (performThen_new (h₁.grows hp.grows) (h₂.grows hp.grows))))

theorem collect_effects (hF : R.Fresh e) (collection : Collection) (items : List Value) :
    Effects R e (e.collect collection items).2 := by
  have hnew := newPromise_effects (R := R) e
  let r : Tally := { collection, result := e.newPromise.1, slots := items.map fun _ => none }
  have hr : R.Owns e.newPromise.2 r.result := Rights.owns_new hF
  have ht := (Aside.newTally hr).effects
  have hown : OwnsTally R (e.newPromise.2.newTally r).1 (e.newPromise.2.newTally r).2 := by
    refine ⟨by simp [newTally], ?_, hF.tallies _ le_rfl⟩
    have hget : (e.newPromise.2.newTally r).2.tally (e.newPromise.2.newTally r).1 = r := by
      simp [tally, newTally, Store.get_push]
    rw [hget]
    exact hr.grows ht.grows
  have hloop := Effects.foldl (R := R)
    (f := fun e' (x : Value × Nat) => e'.addElement (e.newPromise.2.newTally r).1 x.1 x.2)
    (P := fun e' => R.Fresh e' ∧ OwnsTally R (e.newPromise.2.newTally r).1 e')
    (fun _ _ hg h => ⟨h.1.grows hg, h.2.grows hg⟩)
    (fun e' x h => addElement_effects h.1 h.2 x.1 x.2)
    items.zipIdx ⟨hF.grows (hnew.trans ht).grows, hown⟩
  have hlast := hown.grows hloop.grows
  exact hnew.trans (ht.trans (hloop.trans (countDown_effects hlast.1 hlast.2.1.may hlast.2.2)))

end Tallies

theorem race_effects (hF : R.Fresh e) (items : List Value) : Effects R e (e.race items).2 := by
  have hnew := newPromise_effects (R := R) e
  obtain ⟨hf, h₁, h₂⟩ := resolvingFunctions_effects (R := R) (hF.grows hnew.grows)
    (.inl (Rights.owns_new hF))
  refine hnew.trans (hf.trans ?_)
  refine Effects.foldl
    (P := fun e' => R.Fresh e' ∧
      Attachable R e' (e.newPromise.2.resolvingFunctions e.newPromise.1).1.1 ∧
      Attachable R e' (e.newPromise.2.resolvingFunctions e.newPromise.1).1.2)
    (fun _ _ hg h => ⟨h.1.grows hg, h.2.1.grows hg, h.2.2.grows hg⟩) (fun e' v h => ?_) items
    ⟨hF.grows (hnew.trans hf).grows, h₁, h₂⟩
  have hp := promiseOf_effects h.1 v
  exact hp.trans (performThen_new (h.2.1.grows hp.grows) (h.2.2.grows hp.grows))

/-! ## Methods by name -/

theorem attachableHandler_functionArgument {args : List Value}
    (h : ∀ f ∈ args.filterMap Value.asFunction?, Attachable R e f) (i : Nat) :
    AttachableHandler R e (functionArgument args i) := by
  intro f hf
  refine h f (List.mem_filterMap.2 ?_)
  unfold functionArgument Value.argument at hf
  rw [List.getD_eq_getElem?_getD] at hf
  cases hv : args[i]? with
  | none => rw [hv] at hf; cases hf
  | some v =>
    rw [hv] at hf
    exact ⟨v, List.mem_of_getElem? hv, hf⟩

theorem promiseMethod_effects (hF : R.Fresh e) {args : List Value}
    (h : ∀ f ∈ args.filterMap Value.asFunction?, Attachable R e f) (receiver : Value)
    (method : String) : Effects R e (e.promiseMethod receiver method args).2 := by
  have hargs := attachableHandler_functionArgument h
  unfold promiseMethod
  split
  · split
    · exact promiseThen_effects hF (hargs 0) (hargs 1)
    · exact promiseThen_effects hF attachableHandler_none (hargs 0)
    · exact promiseFinally_effects hF (hargs 0)
    · exact .refl
  · exact .refl

theorem promiseFunction_effects (hF : R.Fresh e) (method : String) (args : List Value) :
    Effects R e (e.promiseFunction method args).2 := by
  dsimp only [promiseFunction]
  cases e.elements? (Value.argument args 0) with
  | none =>
    split
    · exact promiseOf_effects hF _
    · exact rejectedPromise_effects hF _
    all_goals exact .refl
  | some items =>
    split
    · exact promiseOf_effects hF _
    · exact rejectedPromise_effects hF _
    · exact collect_effects hF .all items
    · exact collect_effects hF .allSettled items
    · exact race_effects hF items
    · exact collect_effects hF .any items
    · exact .refl

/-! ## Generators -/

section Generators

variable {g : GeneratorRef} (hg : R.drive g)
include hg

theorem modifyGenerator_effects (change : Generator H → Generator H) :
    Effects R e (e.modifyGenerator g change) :=
  (Aside.modifyGenerator e change hg).effects

theorem beginStep_effects (c : Completion) : Effects R e (e.beginStep g c).1 := by
  unfold beginStep takeFrame closeGenerator
  split
  · exact .refl
  · exact .refl
  · split
    · exact modifyGenerator_effects hg _
    · split <;> exact modifyGenerator_effects hg _
  · split <;> exact modifyGenerator_effects hg _

theorem endStep_effects (f : Frame H) (o : Outcome) : Effects R e (e.endStep g f o) := by
  unfold endStep
  split <;> exact modifyGenerator_effects hg _

theorem iteratorAnswer_effects (result : Except EngineError Outcome) :
    Effects R e (e.iteratorAnswer g result).2 := by
  unfold iteratorAnswer
  split
  · exact .refl
  · exact (newObject_aside e _).effects
  · exact (newObject_aside e _).effects
  · exact .refl
  · exact modifyGenerator_effects hg _

end Generators

end Microtask.Engine
