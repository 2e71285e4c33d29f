import Microtask.Machine.Op

/-!
# What operations on promises spare

An operation on promises, from settling one to the combinators, leaves every
generator and every async generator as it is, and every object that exists
(`Engine.Spares`). It may only create objects.
-/

namespace Microtask

variable {H : Type}

namespace Engine

/-- All generators and async generators are the same, and so are the objects that
existed before. -/
structure Spares (e e' : Engine H) : Prop where
  generators : e'.generators = e.generators
  asyncGenerators : e'.asyncGenerators = e.asyncGenerators
  size : e.objects.size ≤ e'.objects.size
  objects : ∀ o : ObjectRef, o.index < e.objects.size → e'.object o = e.object o

namespace Spares

variable {e e' e'' : Engine H}

theorem of_eq (hg : e'.generators = e.generators) (ha : e'.asyncGenerators = e.asyncGenerators)
    (ho : e'.objects = e.objects) : e.Spares e' :=
  ⟨hg, ha, ho ▸ Nat.le_refl _, fun o _ => by rw [object, object, ho]⟩

theorem refl (e : Engine H) : e.Spares e := .of_eq rfl rfl rfl

theorem trans (h : e.Spares e') (h' : e'.Spares e'') : e.Spares e'' where
  generators := h'.generators.trans h.generators
  asyncGenerators := h'.asyncGenerators.trans h.asyncGenerators
  size := Nat.le_trans h.size h'.size
  objects o ho := (h'.objects o (Nat.lt_of_lt_of_le ho h.size)).trans (h.objects o ho)

theorem foldl {α : Type} {f : Engine H → α → Engine H} (hf : ∀ e a, Spares e (f e a)) :
    ∀ (as : List α) (e : Engine H), e.Spares (as.foldl f e)
  | [], e => .refl e
  | a :: as, e => (hf e a).trans (foldl hf as _)

end Spares

variable (e : Engine H) (p : PromiseRef)

/-! ## Objects and errors -/

theorem spares_newObject (o : Object) : e.Spares (e.newObject o).2 := by
  refine ⟨rfl, rfl, by simp [newObject], fun r hr => ?_⟩
  simp only [object, newObject, Store.get_push, Nat.ne_of_lt hr, if_false]

theorem spares_errorValue (error : EngineError) : e.Spares (e.errorValue error).2 := by
  cases error with
  | thrown v => exact .refl e
  | _ => exact spares_newObject e _

theorem spares_failureValue (failure : Failure) : e.Spares (e.failureValue failure).2 := by
  cases failure with
  | engine error => exact spares_errorValue e error
  | thrown v => exact .refl e

/-! ## Settling -/

theorem spares_fulfillNow (v : Value) : e.Spares (e.fulfillNow p v) := by
  rw [fulfillNow]
  split
  · exact .of_eq rfl rfl rfl
  · exact .refl e

theorem spares_rejectNow (reason : Value) : e.Spares (e.rejectNow p reason) := by
  rw [rejectNow]
  split
  · cases (e.promise p).handled <;> exact .of_eq rfl rfl rfl
  · exact .refl e

theorem spares_resolveNow (v : Value) : e.Spares (e.resolveNow p v) := by
  unfold resolveNow
  split
  · split
    · exact (spares_newObject e _).trans (spares_rejectNow _ p _)
    · exact .of_eq rfl rfl rfl
  · exact spares_fulfillNow e p v

theorem spares_decideFate {next : Engine H → Engine H} (hnext : ∀ e : Engine H, e.Spares (next e)) :
    e.Spares (e.decideFate p next) := by
  unfold decideFate
  split
  · exact .refl e
  · have hlock : e.Spares (e.modifyPromise p fun r => { r with resolved := true }) :=
      .of_eq rfl rfl rfl
    exact hlock.trans (hnext _)

theorem spares_resolve (v : Value) : e.Spares (e.resolve p v) :=
  spares_decideFate e p fun e => spares_resolveNow e p v

theorem spares_fulfill (v : Value) : e.Spares (e.fulfill p v) :=
  spares_decideFate e p fun e => spares_fulfillNow e p v

theorem spares_reject (reason : Value) : e.Spares (e.reject p reason) :=
  spares_decideFate e p fun e => spares_rejectNow e p reason

theorem spares_settle (kind : Settling) (v : Value) : e.Spares (e.settle p kind v) := by
  cases kind with
  | fulfill => exact spares_resolve e p v
  | reject => exact spares_reject e p v

theorem spares_settleCapability (capability : Option PromiseRef) (result : Except Failure Value) :
    e.Spares (e.settleCapability capability result) := by
  cases capability with
  | none => exact .refl e
  | some p =>
    cases result with
    | ok v => exact spares_resolve e p v
    | error failure => exact (spares_failureValue e failure).trans (spares_reject _ p _)

/-! ## Attaching -/

theorem spares_newPromise : e.Spares e.newPromise.2 := .of_eq rfl rfl rfl

theorem spares_newFunction (c : Callable H) : e.Spares (e.newFunction c).2 := .of_eq rfl rfl rfl

section Attaching

variable (f g : Option FunctionRef)

theorem spares_performThen (capability : Option PromiseRef) :
    e.Spares (e.performThen p f g capability) := by
  rw [performThen]
  cases (e.promise p).state with
  | pending | fulfilled v => exact .of_eq rfl rfl rfl
  | rejected v => cases (e.promise p).handled <;> exact .of_eq rfl rfl rfl

theorem spares_promiseThen : e.Spares (e.promiseThen p f g).2 :=
  (spares_newPromise e).trans (spares_performThen _ p f g _)

theorem spares_promiseFinally : e.Spares (e.promiseFinally p f).2 := by
  cases f with
  | none => exact spares_promiseThen e p none none
  | some f =>
    exact (spares_newFunction e _).trans ((spares_newFunction _ _).trans
      (spares_promiseThen _ p _ _))

end Attaching

theorem spares_attachAdoption (thenable : PromiseRef) : e.Spares (e.attachAdoption p thenable) :=
  (spares_newFunction e _).trans ((spares_newFunction _ _).trans (spares_performThen _ thenable _ _ _))

theorem spares_resolvingFunctions : e.Spares (e.resolvingFunctions p).2 :=
  (spares_newFunction e _).trans (spares_newFunction _ _)

theorem spares_promiseOf (v : Value) : e.Spares (e.promiseOf v).2 := by
  cases v with
  | promise p => exact .refl e
  | _ => exact (spares_newPromise e).trans (spares_resolve _ _ _)

theorem spares_rejectedPromise (reason : Value) : e.Spares (e.rejectedPromise reason).2 :=
  (spares_newPromise e).trans (spares_reject _ _ reason)

theorem spares_await (v : Value) (w : Waiter H) : e.Spares (e.await v w) :=
  (spares_promiseOf e v).trans ((spares_newFunction _ _).trans ((spares_newFunction _ _).trans
    (spares_performThen _ _ _ _ _)))

theorem spares_passAfter (returned settled : Value) (kind : Settling) :
    e.Spares (e.passAfter returned settled kind).2 :=
  (spares_promiseOf e returned).trans ((spares_newFunction _ _).trans (spares_promiseThen _ _ _ _))

/-! ## Combinators -/

section Tallies

variable (t : TallyRef)

theorem spares_concludeTally (r : Tally) : e.Spares (e.concludeTally r) := by
  unfold concludeTally
  split
  · cases r.collection with
    | all | allSettled => exact (spares_newObject e _).trans (spares_resolve _ _ _)
    | any =>
      exact (spares_newObject e _).trans ((spares_newObject _ _).trans (spares_reject _ _ _))
  · exact .refl e

theorem spares_modifyTally (change : Tally → Tally) : e.Spares (e.modifyTally t change) :=
  .of_eq rfl rfl rfl

theorem spares_countDown : e.Spares (e.countDown t) :=
  (spares_modifyTally e t _).trans (spares_concludeTally _ _)

theorem spares_report (i : Nat) (kind : Settling) (v : Value) : e.Spares (e.report t i kind v) := by
  have hslot : ∀ c, e.Spares (e.slotContent c kind v).2 := by
    intro c
    cases c <;> cases kind <;> first | exact .refl e | exact spares_newObject e _
  unfold report
  dsimp only
  split
  · exact (hslot _).trans ((spares_modifyTally _ t _).trans (spares_countDown _ t))
  · exact .refl e

theorem spares_addElement (v : Value) (i : Nat) : e.Spares (e.addElement t v i) :=
  (spares_modifyTally e t _).trans ((spares_newFunction _ _).trans ((spares_newFunction _ _).trans
    ((spares_promiseOf _ v).trans (spares_performThen _ _ _ _ _))))

end Tallies

theorem spares_collect (c : Collection) (items : List Value) : e.Spares (e.collect c items).2 := by
  let r : Tally := { collection := c, result := e.newPromise.1, slots := items.map fun _ => none }
  let t := (e.newPromise.2.newTally r).1
  have hnew : e.Spares (e.newPromise.2.newTally r).2 := .of_eq rfl rfl rfl
  have hloop := Spares.foldl (f := fun e (x : Value × Nat) => e.addElement t x.1 x.2)
    (fun e x => spares_addElement e t x.1 x.2) items.zipIdx (e.newPromise.2.newTally r).2
  exact hnew.trans (hloop.trans (spares_countDown _ t))

theorem spares_race (items : List Value) : e.Spares (e.race items).2 := by
  have hstep : ∀ (f g : FunctionRef) (e : Engine H) (v : Value),
      e.Spares ((e.promiseOf v).2.performThen (e.promiseOf v).1 (some f) (some g) none) :=
    fun f g e v => (spares_promiseOf e v).trans (spares_performThen _ _ _ _ _)
  exact (spares_newPromise e).trans ((spares_resolvingFunctions _ _).trans
    (Spares.foldl (hstep _ _) items _))

/-! ## Methods by name -/

theorem spares_promiseMethod (receiver : Value) (method : String) (args : List Value) :
    e.Spares (e.promiseMethod receiver method args).2 := by
  unfold promiseMethod
  split
  · split
    · exact spares_promiseThen e _ _ _
    · exact spares_promiseThen e _ _ _
    · exact spares_promiseFinally e _ _
    · exact .refl e
  · exact .refl e

theorem spares_promiseFunction (method : String) (args : List Value) :
    e.Spares (e.promiseFunction method args).2 := by
  dsimp only [promiseFunction]
  cases e.elements? (Value.argument args 0) with
  | none =>
    split
    · exact spares_promiseOf e _
    · exact spares_rejectedPromise e _
    all_goals exact .refl e
  | some items =>
    split
    · exact spares_promiseOf e _
    · exact spares_rejectedPromise e _
    · exact spares_collect e .all items
    · exact spares_collect e .allSettled items
    · exact spares_race e items
    · exact spares_collect e .any items
    · exact .refl e

end Engine

end Microtask
