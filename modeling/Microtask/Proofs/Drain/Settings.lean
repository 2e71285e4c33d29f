import Microtask.Proofs.Run

/-!
# The settings of a drain

Only the beginning and the rounds of a drain look at the limit and at the mark that a
drain is in progress. All other operations of the engine come to the same result under
other settings (`Engine.under`), and leave the settings as they are.
-/

namespace Microtask

variable {H : Type}

namespace Engine

/-- The engine with another mark for a drain in progress and another limit. -/
def under (e : Engine H) (b : Bool) (x : Option Nat) : Engine H :=
  { e with draining := b, limit := x }

variable (e : Engine H) (b : Bool) (x : Option Nat) (p : PromiseRef)

/-! ## Objects, texts and errors -/

@[simp] theorem promise_under : (e.under b x).promise p = e.promise p := rfl

@[simp] theorem tally_under (t : TallyRef) : (e.under b x).tally t = e.tally t := rfl

@[simp] theorem newObject_under (o : Object) :
    (e.under b x).newObject o = ((e.newObject o).1, (e.newObject o).2.under b x) := rfl

@[simp] theorem setProperty_under (o : ObjectRef) (key : String) (v : Value) :
    (e.under b x).setProperty o key v = (e.setProperty o key v).under b x := rfl

@[simp] theorem newPromise_under :
    (e.under b x).newPromise = (e.newPromise.1, e.newPromise.2.under b x) := rfl

@[simp] theorem newFunction_under (c : Callable H) :
    (e.under b x).newFunction c = ((e.newFunction c).1, (e.newFunction c).2.under b x) := rfl

@[simp] theorem modifyPromise_under (f : Promise → Promise) :
    (e.under b x).modifyPromise p f = (e.modifyPromise p f).under b x := rfl

@[simp] theorem modifyTally_under (t : TallyRef) (f : Tally → Tally) :
    (e.under b x).modifyTally t f = (e.modifyTally t f).under b x := rfl

@[simp] theorem enqueue_under (j : Job H) : (e.under b x).enqueue j = (e.enqueue j).under b x := rfl

@[simp] theorem textWithin?_under (depth : Nat) (v : Value) :
    (e.under b x).textWithin? depth v = e.textWithin? depth v := by
  have ho (o) : (e.under b x).object o = e.object o := rfl
  induction depth generalizing v with
  | zero => cases v <;> rfl
  | succ depth ih =>
    have ih' : (e.under b x).textWithin? depth = e.textWithin? depth := funext ih
    cases v <;> simp only [textWithin?, ho, ih']
    rfl

@[simp] theorem debugText_under (v : Value) : (e.under b x).debugText v = e.debugText v := by
  have hc (f) : (e.under b x).callable f = e.callable f := rfl
  have htext (v) : (e.under b x).text? v = e.text? v := by
    have hs : (e.under b x).objects = e.objects := rfl
    simp only [text?, hs, textWithin?_under]
  have hd (depth : Nat) : (e.under b x).debugTextWithin? depth = e.debugTextWithin? depth := by
    induction depth with
    | zero =>
      funext v
      unfold debugTextWithin?
      cases v <;> simp only [hc, htext]
    | succ depth ih =>
      funext v
      unfold debugTextWithin?
      cases v <;> simp only [hc, htext, ih, promise_under]
  have hs : (e.under b x).promises = e.promises := rfl
  simp only [debugText, debugText?, hs, hd]

@[simp] theorem displayError_under (error : EngineError) :
    (e.under b x).displayError error = e.displayError error := by
  unfold displayError
  cases error <;> simp only [debugText_under]

@[simp] theorem newError_under (name text : String) :
    (e.under b x).newError name text =
      ((e.newError name text).1, (e.newError name text).2.under b x) := rfl

@[simp] theorem errorValue_under (error : EngineError) :
    (e.under b x).errorValue error =
      ((e.errorValue error).1, (e.errorValue error).2.under b x) := by
  cases error <;> rfl

@[simp] theorem failureValue_under (f : Failure) :
    (e.under b x).failureValue f =
      ((e.failureValue f).1, (e.failureValue f).2.under b x) := by
  cases f with
  | engine error => exact errorValue_under e b x error
  | thrown v => rfl

/-! ## Promises -/

@[simp] theorem fulfillNow_under (v : Value) :
    (e.under b x).fulfillNow p v = (e.fulfillNow p v).under b x := by
  rw [fulfillNow, fulfillNow, promise_under]
  split <;> rfl

@[simp] theorem rejectNow_under (v : Value) :
    (e.under b x).rejectNow p v = (e.rejectNow p v).under b x := by
  rw [rejectNow, rejectNow, promise_under]
  split
  · cases (e.promise p).handled <;> rfl
  · rfl

@[simp] theorem chainWithin_under (n : Nat) :
    (e.under b x).chainWithin n p = e.chainWithin n p := by
  induction n generalizing p with
  | zero => rfl
  | succ n ih => simp [chainWithin, ih]

@[simp] theorem closesCycle_under (q : PromiseRef) :
    (e.under b x).closesCycle p q = e.closesCycle p q := by
  rw [closesCycle, closesCycle, chain, chainWithin_under]
  rfl

@[simp] theorem resolveNow_under (v : Value) :
    (e.under b x).resolveNow p v = (e.resolveNow p v).under b x := by
  cases v with
  | promise q => simp [resolveNow, apply_ite (under · b x)]
  | _ => exact fulfillNow_under e b x p _

@[simp] theorem decideFate_under {next : Engine H → Engine H}
    (h : ∀ e : Engine H, next (e.under b x) = (next e).under b x) :
    (e.under b x).decideFate p next = (e.decideFate p next).under b x := by
  simp [decideFate, h, apply_ite (under · b x)]

@[simp] theorem resolve_under (v : Value) :
    (e.under b x).resolve p v = (e.resolve p v).under b x :=
  decideFate_under e b x p fun e => resolveNow_under e b x p v

@[simp] theorem fulfill_under (v : Value) :
    (e.under b x).fulfill p v = (e.fulfill p v).under b x :=
  decideFate_under e b x p fun e => fulfillNow_under e b x p v

@[simp] theorem reject_under (v : Value) :
    (e.under b x).reject p v = (e.reject p v).under b x :=
  decideFate_under e b x p fun e => rejectNow_under e b x p v

@[simp] theorem performThen_under (f g : Option FunctionRef) (c : Option PromiseRef) :
    (e.under b x).performThen p f g c = (e.performThen p f g c).under b x := by
  rw [performThen, performThen, promise_under]
  cases (e.promise p).state with
  | rejected r => cases (e.promise p).handled <;> rfl
  | _ => rfl

@[simp] theorem promiseThen_under (f g : Option FunctionRef) :
    (e.under b x).promiseThen p f g =
      ((e.promiseThen p f g).1, (e.promiseThen p f g).2.under b x) := by
  simp [promiseThen]

@[simp] theorem promiseOf_under (v : Value) :
    (e.under b x).promiseOf v = ((e.promiseOf v).1, (e.promiseOf v).2.under b x) := by
  cases v with
  | promise p => rfl
  | _ => simp [promiseOf]

@[simp] theorem concludeTally_under (t : Tally) :
    (e.under b x).concludeTally t = (e.concludeTally t).under b x := by
  unfold concludeTally
  cases t.collection <;> simp [newAggregateError, apply_ite (under · b x)]

@[simp] theorem countDown_under (t : TallyRef) :
    (e.under b x).countDown t = (e.countDown t).under b x := by
  simp [countDown]

@[simp] theorem slotContent_under (c : Collection) (kind : Settling) (v : Value) :
    (e.under b x).slotContent c kind v =
      ((e.slotContent c kind v).1, (e.slotContent c kind v).2.under b x) := by
  cases c <;> cases kind <;> rfl

@[simp] theorem report_under (t : TallyRef) (i : Nat) (kind : Settling) (v : Value) :
    (e.under b x).report t i kind v = (e.report t i kind v).under b x := by
  simp [report, apply_ite (under · b x)]

@[simp] theorem addElement_under (t : TallyRef) (v : Value) (i : Nat) :
    (e.under b x).addElement t v i = (e.addElement t v i).under b x := by
  simp [addElement, elementCallbacks]

theorem foldl_under {α : Type} {f : Engine H → α → Engine H}
    (h : ∀ e a, f (under e b x) a = (f e a).under b x) (as : List α) (e : Engine H) :
    as.foldl f (e.under b x) = (as.foldl f e).under b x := by
  induction as generalizing e with
  | nil => rfl
  | cons a as ih => rw [List.foldl_cons, h, ih, List.foldl_cons]

@[simp] theorem newTally_under (t : Tally) :
    (e.under b x).newTally t = ((e.newTally t).1, (e.newTally t).2.under b x) := rfl

@[simp] theorem collect_under (c : Collection) (items : List Value) :
    (e.under b x).collect c items = ((e.collect c items).1, (e.collect c items).2.under b x) := by
  simp [collect, foldl_under]

@[simp] theorem resolvingFunctions_under :
    (e.under b x).resolvingFunctions p =
      ((e.resolvingFunctions p).1, (e.resolvingFunctions p).2.under b x) := rfl

@[simp] theorem race_under (items : List Value) :
    (e.under b x).race items = ((e.race items).1, (e.race items).2.under b x) := by
  simp [race, foldl_under]

@[simp] theorem promiseFinally_under (f : Option FunctionRef) :
    (e.under b x).promiseFinally p f =
      ((e.promiseFinally p f).1, (e.promiseFinally p f).2.under b x) := by
  cases f <;> simp [promiseFinally]

@[simp] theorem rejectedPromise_under (v : Value) :
    (e.under b x).rejectedPromise v =
      ((e.rejectedPromise v).1, (e.rejectedPromise v).2.under b x) := by
  simp [rejectedPromise]

@[simp] theorem attachAdoption_under (q : PromiseRef) :
    (e.under b x).attachAdoption p q = (e.attachAdoption p q).under b x := by
  simp [attachAdoption]

@[simp] theorem await_under (v : Value) (w : Waiter H) :
    (e.under b x).await v w = (e.await v w).under b x := by
  simp [await]

@[simp] theorem passAfter_under (returned settled : Value) (kind : Settling) :
    (e.under b x).passAfter returned settled kind =
      ((e.passAfter returned settled kind).1, (e.passAfter returned settled kind).2.under b x) := by
  simp [passAfter]

@[simp] theorem promiseMethod_under (receiver : Value) (method : String) (args : List Value) :
    (e.under b x).promiseMethod receiver method args =
      ((e.promiseMethod receiver method args).1,
        (e.promiseMethod receiver method args).2.under b x) := by
  unfold promiseMethod
  split
  · split <;> simp [promiseCatch]
  · rfl

@[simp] theorem elements?_under (v : Value) : (e.under b x).elements? v = e.elements? v := rfl

@[simp] theorem promiseFunction_under (method : String) (args : List Value) :
    (e.under b x).promiseFunction method args =
      ((e.promiseFunction method args).1, (e.promiseFunction method args).2.under b x) := by
  simp only [promiseFunction, elements?_under]
  split <;> first | rfl | simp
  all_goals cases e.elements? (Value.argument args 0) <;> simp

/-! ## Unhandled rejections -/

@[simp] theorem reportUnhandled_under :
    (e.under b x).reportUnhandled = e.reportUnhandled.under b x := by
  have hfound : (e.under b x).unhandledReasons = e.unhandledReasons := rfl
  have hwarning : (e.under b x).rejectionWarning = e.rejectionWarning := by
    funext p reason
    unfold rejectionWarning
    rw [promise_under, debugText_under]
  simp only [reportUnhandled, hfound, hwarning]
  rfl

@[simp] theorem takeReported_under :
    (e.under b x).takeReported = (e.takeReported.1, e.takeReported.2.under b x) := rfl

/-! ## Generators -/

@[simp] theorem newGenerator_under (f : Frame H) :
    (e.under b x).newGenerator f = ((e.newGenerator f).1, (e.newGenerator f).2.under b x) := rfl

@[simp] theorem newAsyncGenerator_under (f : Frame H) :
    (e.under b x).newAsyncGenerator f =
      ((e.newAsyncGenerator f).1, (e.newAsyncGenerator f).2.under b x) := rfl

@[simp] theorem closeGenerator_under (g : GeneratorRef) :
    (e.under b x).closeGenerator g = (e.closeGenerator g).under b x := rfl

@[simp] theorem dropFrame_under (g : GeneratorRef) :
    (e.under b x).dropFrame g = (e.dropFrame g).under b x := rfl

@[simp] theorem addRequest_under (a : AsyncGeneratorRef) (c : Completion) :
    (e.under b x).addRequest a c = ((e.addRequest a c).1, (e.addRequest a c).2.under b x) := rfl

@[simp] theorem beginStep_under (g : GeneratorRef) (c : Completion) :
    (e.under b x).beginStep g c = ((e.beginStep g c).1.under b x, (e.beginStep g c).2) := by
  have hg : (e.under b x).generator g = e.generator g := rfl
  simp only [beginStep, takeFrame, hg]
  cases (e.generator g).state with
  | suspendedStart => cases c.isAbrupt <;> cases (e.generator g).frame <;> rfl
  | suspendedYield => cases (e.generator g).frame <;> rfl
  | _ => rfl

@[simp] theorem endStep_under (g : GeneratorRef) (f : Frame H) (o : Outcome) :
    (e.under b x).endStep g f o = (e.endStep g f o).under b x := by
  unfold endStep
  split <;> rfl

@[simp] theorem iteratorAnswer_under (g : GeneratorRef) (r : Except EngineError Outcome) :
    (e.under b x).iteratorAnswer g r =
      ((e.iteratorAnswer g r).1, (e.iteratorAnswer g r).2.under b x) := by
  cases r with
  | error => rfl
  | ok o => cases o <;> rfl

@[simp] theorem setAsyncState_under (g : AsyncGeneratorRef) (s : AsyncGeneratorState) :
    (e.under b x).setAsyncState g s = (e.setAsyncState g s).under b x := rfl

@[simp] theorem newIteratorResult_under (v : Value) (done : Bool) :
    (e.under b x).newIteratorResult v done =
      ((e.newIteratorResult v done).1, (e.newIteratorResult v done).2.under b x) := rfl

@[simp] theorem settleYield_under (g : AsyncGeneratorRef) (r : Request) (v : Value) :
    (e.under b x).settleYield g r v = (e.settleYield g r v).under b x := by
  simp [settleYield, answerRequest]

@[simp] theorem completeWith_under (g : AsyncGeneratorRef) (r : Request) (v : Value) :
    (e.under b x).completeWith g r v = (e.completeWith g r v).under b x := by
  simp [completeWith, answerRequest]

@[simp] theorem failWith_under (g : AsyncGeneratorRef) (r : Request) (v : Value) :
    (e.under b x).failWith g r v = (e.failWith g r v).under b x := by
  simp [failWith]

@[simp] theorem absorbOutcome_under (g : AsyncGeneratorRef) (r : Request)
    (o : Except EngineError Outcome) :
    (e.under b x).absorbOutcome g r o = (e.absorbOutcome g r o).under b x := by
  unfold absorbOutcome
  split <;> simp [awaitReturn]

@[simp] theorem absorbBodyOutcome_under (g : GeneratorRef) (o : Except EngineError Outcome) :
    (e.under b x).absorbBodyOutcome g p o = (e.absorbBodyOutcome g p o).under b x := by
  unfold absorbBodyOutcome
  split <;> simp

@[simp] theorem takeRequest_under (a : AsyncGeneratorRef) :
    (e.under b x).takeRequest a = ((e.takeRequest a).1.under b x, (e.takeRequest a).2) := by
  have ha : (e.under b x).asyncGenerator a = e.asyncGenerator a := rfl
  have hm (f) : (e.under b x).modifyAsyncGenerator a f =
    (e.modifyAsyncGenerator a f).under b x := rfl
  simp only [takeRequest, ha, hm]
  split
  · rfl
  · split
    · rfl
    · split <;> simp [answerRequest, awaitReturn]

end Engine

end Microtask
