import Microtask.Proofs.Run

/-!
# Engines in a guise

Most operations of the engine never look at the settings of a drain, at the records of
generators or at what the continuations of an await wake. A `Guise` changes these, and an
engine in a guise does what the engine does, in the guise: every operation commutes with it,
under conditions where the operation looks at what is changed.
-/

namespace Microtask

variable {H : Type}

/-! ## Stores -/

namespace Store

variable {α : Type}

/-- Change all cells. -/
def map (s : Store α) (f : α → α) : Store α := ⟨s.cells.map f⟩

@[simp] theorem size_map (s : Store α) (f : α → α) : (s.map f).size = s.size := by
  simp [size, map]

@[simp] theorem map_id (s : Store α) : s.map (fun a => a) = s := by simp [map]

theorem map_push (s : Store α) (f : α → α) (a : α) : (s.push a).map f = (s.map f).push (f a) := by
  simp [map, push]

variable [Inhabited α]

theorem ext_get {s t : Store α} (hsize : s.size = t.size) (hget : ∀ i, s.get i = t.get i) :
    s = t := by
  obtain ⟨s⟩ := s
  obtain ⟨t⟩ := t
  congr 1
  refine Array.ext hsize fun i hs ht => ?_
  have hi := hget i
  simpa only [get, Array.getElem?_eq_getElem hs, Array.getElem?_eq_getElem ht,
    Option.getD_some] using hi

theorem get_map (s : Store α) {f : α → α} (hf : f default = default) (i : Nat) :
    (s.map f).get i = f (s.get i) := by
  by_cases hi : i < s.cells.size <;> simp [get, map, hi, hf]

/-- Two changes of a cell that come to the same in either order. -/
theorem map_modify (s : Store α) {f : α → α} (hf : f default = default) (i : Nat) {change : α → α}
    (h : ∀ a, f (change a) = change (f a)) : (s.modify i change).map f = (s.map f).modify i change := by
  refine ext_get (by simp [modify, size_set]) fun j => ?_
  rw [get_map _ hf, get_modify, get_modify, get_map s hf, get_map s hf]
  split
  · exact h _
  · rfl

end Store

/-! ## Guises -/

/-- Another look for the settings of a drain, for those that wait for a promise that they
have yielded, and for the records of generators, with the control stack that goes with it. -/
structure Guise (H : Type) where
  draining : Bool → Bool := id
  limit : Option Nat → Option Nat := id
  yielding : AsyncGeneratorRef → Request → Waiter H := .yielding
  generators : Store (Generator H) → Store (Generator H) := id
  caller : Caller H → Caller H := id
  stepper : Stepper H → Stepper H := id
  purpose : Purpose H → Purpose H := id
  activation : Activation H → Activation H := id
  drain : Drain H → Drain H := id
  /-- A generator is finished in the guise as it is without. -/
  closes (g : GeneratorRef) (s : Store (Generator H)) :
    generators (s.modify g.index fun r => { r with state := .completed, frame := none }) =
      (generators s).modify g.index fun r => { r with state := .completed, frame := none } := by
    intros; rfl
  caller_host (h : Activation H) : caller (.host h) = .host (activation h) := by intros; rfl
  caller_reaction (capability : Option PromiseRef) (d : Drain H) :
    caller (.reaction capability d) = .reaction capability (drain d) := by intros; rfl
  caller_executor (p : PromiseRef) (h : Activation H) :
    caller (.executor p h) = .executor p (activation h) := by intros; rfl
  caller_finalizer (v : Value) (kind : Settling) (k : Caller H) :
    caller (.finalizer v kind k) = .finalizer v kind (caller k) := by intros; rfl
  caller_discarding (k : Caller H) : caller (.discarding k) = .discarding (caller k) := by
    intros; rfl
  stepper_host (h : Activation H) : stepper (.host h) = .host (activation h) := by intros; rfl
  purpose_outcome (h : Activation H) : purpose (.outcome h) = .outcome (activation h) := by
    intros; rfl
  purpose_iterator (h : Activation H) : purpose (.iterator h) = .iterator (activation h) := by
    intros; rfl
  purpose_serving (a : AsyncGeneratorRef) (r : Request) (reply : Value) (k : Caller H) :
    purpose (.serving a r reply k) = .serving a r reply (caller k) := by intros; rfl
  purpose_body (p : PromiseRef) (reply : Value) (k : Caller H) :
    purpose (.body p reply k) = .body p reply (caller k) := by intros; rfl
  activation_function (k : Caller H) : activation (.function k) = .function (caller k) := by
    intros; rfl
  activation_frame (s : Stepper H) : activation (.frame s) = .frame (stepper s) := by intros; rfl
  activation_job (id : Nat) (d : Drain H) : activation (.job id d) = .job id (drain d) := by
    intros; rfl

attribute [simp] Guise.caller_host Guise.caller_reaction Guise.caller_executor
  Guise.caller_finalizer Guise.caller_discarding Guise.stepper_host
  Guise.purpose_outcome Guise.purpose_iterator Guise.purpose_serving Guise.purpose_body
  Guise.activation_function Guise.activation_frame Guise.activation_job

def Code.guise (c : Code H) (G : Guise H) : Code H :=
  match c with
  | .wake (.yielding a r) kind => .wake (G.yielding a r) kind
  | c => c

theorem Code.guise_of_ne {c : Code H} (hc : ∀ w kind, c ≠ .wake w kind) (G : Guise H) :
    c.guise G = c := by
  cases c with
  | wake w kind => exact absurd rfl (hc w kind)
  | _ => rfl

def Callable.guise (c : Callable H) (G : Guise H) : Callable H := { c with code := c.code.guise G }

namespace Guise

/-- The generator looks the same in the guise: its record, and its steps. -/
structure Passes (G : Guise H) (g : GeneratorRef) : Prop where
  stepper (p : Purpose H) : G.stepper (.generator g p) = .generator g (G.purpose p)
  get (s : Store (Generator H)) : (G.generators s).get g.index = s.get g.index
  modify (s : Store (Generator H)) (change : Generator H → Generator H) :
    G.generators (s.modify g.index change) = (G.generators s).modify g.index change

/-- The async generator waits for what it has yielded in the guise as it does without. -/
def Yields (G : Guise H) (a : AsyncGeneratorRef) : Prop := ∀ r, G.yielding a r = .yielding a r

end Guise

namespace Engine

/-- The engine in a guise. -/
def guise (e : Engine H) (G : Guise H) : Engine H :=
  { e with
    draining := G.draining e.draining
    limit := G.limit e.limit
    callables := e.callables.map (·.guise G)
    generators := G.generators e.generators }

/-- The next generator is not changed by the guise. -/
structure Admits (e : Engine H) (G : Guise H) : Prop where
  size : (G.generators e.generators).size = e.generators.size
  push (r : Generator H) :
    G.generators (e.generators.push r) = (G.generators e.generators).push r

variable (e : Engine H) (G : Guise H) (p : PromiseRef)

/-! ## Objects, texts and errors -/

@[simp] theorem promise_guise : (e.guise G).promise p = e.promise p := rfl

@[simp] theorem tally_guise (t : TallyRef) : (e.guise G).tally t = e.tally t := rfl

@[simp] theorem newObject_guise (o : Object) :
    (e.guise G).newObject o = ((e.newObject o).1, (e.newObject o).2.guise G) := rfl

@[simp] theorem setProperty_guise (o : ObjectRef) (key : String) (v : Value) :
    (e.guise G).setProperty o key v = (e.setProperty o key v).guise G := rfl

@[simp] theorem newPromise_guise :
    (e.guise G).newPromise = (e.newPromise.1, e.newPromise.2.guise G) := rfl

@[simp] theorem callable_guise (f : FunctionRef) :
    (e.guise G).callable f = (e.callable f).guise G := e.callables.get_map rfl f.index

theorem usage_guise (f : FunctionRef) :
    ((e.guise G).callable f).usage = (e.callable f).usage := by
  rw [callable_guise]
  rfl

theorem newFunction_guise_of (c : Callable H) :
    (e.guise G).newFunction (c.guise G) = ((e.newFunction c).1, (e.newFunction c).2.guise G) := by
  simp [newFunction, guise, Store.map_push]

@[simp] theorem newFunction_guise {c : Callable H} (hc : ∀ w kind, c.code ≠ .wake w kind) :
    (e.guise G).newFunction c = ((e.newFunction c).1, (e.newFunction c).2.guise G) := by
  have h := newFunction_guise_of e G c
  rwa [Callable.guise, Code.guise_of_ne hc] at h

@[simp] theorem spend_guise (f : FunctionRef) : (e.guise G).spend f = (e.spend f).guise G := by
  have hmap : (e.callables.modify f.index fun c => { c with usage := .spent }).map (·.guise G) =
      (e.callables.map (·.guise G)).modify f.index fun c => { c with usage := .spent } :=
    e.callables.map_modify rfl f.index fun _ => rfl
  simp only [spend, guise, hmap]

@[simp] theorem modifyPromise_guise (f : Promise → Promise) :
    (e.guise G).modifyPromise p f = (e.modifyPromise p f).guise G := rfl

@[simp] theorem modifyTally_guise (t : TallyRef) (f : Tally → Tally) :
    (e.guise G).modifyTally t f = (e.modifyTally t f).guise G := rfl

@[simp] theorem enqueue_guise (j : Job H) : (e.guise G).enqueue j = (e.enqueue j).guise G := rfl

@[simp] theorem textWithin?_guise (depth : Nat) (v : Value) :
    (e.guise G).textWithin? depth v = e.textWithin? depth v := by
  have ho (o) : (e.guise G).object o = e.object o := rfl
  have hname (c : Callable H) : (c.guise G).name = c.name := rfl
  induction depth generalizing v with
  | zero => cases v <;> simp [textWithin?, hname]
  | succ depth ih =>
    have ih' : (e.guise G).textWithin? depth = e.textWithin? depth := funext ih
    cases v <;> simp only [textWithin?, ho, ih', callable_guise, hname]

@[simp] theorem debugText_guise (v : Value) : (e.guise G).debugText v = e.debugText v := by
  have hname (f) : ((e.guise G).callable f).name = (e.callable f).name := by
    rw [callable_guise]
    rfl
  have htext (v) : (e.guise G).text? v = e.text? v := by
    have hs : (e.guise G).objects = e.objects := rfl
    simp only [text?, hs, textWithin?_guise]
  have hd (depth : Nat) : (e.guise G).debugTextWithin? depth = e.debugTextWithin? depth := by
    induction depth with
    | zero =>
      funext v
      unfold debugTextWithin?
      cases v <;> simp only [hname, htext]
    | succ depth ih =>
      funext v
      unfold debugTextWithin?
      cases v <;> simp only [hname, htext, ih, promise_guise]
  have hs : (e.guise G).promises = e.promises := rfl
  simp only [debugText, debugText?, hs, hd]

@[simp] theorem displayError_guise (error : EngineError) :
    (e.guise G).displayError error = e.displayError error := by
  unfold displayError
  cases error <;> simp only [debugText_guise]

@[simp] theorem newError_guise (name text : String) :
    (e.guise G).newError name text =
      ((e.newError name text).1, (e.newError name text).2.guise G) := rfl

@[simp] theorem errorValue_guise (error : EngineError) :
    (e.guise G).errorValue error =
      ((e.errorValue error).1, (e.errorValue error).2.guise G) := by
  cases error <;> rfl

@[simp] theorem failureValue_guise (f : Failure) :
    (e.guise G).failureValue f =
      ((e.failureValue f).1, (e.failureValue f).2.guise G) := by
  cases f with
  | engine error => exact errorValue_guise e G error
  | thrown v => rfl

/-! ## Promises -/

@[simp] theorem fulfillNow_guise (v : Value) :
    (e.guise G).fulfillNow p v = (e.fulfillNow p v).guise G := by
  rw [fulfillNow, fulfillNow, promise_guise]
  split <;> rfl

@[simp] theorem rejectNow_guise (v : Value) :
    (e.guise G).rejectNow p v = (e.rejectNow p v).guise G := by
  rw [rejectNow, rejectNow, promise_guise]
  split
  · cases (e.promise p).handled <;> rfl
  · rfl

@[simp] theorem chainWithin_guise (n : Nat) :
    (e.guise G).chainWithin n p = e.chainWithin n p := by
  induction n generalizing p with
  | zero => rfl
  | succ n ih => simp [chainWithin, ih]

@[simp] theorem closesCycle_guise (q : PromiseRef) :
    (e.guise G).closesCycle p q = e.closesCycle p q := by
  rw [closesCycle, closesCycle, chain, chainWithin_guise]
  rfl

@[simp] theorem resolveNow_guise (v : Value) :
    (e.guise G).resolveNow p v = (e.resolveNow p v).guise G := by
  cases v with
  | promise q => simp [resolveNow, apply_ite (guise · G)]
  | _ => exact fulfillNow_guise e G p _

@[simp] theorem decideFate_guise {next : Engine H → Engine H}
    (h : ∀ e : Engine H, next (e.guise G) = (next e).guise G) :
    (e.guise G).decideFate p next = (e.decideFate p next).guise G := by
  simp [decideFate, h, apply_ite (guise · G)]

@[simp] theorem resolve_guise (v : Value) :
    (e.guise G).resolve p v = (e.resolve p v).guise G :=
  decideFate_guise e G p fun e => resolveNow_guise e G p v

@[simp] theorem fulfill_guise (v : Value) :
    (e.guise G).fulfill p v = (e.fulfill p v).guise G :=
  decideFate_guise e G p fun e => fulfillNow_guise e G p v

@[simp] theorem reject_guise (v : Value) :
    (e.guise G).reject p v = (e.reject p v).guise G :=
  decideFate_guise e G p fun e => rejectNow_guise e G p v

@[simp] theorem performThen_guise (f g : Option FunctionRef) (c : Option PromiseRef) :
    (e.guise G).performThen p f g c = (e.performThen p f g c).guise G := by
  rw [performThen, performThen, promise_guise]
  cases (e.promise p).state with
  | rejected r => cases (e.promise p).handled <;> rfl
  | _ => rfl

@[simp] theorem promiseThen_guise (f g : Option FunctionRef) :
    (e.guise G).promiseThen p f g =
      ((e.promiseThen p f g).1, (e.promiseThen p f g).2.guise G) := by
  simp [promiseThen]

@[simp] theorem promiseOf_guise (v : Value) :
    (e.guise G).promiseOf v = ((e.promiseOf v).1, (e.promiseOf v).2.guise G) := by
  cases v with
  | promise p => rfl
  | _ => simp [promiseOf]

@[simp] theorem concludeTally_guise (t : Tally) :
    (e.guise G).concludeTally t = (e.concludeTally t).guise G := by
  unfold concludeTally
  cases t.collection <;> simp [newAggregateError, apply_ite (guise · G)]

@[simp] theorem countDown_guise (t : TallyRef) :
    (e.guise G).countDown t = (e.countDown t).guise G := by
  simp [countDown]

@[simp] theorem slotContent_guise (c : Collection) (kind : Settling) (v : Value) :
    (e.guise G).slotContent c kind v =
      ((e.slotContent c kind v).1, (e.slotContent c kind v).2.guise G) := by
  cases c <;> cases kind <;> rfl

@[simp] theorem report_guise (t : TallyRef) (i : Nat) (kind : Settling) (v : Value) :
    (e.guise G).report t i kind v = (e.report t i kind v).guise G := by
  simp [report, apply_ite (guise · G)]

@[simp] theorem elementCallbacks_guise (t : TallyRef) (i : Nat) :
    (e.guise G).elementCallbacks t i =
      ((e.elementCallbacks t i).1, (e.elementCallbacks t i).2.guise G) := by
  simp only [elementCallbacks, tally_guise]
  cases (e.tally t).collection <;> simp

@[simp] theorem addElement_guise (t : TallyRef) (v : Value) (i : Nat) :
    (e.guise G).addElement t v i = (e.addElement t v i).guise G := by
  simp [addElement]

theorem foldl_guise {α : Type} {f : Engine H → α → Engine H}
    (h : ∀ e a, f (guise e G) a = (f e a).guise G) (as : List α) (e : Engine H) :
    as.foldl f (e.guise G) = (as.foldl f e).guise G := by
  induction as generalizing e with
  | nil => rfl
  | cons a as ih => rw [List.foldl_cons, h, ih, List.foldl_cons]

@[simp] theorem newTally_guise (t : Tally) :
    (e.guise G).newTally t = ((e.newTally t).1, (e.newTally t).2.guise G) := rfl

@[simp] theorem collect_guise (c : Collection) (items : List Value) :
    (e.guise G).collect c items = ((e.collect c items).1, (e.collect c items).2.guise G) := by
  simp [collect, foldl_guise]

@[simp] theorem resolvingFunctions_guise :
    (e.guise G).resolvingFunctions p =
      ((e.resolvingFunctions p).1, (e.resolvingFunctions p).2.guise G) := by
  simp [resolvingFunctions]

@[simp] theorem race_guise (items : List Value) :
    (e.guise G).race items = ((e.race items).1, (e.race items).2.guise G) := by
  simp [race, foldl_guise]

@[simp] theorem promiseFinally_guise (f : Option FunctionRef) :
    (e.guise G).promiseFinally p f =
      ((e.promiseFinally p f).1, (e.promiseFinally p f).2.guise G) := by
  cases f <;> simp [promiseFinally]

@[simp] theorem rejectedPromise_guise (v : Value) :
    (e.guise G).rejectedPromise v =
      ((e.rejectedPromise v).1, (e.rejectedPromise v).2.guise G) := by
  simp [rejectedPromise]

@[simp] theorem attachAdoption_guise (q : PromiseRef) :
    (e.guise G).attachAdoption p q = (e.attachAdoption p q).guise G := by
  simp [attachAdoption]

theorem await_guise (v : Value) {w w' : Waiter H}
    (hw : ∀ kind, (Code.wake w kind).guise G = .wake w' kind) :
    (e.guise G).await v w' = (e.await v w).guise G := by
  have hcode : ∀ name kind, (⟨name, .once, .wake w' kind⟩ : Callable H) =
      Callable.guise ⟨name, .once, .wake w kind⟩ G := fun name kind => by
    rw [Callable.guise, hw]
  simp [await, hcode, newFunction_guise_of]

@[simp] theorem passAfter_guise (returned settled : Value) (kind : Settling) :
    (e.guise G).passAfter returned settled kind =
      ((e.passAfter returned settled kind).1, (e.passAfter returned settled kind).2.guise G) := by
  cases kind <;> simp [passAfter]

@[simp] theorem promiseMethod_guise (receiver : Value) (method : String) (args : List Value) :
    (e.guise G).promiseMethod receiver method args =
      ((e.promiseMethod receiver method args).1,
        (e.promiseMethod receiver method args).2.guise G) := by
  unfold promiseMethod
  split
  · split <;> simp [promiseCatch]
  · rfl

@[simp] theorem elements?_guise (v : Value) : (e.guise G).elements? v = e.elements? v := rfl

@[simp] theorem promiseFunction_guise (method : String) (args : List Value) :
    (e.guise G).promiseFunction method args =
      ((e.promiseFunction method args).1, (e.promiseFunction method args).2.guise G) := by
  simp only [promiseFunction, elements?_guise]
  split <;> first | rfl | simp
  all_goals cases e.elements? (Value.argument args 0) <;> simp

/-! ## Unhandled rejections -/

@[simp] theorem reportUnhandled_guise :
    (e.guise G).reportUnhandled = e.reportUnhandled.guise G := by
  have hfound : (e.guise G).unhandledReasons = e.unhandledReasons := rfl
  have hwarning : (e.guise G).rejectionWarning = e.rejectionWarning := by
    funext p reason
    unfold rejectionWarning
    rw [promise_guise, debugText_guise]
  simp only [reportUnhandled, hfound, hwarning]
  rfl

@[simp] theorem takeReported_guise :
    (e.guise G).takeReported = (e.takeReported.1, e.takeReported.2.guise G) := rfl

/-! ## Generators -/

@[simp] theorem closeGenerator_guise (g : GeneratorRef) :
    (e.guise G).closeGenerator g = (e.closeGenerator g).guise G := by
  simp only [closeGenerator, modifyGenerator, guise, G.closes]

section Generators

variable {e G} {g : GeneratorRef}

theorem Admits.newGenerator (h : e.Admits G) (f : Frame H) :
    (e.guise G).newGenerator f = ((e.newGenerator f).1, (e.newGenerator f).2.guise G) := by
  simp only [Engine.newGenerator, guise, h.size, h.push]

theorem Admits.newAsyncGenerator (h : e.Admits G) (f : Frame H) :
    (e.guise G).newAsyncGenerator f =
      ((e.newAsyncGenerator f).1, (e.newAsyncGenerator f).2.guise G) := by
  simp only [Engine.newAsyncGenerator, Engine.newGenerator, guise, h.size, h.push]

theorem generator_guise (hg : G.Passes g) : (e.guise G).generator g = e.generator g :=
  hg.get e.generators

theorem modifyGenerator_guise (hg : G.Passes g) (change : Generator H → Generator H) :
    (e.guise G).modifyGenerator g change = (e.modifyGenerator g change).guise G := by
  simp only [modifyGenerator, guise, hg.modify]

theorem beginStep_guise (hg : G.Passes g) (c : Completion) :
    (e.guise G).beginStep g c = ((e.beginStep g c).1.guise G, (e.beginStep g c).2) := by
  simp only [beginStep, takeFrame, generator_guise hg, closeGenerator_guise,
    modifyGenerator_guise hg]
  cases (e.generator g).state with
  | suspendedStart => cases c.isAbrupt <;> cases (e.generator g).frame <;> rfl
  | suspendedYield => cases (e.generator g).frame <;> rfl
  | _ => rfl

theorem endStep_guise (hg : G.Passes g) (f : Frame H) (o : Outcome) :
    (e.guise G).endStep g f o = (e.endStep g f o).guise G := by
  unfold endStep
  split <;> exact modifyGenerator_guise hg _

end Generators

@[simp] theorem iteratorAnswer_guise (g : GeneratorRef) (r : Except EngineError Outcome) :
    (e.guise G).iteratorAnswer g r =
      ((e.iteratorAnswer g r).1, (e.iteratorAnswer g r).2.guise G) := by
  cases r with
  | error => rfl
  | ok o =>
    cases o with
    | awaiting v => simp only [iteratorAnswer, closeGenerator_guise]
    | _ => rfl

/-! ## Async generators -/

@[simp] theorem addRequest_guise (a : AsyncGeneratorRef) (c : Completion) :
    (e.guise G).addRequest a c = ((e.addRequest a c).1, (e.addRequest a c).2.guise G) := rfl

@[simp] theorem setAsyncState_guise (g : AsyncGeneratorRef) (s : AsyncGeneratorState) :
    (e.guise G).setAsyncState g s = (e.setAsyncState g s).guise G := rfl

@[simp] theorem newIteratorResult_guise (v : Value) (done : Bool) :
    (e.guise G).newIteratorResult v done =
      ((e.newIteratorResult v done).1, (e.newIteratorResult v done).2.guise G) := rfl

@[simp] theorem answerRequest_guise (r : Request) (v : Value) (done : Bool) :
    (e.guise G).answerRequest r v done = (e.answerRequest r v done).guise G := by
  simp [answerRequest]

@[simp] theorem settleYield_guise (g : AsyncGeneratorRef) (r : Request) (v : Value) :
    (e.guise G).settleYield g r v = (e.settleYield g r v).guise G := by
  simp [settleYield]

@[simp] theorem completeWith_guise (g : AsyncGeneratorRef) (r : Request) (v : Value) :
    (e.guise G).completeWith g r v = (e.completeWith g r v).guise G := by
  simp [completeWith]

@[simp] theorem failWith_guise (g : AsyncGeneratorRef) (r : Request) (v : Value) :
    (e.guise G).failWith g r v = (e.failWith g r v).guise G := by
  simp [failWith]

@[simp] theorem awaitReturn_guise (g : AsyncGeneratorRef) (r : Request) (v : Value) :
    (e.guise G).awaitReturn g r v = (e.awaitReturn g r v).guise G :=
  await_guise (e.setAsyncState g .awaitingReturn) G v fun _ => rfl

theorem absorbOutcome_guise {a : AsyncGeneratorRef} (ha : G.Yields a) (r : Request)
    (o : Except EngineError Outcome) :
    (e.guise G).absorbOutcome a r o = (e.absorbOutcome a r o).guise G := by
  unfold absorbOutcome
  split
  · exact await_guise e G _ fun _ => by rw [Code.guise, ha]
  · simp
  · exact await_guise e G _ fun _ => rfl
  · simp
  · simp
  · simp
  · simp

@[simp] theorem absorbBodyOutcome_guise (g : GeneratorRef) (o : Except EngineError Outcome) :
    (e.guise G).absorbBodyOutcome g p o = (e.absorbBodyOutcome g p o).guise G := by
  unfold absorbBodyOutcome
  split
  · exact await_guise e G _ fun _ => rfl
  · exact await_guise e G _ fun _ => rfl
  · simp
  · simp
  · simp

@[simp] theorem takeRequest_guise (a : AsyncGeneratorRef) :
    (e.guise G).takeRequest a = ((e.takeRequest a).1.guise G, (e.takeRequest a).2) := by
  have hgen : (e.guise G).asyncGenerator a = e.asyncGenerator a := rfl
  have hm (f) : (e.guise G).modifyAsyncGenerator a f = (e.modifyAsyncGenerator a f).guise G := rfl
  simp only [takeRequest, hgen, hm, closeGenerator_guise]
  split
  · rfl
  · split
    · rfl
    · split <;> simp

end Engine

end Microtask
