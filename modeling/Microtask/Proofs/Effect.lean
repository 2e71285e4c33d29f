import Mathlib.Logic.Relation
import Mathlib.Order.Lattice
import Microtask.Proofs.Duty

/-!
# Effects

The operations of the engine are long, but they all are made of a few small ones:
create a promise or a function, attach a pair of reactions, decide the fate of a
promise, enqueue a callback of the host, and changes that do not concern promises
at all. An `Effect` is one of these. None of them touches a duty, except that a
promise which adopts another one gets the duty to settle like it.

What an effect may do to which promise is a matter of `Rights`. They tell the
promises that a step may settle from those that something else is in charge of.
-/

namespace Microtask

variable {H : Type}

/-! ## Growth -/

/-- What no operation of the engine takes back. -/
structure Engine.Grows (e e' : Engine H) : Prop where
  promises : e.promises.size ≤ e'.promises.size
  callables : e.callables.size ≤ e'.callables.size
  tallies : e.tallies.size ≤ e'.tallies.size
  code : ∀ f, f.index < e.callables.size → (e'.callable f).code = (e.callable f).code
  result : ∀ t, t.index < e.tallies.size → (e'.tally t).result = (e.tally t).result
  resolved : ∀ p, (e.promise p).resolved = true → (e'.promise p).resolved = true

namespace Engine.Grows

variable {e e' e'' : Engine H}

theorem refl (e : Engine H) : e.Grows e :=
  ⟨le_rfl, le_rfl, le_rfl, fun _ _ => rfl, fun _ _ => rfl, fun _ h => h⟩

theorem trans (h : e.Grows e') (h' : e'.Grows e'') : e.Grows e'' where
  promises := h.promises.trans h'.promises
  callables := h.callables.trans h'.callables
  tallies := h.tallies.trans h'.tallies
  code f hf := (h'.code f (hf.trans_le h.callables)).trans (h.code f hf)
  result t ht := (h'.result t (ht.trans_le h.tallies)).trans (h.result t ht)
  resolved p hp := h'.resolved p (h.resolved p hp)

/-- Operations that touch neither promises, functions nor tallies. -/
theorem of_eq (hp : e'.promises = e.promises) (hc : e'.callables = e.callables)
    (ht : e'.tallies = e.tallies) : e.Grows e' := by
  refine ⟨?_, ?_, ?_, ?_, ?_, ?_⟩ <;> simp [callable, tally, promise, hp, hc, ht]

/-- Operations on promises. -/
theorem of_promises (hp : e.promises.size ≤ e'.promises.size) (hc : e'.callables = e.callables)
    (ht : e'.tallies = e.tallies)
    (hr : ∀ p, (e.promise p).resolved = true → (e'.promise p).resolved = true) : e.Grows e' := by
  refine ⟨hp, ?_, ?_, ?_, ?_, hr⟩ <;> simp [callable, tally, hc, ht]

theorem engagement? (h : e.Grows e') {f : FunctionRef} (hf : f.index < e.callables.size) :
    e'.engagement? f = e.engagement? f := by
  rw [Engine.engagement?, Engine.engagement?, h.code f hf]

theorem plain (h : e.Grows e') {f : FunctionRef} (hf : e.Plain f) : e'.Plain f :=
  ⟨hf.allocated.trans_le h.callables, (h.engagement? hf.allocated).trans hf.free⟩

theorem plainHandler (h : e.Grows e') {f : Option FunctionRef} (hf : e.PlainHandler f) :
    e'.PlainHandler f :=
  fun g hg => h.plain (hf g hg)

end Engine.Grows

/-- Two engines with the same promises, functions and tallies. -/
structure Engine.Alike (e e' : Engine H) : Prop where
  promises : e'.promises = e.promises
  callables : e'.callables = e.callables
  tallies : e'.tallies = e.tallies

theorem Engine.Alike.grows {e e' : Engine H} (h : e.Alike e') : e.Grows e' :=
  .of_eq h.promises h.callables h.tallies

/-! ## Rights -/

/-- The promises that a step may settle, those that the host has asked the engine to
make means of settling for, whether the step may make a request, whether it may
act on the job queue and on the records of rejections by itself, the generators that
it may change, the duties that it may move, whether it may lose what is under way, the
functions that it may have called later, the objects that it may change, the tallies
that it may count, and the functions without a duty that it may use up. -/
structure Rights where
  settle : PromiseRef → Prop
  entrusted : PromiseRef → Prop
  request : Prop
  manage : Prop
  drive : GeneratorRef → Prop
  move : Duty → Prop
  abandon : Prop
  attach : FunctionRef → Prop
  write : ObjectRef → Prop
  count : TallyRef → Prop
  spend : FunctionRef → Prop

namespace Rights

/-- The right to do everything. -/
def all : Rights :=
  ⟨fun _ => True, fun _ => True, True, True, fun _ => True, fun _ => True, True, fun _ => True,
    fun _ => True, fun _ => True, fun _ => True⟩

variable (R : Rights) (e : Engine H) (p : PromiseRef)

/-- The promise exists and may be settled. -/
def Owns : Prop := p.index < e.promises.size ∧ R.settle p

/-- Means to settle the promise may be kept for later. -/
def Allows : Prop := R.Owns e p ∨ R.entrusted p

/-- The promise may be settled, or its fate is decided anyway. -/
def May : Prop := (e.promise p).resolved = false → R.settle p

/-- A duty that steps of generators are for changes its place when it may be moved. -/
def Drives : Duty → Prop
  | .body g p => R.move (.body g p)
  | .serve a r => R.move (.serve a r)
  | .adopt _ | .result _ | .construct _ => True

/-- The generator may be changed, and the duty of its step may be moved. -/
def Carries (x : GeneratorRef × Option Duty) : Prop := R.drive x.1 ∧ ∀ d ∈ x.2, R.move d

/-- New promises may be settled, new functions may be called later, and new tallies may be
counted. -/
structure Fresh : Prop where
  promises : ∀ q : PromiseRef, e.promises.size ≤ q.index → R.settle q
  functions : ∀ f : FunctionRef, e.callables.size ≤ f.index → R.attach f
  tallies : ∀ t : TallyRef, e.tallies.size ≤ t.index → R.count t

variable {R e p} {e' : Engine H}

theorem Owns.may (h : R.Owns e p) : R.May e p := fun _ => h.2

theorem Owns.grows (h : R.Owns e p) (hg : e.Grows e') : R.Owns e' p :=
  ⟨h.1.trans_le hg.promises, h.2⟩

theorem Allows.grows (h : R.Allows e p) (hg : e.Grows e') : R.Allows e' p :=
  h.imp (·.grows hg) id

theorem Fresh.grows (h : R.Fresh e) (hg : e.Grows e') : R.Fresh e' :=
  ⟨fun q hq => h.promises q (hg.promises.trans hq),
    fun f hf => h.functions f (hg.callables.trans hf),
    fun t ht => h.tallies t (hg.tallies.trans ht)⟩

theorem May.grows (h : R.May e p) (hg : e.Grows e') : R.May e' p := by
  intro hr
  refine h ?_
  cases hp : (e.promise p).resolved with
  | false => rfl
  | true => rw [hg.resolved p hp] at hr; cases hr

theorem owns_new (h : R.Fresh e) : R.Owns e.newPromise.2 e.newPromise.1 := by
  refine ⟨?_, h.promises _ le_rfl⟩
  simp [Engine.newPromise]

end Rights

/-- What the engine may create a function of. Callbacks with a duty are not
created by an effect. -/
def Code.Granted (R : Rights) (e : Engine H) : Code H → Prop
  | .resolve p | .reject p => R.Allows e p
  | .report t _ _ => t.index < e.tallies.size ∧ R.Allows e (e.tally t).result ∧ R.count t
  | .afterwards f _ => e.Plain f ∧ R.attach f
  | .adopt _ _ => False
  | .wake w _ => w.duty? = none
  | .host _ | .constant _ _ => True

theorem Code.Granted.engagement? {R : Rights} {e : Engine H} {c : Code H} (h : c.Granted R e) :
    c.engagement? = none := by
  cases c with
  | adopt p kind => exact h.elim
  | wake w kind =>
    have hw : w.duty? = none := h
    simp [Code.engagement?, hw]
  | _ => rfl

/-! ## Effects -/

namespace Engine

/-- The fate of a promise is decided. -/
def lock (e : Engine H) (p : PromiseRef) : Engine H :=
  e.modifyPromise p fun r => { r with resolved := true }

/-- Let a promise adopt another one. -/
def link (e : Engine H) (p q : PromiseRef) : Engine H :=
  (e.modifyPromise p fun r => { r with following := some q }).enqueue (.adoption p q)

/-- A change that concerns neither promises, functions nor jobs. -/
inductive Aside (R : Rights) : Engine H → Engine H → Prop where
  | newObject (e : Engine H) (o : Object) : Aside R e (e.newObject o).2
  | setProperty (e : Engine H) {o : ObjectRef} (key : String) (v : Value) :
      R.write o → Aside R e (e.setProperty o key v)
  | modifyGenerator (e : Engine H) {g : GeneratorRef} (change : Generator H → Generator H) :
      R.drive g → Aside R e (e.modifyGenerator g change)
  | newGenerator (e : Engine H) (f : Frame H) : Aside R e (e.newGenerator f).2
  | newAsyncGenerator (e : Engine H) (f : Frame H) : Aside R e (e.newAsyncGenerator f).2
  | settings (e : Engine H) (draining : Bool) (limit : Option Nat) (policy : RejectionPolicy)
      (warnings : List String) : Aside R e { e with draining, limit, policy, warnings }
  | reportUnhandled (e : Engine H) : R.manage → Aside R e e.reportUnhandled
  | takeReported (e : Engine H) : R.manage → Aside R e e.takeReported.2
  | newTally {e : Engine H} {t : Tally} : R.Owns e t.result → Aside R e (e.newTally t).2
  | modifyTally {e : Engine H} {t : TallyRef} {change : Tally → Tally} :
      t.index < e.tallies.size → (change (e.tally t)).result = (e.tally t).result →
      R.May e (e.tally t).result → R.count t → Aside R e (e.modifyTally t change)

/-- What becomes of a promise when its fate has been decided. -/
inductive Fate (p : PromiseRef) (e : Engine H) : Engine H → Prop where
  | settled (kind : Settling) (v : Value) : Fate p e (e.settleNow p kind v)
  | adopts {q : PromiseRef} : e.closesCycle p q = false → Fate p e (e.link p q)

/-- A small change of an engine. -/
inductive Effect (R : Rights) : Engine H → Engine H → Prop where
  | aside {e e' : Engine H} : Aside R e e' → Effect R e e'
  | newPromise (e : Engine H) : Effect R e e.newPromise.2
  | newFunction {e : Engine H} {c : Callable H} :
      c.code.Granted R e → Effect R e (e.newFunction c).2
  | spend {e : Engine H} {f : FunctionRef} :
      e.engagement? f = none → (e.callable f).usage = .once → R.spend f → Effect R e (e.spend f)
  | decide {e e' : Engine H} {p : PromiseRef} :
      (e.promise p).resolved = false → R.settle p → Fate p (e.lock p) e' → Effect R e e'
  | performThen {e : Engine H} (p : PromiseRef) {f g : Option FunctionRef}
      {capability : Option PromiseRef} :
      e.PlainHandler f → e.PlainHandler g → (∀ q ∈ capability, R.Allows e q) →
      (∀ x, f = some x ∨ g = some x → R.attach x) → Effect R e (e.performThen p f g capability)
  | callback (e : Engine H) (label : String) (code : H) :
      R.manage → Effect R e (e.enqueue (.callback label code))

/-- One effect after the other. -/
abbrev Effects (R : Rights) : Engine H → Engine H → Prop := Relation.ReflTransGen (Effect R)

variable {R : Rights} {e e' : Engine H} {p q : PromiseRef}

namespace Aside

theorem promises (h : Aside R e e') : e'.promises = e.promises := by cases h <;> rfl

theorem callables (h : Aside R e e') : e'.callables = e.callables := by cases h <;> rfl

theorem jobs (h : Aside R e e') : e'.jobs = e.jobs := by cases h <;> rfl

theorem promise (h : Aside R e e') (p : PromiseRef) : e'.promise p = e.promise p := by
  rw [Engine.promise, Engine.promise, h.promises]

theorem callable (h : Aside R e e') (f : FunctionRef) : e'.callable f = e.callable f := by
  rw [Engine.callable, Engine.callable, h.callables]

theorem waitingJobs (h : Aside R e e') : e'.waitingJobs = e.waitingJobs := by
  rw [Engine.waitingJobs, Engine.waitingJobs, h.jobs]

theorem grows (h : Aside R e e') : e.Grows e' := by
  have hr : ∀ p, (e.promise p).resolved = true → (e'.promise p).resolved = true :=
    fun p hp => by rw [h.promise]; exact hp
  cases h with
  | newTally ht =>
    refine ⟨le_rfl, le_rfl, by simp [Engine.newTally], fun _ _ => rfl, fun u hu => ?_, hr⟩
    simp only [tally, Engine.newTally, Store.get_push, hu.ne, if_false]
  | modifyTally ht hc =>
    refine ⟨le_rfl, le_rfl, ?_, fun _ _ => rfl, fun u hu => ?_, hr⟩
    · simp only [Engine.modifyTally, Store.modify, Store.size_set]
      exact le_max_left _ _
    · simp only [tally, Engine.modifyTally, Store.get_modify, TallyRef.index_inj]
      split
      · next hut => subst hut; exact hc
      · rfl
  | _ => exact .of_eq rfl rfl rfl

end Aside

theorem promise_lock (e : Engine H) (p q : PromiseRef) :
    (e.lock p).promise q = if q = p then { e.promise p with resolved := true } else e.promise q :=
  promise_modifyPromise e p q _

theorem promise_link (e : Engine H) (p q s : PromiseRef) :
    (e.link p q).promise s =
      if s = p then { e.promise p with following := some q } else e.promise s :=
  promise_modifyPromise e p s _

/-- Locking changes the mark only. -/
theorem read_lock {α : Type} (read : Promise → α)
    (h : ∀ r : Promise, read { r with resolved := true } = read r) (e : Engine H)
    (p q : PromiseRef) : read ((e.lock p).promise q) = read (e.promise q) :=
  read_modifyPromise read _ h e p q

/-- Linking changes the link only. -/
theorem read_link {α : Type} (read : Promise → α)
    (h : ∀ (r : Promise) following, read { r with following } = read r) (e : Engine H)
    (p q s : PromiseRef) : read ((e.link p q).promise s) = read (e.promise s) :=
  read_modifyPromise read _ (fun r => h r _) e p s

theorem reactions_lock (e : Engine H) (p q : PromiseRef) (kind : Settling) :
    ((e.lock p).promise q).reactions kind = (e.promise q).reactions kind :=
  read_lock (·.reactions kind) (fun _ => by cases kind <;> rfl) e p q

theorem reactions_link (e : Engine H) (p q s : PromiseRef) (kind : Settling) :
    ((e.link p q).promise s).reactions kind = (e.promise s).reactions kind :=
  read_link (·.reactions kind) (fun _ _ => by cases kind <;> rfl) e p q s

theorem waitingJobs_link (e : Engine H) (p q : PromiseRef) :
    (e.link p q).waitingJobs = e.waitingJobs ++ [.adoption p q] :=
  waitingJobs_enqueue _ _

theorem grows_lock (e : Engine H) (p : PromiseRef) : e.Grows (e.lock p) := by
  refine .of_promises ?_ rfl rfl fun q hq => ?_
  · rw [lock, size_modifyPromise]
    exact le_max_left _ _
  · rw [promise_lock]
    split
    · rfl
    · exact hq

@[simp] theorem tallies_settleNow (e : Engine H) (p : PromiseRef) (kind : Settling) (v : Value) :
    (e.settleNow p kind v).tallies = e.tallies :=
  frame_settleNow Engine.tallies (fun _ _ _ _ => rfl) e p kind v

@[simp] theorem tallies_performThen (e : Engine H) (p : PromiseRef) (f g : Option FunctionRef)
    (capability : Option PromiseRef) : (e.performThen p f g capability).tallies = e.tallies :=
  frame_performThen e p f g capability Engine.tallies fun _ _ _ _ => rfl

theorem grows_settleNow (e : Engine H) (p : PromiseRef) (kind : Settling) (v : Value) :
    e.Grows (e.settleNow p kind v) := by
  by_cases hs : (e.promise p).state = .pending
  · refine .of_promises ?_ (by simp) (by simp) fun q hq => ?_
    · rw [size_settleNow hs]
      exact le_max_left _ _
    · rw [promise_settleNow hs]
      split
      · next h => subst h; exact hq
      · exact hq
  · rw [settleNow_of_settled hs]
    exact .refl e

theorem grows_performThen (e : Engine H) (p : PromiseRef) (f g : Option FunctionRef)
    (capability : Option PromiseRef) : e.Grows (e.performThen p f g capability) := by
  refine .of_promises ?_ (by simp) (by simp) fun q hq => ?_
  · rw [size_performThen]
    exact le_max_left _ _
  · exact (read_performThen e p f g capability Promise.resolved (fun _ _ _ => rfl) q).trans hq

theorem grows_newFunction (e : Engine H) (c : Callable H) : e.Grows (e.newFunction c).2 := by
  refine ⟨le_rfl, by simp [newFunction], le_rfl, fun f hf => ?_, fun _ _ => rfl, fun _ h => h⟩
  rw [callable_newFunction, if_neg]
  rintro rfl
  exact hf.ne rfl

theorem grows_spend (e : Engine H) (f : FunctionRef) : e.Grows (e.spend f) := by
  refine ⟨le_rfl, ?_, le_rfl, fun g _ => ?_, fun _ _ => rfl, fun _ h => h⟩
  · rw [size_spend]
    exact le_max_left _ _
  · rw [callable_spend]
    split
    · next h => subst h; rfl
    · rfl

theorem grows_newPromise (e : Engine H) : e.Grows e.newPromise.2 := by
  refine .of_promises (by simp [newPromise]) rfl rfl fun q hq => ?_
  rw [promise_newPromise, if_neg]
  · exact hq
  · rintro rfl
    have hd : e.promise ⟨e.promises.size⟩ = {} := promise_of_size_le le_rfl
    rw [hd] at hq
    cases hq

theorem grows_link (e : Engine H) (p q : PromiseRef) : e.Grows (e.link p q) := by
  refine .of_promises ?_ rfl rfl fun s hs => ?_
  · show _ ≤ (e.modifyPromise p _).promises.size
    rw [size_modifyPromise]
    exact le_max_left _ _
  · exact (read_link Promise.resolved (fun _ _ => rfl) e p q s).trans hs

theorem Fate.callables (h : Fate p e e') : e'.callables = e.callables := by
  cases h with
  | settled kind v => exact callables_settleNow e p kind v
  | adopts hq => rfl

theorem Fate.grows (h : Fate p e e') : e.Grows e' := by
  cases h with
  | settled kind v => exact grows_settleNow e p kind v
  | @adopts q hc => exact grows_link e p q

theorem Effect.grows (h : Effect R e e') : e.Grows e' := by
  cases h with
  | aside h => exact h.grows
  | newPromise => exact grows_newPromise e
  | newFunction h => exact grows_newFunction e _
  | spend h => exact grows_spend e _
  | decide hp hR h => exact (grows_lock e _).trans h.grows
  | performThen p hf hg hc => exact grows_performThen e p _ _ _
  | callback label code => exact .of_eq rfl rfl rfl

theorem Effects.trans {e'' : Engine H} (h : Effects R e e') (h' : Effects R e' e'') :
    Effects R e e'' :=
  Relation.ReflTransGen.trans h h'

theorem Effects.grows (h : Effects R e e') : e.Grows e' := by
  induction h with
  | refl => exact .refl e
  | tail _ h ih => exact ih.trans h.grows

end Engine

end Microtask
