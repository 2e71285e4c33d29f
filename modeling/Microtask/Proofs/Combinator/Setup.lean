import Microtask.Proofs.Footprint
import Microtask.Proofs.Generator.Waits
import Microtask.Proofs.Promise.Listeners

/-!
# The set-up of a combinator

A combinator makes its result, its functions and the promises of its elements, and it attaches
a listener to each of these, in order. Nothing else changes: `Engine.Augments` tells that
there are more promises, and `Engine.Equips` that there are listeners besides, with the jobs
of those whose promises have been settled at the end of the queue.

`Engine.Combines` says what a combinator leaves behind, and `Engine.race_sets_up` that a race
does.
-/

namespace Microtask

variable {H : Type}

/-! ## More promises -/

namespace Engine

/-- As far as promises and jobs go, the second engine only has more promises, without
reactions. -/
structure Augments (e e' : Engine H) : Prop where
  size : e.promises.size ≤ e'.promises.size
  promise : ∀ p, p.index < e.promises.size → e'.promise p = e.promise p
  reactions : ∀ p, e.promises.size ≤ p.index → ∀ kind, (e'.promise p).reactions kind = []
  waitingJobs : e'.waitingJobs = e.waitingJobs

section Augments

variable {e e' e'' : Engine H} {p : PromiseRef}

theorem reactions_of_size_le (hp : e.promises.size ≤ p.index) (kind : Settling) :
    (e.promise p).reactions kind = [] := by
  rw [promise_of_size_le hp]
  cases kind <;> rfl

theorem Augments.of_eq (hp : e'.promises = e.promises) (hj : e'.jobs = e.jobs) : e.Augments e' := by
  have hpromise : ∀ p, e'.promise p = e.promise p := fun p => by rw [Engine.promise, hp]; rfl
  refine ⟨hp ▸ le_rfl, fun p _ => hpromise p, fun p hle kind => ?_, ?_⟩
  · rw [hpromise, reactions_of_size_le hle]
  · rw [Engine.waitingJobs, hj]
    rfl

theorem Augments.trans (h : e.Augments e') (h' : e'.Augments e'') : e.Augments e'' where
  size := h.size.trans h'.size
  promise p hp := (h'.promise p (hp.trans_le h.size)).trans (h.promise p hp)
  reactions p hp kind := by
    by_cases hp' : p.index < e'.promises.size
    · rw [h'.promise p hp', h.reactions p hp]
    · exact h'.reactions p (Nat.le_of_not_lt hp') kind
  waitingJobs := h'.waitingJobs.trans h.waitingJobs

theorem augments_newPromise (e : Engine H) : e.Augments e.newPromise.2 where
  size := (Nat.le_succ _).trans_eq (Store.size_push ..).symm
  promise p hp := by
    rw [promise_newPromise, if_neg]
    rintro rfl
    exact hp.ne rfl
  reactions p hp kind := (reactions_newPromise e p kind).trans (reactions_of_size_le hp kind)
  waitingJobs := rfl

/-- A new promise that is fulfilled at once. -/
theorem augments_resolve_new (e : Engine H) {v : Value} (hv : ∀ q, v ≠ .promise q) :
    e.Augments (e.newPromise.2.resolve e.newPromise.1 v) ∧
      (e.newPromise.2.resolve e.newPromise.1 v).tallies = e.tallies := by
  let e₁ := e.newPromise.2
  let p := e.newPromise.1
  have hfresh : e₁.promise p = { id := e.nextId } := (promise_newPromise e _).trans (if_pos rfl)
  have hsettle : e₁.resolve p v = (e₁.lock p).settleNow p .fulfill v :=
    settle_of_unresolved (by rw [hfresh]) fun (_ : Settling.fulfill = .fulfill) => hv
  have hpend : ((e₁.lock p).promise p).state = .pending := by
    rw [read_lock (·.state) (fun _ => rfl), hfresh]
  have hnone : ∀ kind, ((e₁.lock p).promise p).reactions kind = [] := fun kind => by
    rw [reactions_lock, hfresh]
    cases kind <;> rfl
  have hlocked : ∀ q, q ≠ p → (e₁.resolve p v).promise q = e₁.promise q := fun q hq => by
    rw [hsettle, promise_settleNow hpend, if_neg hq, promise_lock, if_neg hq]
  have hnew := augments_newPromise e
  refine ⟨⟨?_, fun q hq => ?_, fun q hq kind => ?_, ?_⟩, ?_⟩
  · exact hnew.size.trans (settle_effects (R := Rights.all) (fun _ => trivial) .fulfill v).grows.promises
  · refine (hlocked q ?_).trans (hnew.promise q hq)
    rintro rfl
    exact hq.ne rfl
  · by_cases hqp : q = p
    · rw [hsettle, promise_settleNow hpend, if_pos hqp]
      cases kind <;> rfl
    · rw [hlocked q hqp]
      exact hnew.reactions q hq kind
  · rw [show e.newPromise.2.resolve e.newPromise.1 v = _ from hsettle, waitingJobs_settleNow hpend,
      hnone, List.map_nil, List.append_nil]
    rfl
  · rw [show e.newPromise.2.resolve e.newPromise.1 v = _ from hsettle, tallies_settleNow]
    rfl

/-- The promise of a value exists, and it is new unless it is the value. -/
theorem promiseOf_augments (e : Engine H) {v : Value}
    (hv : ∀ q, v = .promise q → q.index < e.promises.size) :
    e.Augments (e.promiseOf v).2 ∧ (e.promiseOf v).1.index < (e.promiseOf v).2.promises.size ∧
      (e.promiseOf v).2.tallies = e.tallies := by
  have hnew : (∀ q, v ≠ .promise q) →
      e.Augments (e.newPromise.2.resolve e.newPromise.1 v) ∧
        e.newPromise.1.index < (e.newPromise.2.resolve e.newPromise.1 v).promises.size ∧
        (e.newPromise.2.resolve e.newPromise.1 v).tallies = e.tallies := by
    intro hv
    obtain ⟨haug, htallies⟩ := augments_resolve_new e hv
    refine ⟨haug, ?_, htallies⟩
    have hgrows := (settle_effects (R := Rights.all) (e := e.newPromise.2) (p := e.newPromise.1)
      (fun _ => trivial) .fulfill v).grows.promises
    exact lt_of_lt_of_le ((Nat.lt_succ_self _).trans_eq (Store.size_push ..).symm) hgrows
  cases v with
  | promise q => exact ⟨.of_eq rfl rfl, hv q rfl, rfl⟩
  | _ => exact hnew (by rintro q ⟨⟩)

end Augments

end Engine

/-! ## Listeners -/

/-- The job for what the promise of a listener has been settled with. -/
def Listener.jobs (x : Listener) : PromiseState → List (Job H)
  | .pending => []
  | .fulfilled v => [x.job .fulfill v]
  | .rejected v => [x.job .reject v]

theorem Listener.jobs_settled (x : Listener) (kind : Settling) (v : Value) :
    (x.jobs (kind.state v) : List (Job H)) = [x.job kind v] := by
  cases kind <;> rfl

theorem Listener.mem_jobs {x : Listener} {s : PromiseState} {j : Job H} (h : j ∈ x.jobs s) :
    ∃ kind v, s = kind.state v ∧ j = x.job kind v := by
  cases s with
  | pending => cases h
  | fulfilled v => exact ⟨.fulfill, v, rfl, List.mem_singleton.1 h⟩
  | rejected v => exact ⟨.reject, v, rfl, List.mem_singleton.1 h⟩

namespace Engine

/-- The second engine is the first one with the listeners attached, one after the other, and
with more promises. -/
structure Equips (e e' : Engine H) (xs : List Listener) : Prop where
  size : e.promises.size ≤ e'.promises.size
  inputs : ∀ x ∈ xs, x.input.index < e'.promises.size
  state : ∀ p, p.index < e.promises.size → (e'.promise p).state = (e.promise p).state
  resolved : ∀ p, p.index < e.promises.size → (e'.promise p).resolved = (e.promise p).resolved
  reactions : ∀ p kind, (e'.promise p).reactions kind = (e.promise p).reactions kind ++
    if (e'.promise p).state = .pending then
      (xs.filter (·.input = p)).map (·.reaction kind) else []
  handled : ∀ x ∈ xs, (e'.promise x.input).handled = true
  waitingJobs : e'.waitingJobs =
    e.waitingJobs ++ xs.flatMap fun x => x.jobs (e'.promise x.input).state

namespace Equips

variable {e e' e'' : Engine H} {xs : List Listener} {x : Listener}

theorem refl (e : Engine H) : e.Equips e [] where
  size := le_rfl
  inputs _ hx := by cases hx
  state _ _ := rfl
  resolved _ _ := rfl
  reactions p kind := by simp
  handled _ hx := by cases hx
  waitingJobs := (List.append_nil _).symm

/-- Afterwards there are more promises. -/
theorem augments (h : e.Equips e' xs) (h' : e'.Augments e'') : e.Equips e'' xs where
  size := h.size.trans h'.size
  inputs x hx := (h.inputs x hx).trans_le h'.size
  state p hp := by rw [h'.promise p (hp.trans_le h.size), h.state p hp]
  resolved p hp := by rw [h'.promise p (hp.trans_le h.size), h.resolved p hp]
  reactions p kind := by
    by_cases hp : p.index < e'.promises.size
    · rw [h'.promise p hp, h.reactions p kind]
    · have hle := Nat.le_of_not_lt hp
      have hnone : xs.filter (·.input = p) = [] := by
        refine List.filter_eq_nil_iff.2 fun x hx => ?_
        rw [decide_eq_true_eq]
        rintro rfl
        exact hp (h.inputs x hx)
      rw [h'.reactions p hle, reactions_of_size_le (h.size.trans hle), hnone]
      simp
  handled x hx := by rw [h'.promise _ (h.inputs x hx), h.handled x hx]
  waitingJobs := by
    rw [h'.waitingJobs, h.waitingJobs]
    congr 1
    refine List.flatMap_congr fun x hx => ?_
    rw [h'.promise _ (h.inputs x hx)]

/-- Before that there have been less promises. -/
theorem of_augments (h : e.Augments e') (h' : e'.Equips e'' xs) : e.Equips e'' xs where
  size := h.size.trans h'.size
  inputs := h'.inputs
  state p hp := by rw [h'.state p (hp.trans_le h.size), h.promise p hp]
  resolved p hp := by rw [h'.resolved p (hp.trans_le h.size), h.promise p hp]
  reactions p kind := by
    rw [h'.reactions p kind]
    congr 1
    by_cases hp : p.index < e.promises.size
    · rw [h.promise p hp]
    · rw [h.reactions p (Nat.le_of_not_lt hp), reactions_of_size_le (Nat.le_of_not_lt hp)]
  handled := h'.handled
  waitingJobs := by rw [h'.waitingJobs, h.waitingJobs]

/-- One more listener. -/
theorem performThen (h : e.Equips e' xs) (hx : x.input.index < e'.promises.size) :
    e.Equips (e'.performThen x.input (some x.onFulfilled) (some x.onRejected) none)
      (xs ++ [x]) := by
  let e₁ := e'.performThen x.input (some x.onFulfilled) (some x.onRejected) none
  have hpromise := promise_performThen e' x.input (some x.onFulfilled) (some x.onRejected) none
  have hstate : ∀ p, (e₁.promise p).state = (e'.promise p).state :=
    read_performThen e' x.input _ _ _ Promise.state fun _ _ _ => rfl
  have hresolved : ∀ p, (e₁.promise p).resolved = (e'.promise p).resolved :=
    read_performThen e' x.input _ _ _ Promise.resolved fun _ _ _ => rfl
  have hgrow := (grows_performThen e' x.input (some x.onFulfilled) (some x.onRejected) none).promises
  refine ⟨h.size.trans hgrow, fun y hy => ?_, fun p hp => (hstate p).trans (h.state p hp),
    fun p hp => (hresolved p).trans (h.resolved p hp), fun p kind => ?_, fun y hy => ?_, ?_⟩
  · rcases List.mem_append.1 hy with hy | hy
    · exact (h.inputs y hy).trans_le hgrow
    · rw [List.mem_singleton.1 hy]
      exact hx.trans_le hgrow
  · rw [hstate p, hpromise p, List.filter_append, List.map_append]
    by_cases hp : p = x.input
    · subst hp
      rw [if_pos rfl]
      by_cases hpend : (e'.promise x.input).state = .pending
      · rw [if_pos hpend, show (e'.promise x.input).attach (some x.onFulfilled) (some x.onRejected)
          none = (e'.promise x.input).attach x.registration.onFulfilled x.registration.onRejected
            x.registration.capability from rfl, Promise.reactions_attach hpend,
          h.reactions x.input kind, if_pos hpend, List.append_assoc]
        congr 2
        simp [Listener.reaction]
      · rw [if_neg hpend, List.append_nil]
        have hsame := h.reactions x.input kind
        rw [if_neg hpend, List.append_nil] at hsame
        rw [← hsame]
        exact Promise.reactions_attach_settled hpend _ _ _ kind
    · rw [if_neg hp, h.reactions p kind]
      have hnone : [x].filter (·.input = p) = [] := by simp [Ne.symm hp]
      rw [hnone, List.map_nil, List.append_nil]
  · rw [hpromise]
    split
    · exact Promise.handled_attach _ _ _ _
    · next hne =>
      rcases List.mem_append.1 hy with hy | hy
      · exact h.handled y hy
      · exact absurd (congrArg Listener.input (List.mem_singleton.1 hy)) hne
  · show e₁.waitingJobs =
      e.waitingJobs ++ (xs ++ [x]).flatMap fun y => y.jobs (e₁.promise y.input).state
    simp only [hstate]
    rw [show e₁.waitingJobs = _ from waitingJobs_performThen e' x.input _ _ none, h.waitingJobs,
      List.flatMap_append, List.append_assoc, List.flatMap_singleton]
    rfl

/-- A listener that has been attached waits, or its job does. -/
theorem attends (h : e.Equips e' xs) (hx : x ∈ xs) : e'.Listens x ∨ e'.Notifies x := by
  rcases (e'.promise x.input).state.cases_settled with hs | ⟨kind, v, hs⟩
  · refine .inl ⟨hs, fun kind => ?_⟩
    rw [h.reactions x.input kind, if_pos hs]
    refine List.mem_append_right _ (List.mem_map_of_mem (List.mem_filter.2 ⟨hx, ?_⟩))
    exact decide_eq_true rfl
  · refine .inr ⟨kind, v, hs, ?_⟩
    rw [h.waitingJobs]
    refine List.mem_append_right _ (List.mem_flatMap.2 ⟨x, hx, ?_⟩)
    rw [hs, x.jobs_settled]
    exact List.mem_singleton.2 rfl

/-- A reaction has been there before, or it is that of a listener. -/
theorem mem_reactions (h : e.Equips e' xs) {p : PromiseRef} {kind : Settling} {r : Reaction}
    (hr : r ∈ (e'.promise p).reactions kind) :
    r ∈ (e.promise p).reactions kind ∨ ∃ x ∈ xs, x.input = p ∧ r = x.reaction kind := by
  rw [h.reactions p kind] at hr
  rcases List.mem_append.1 hr with hr | hr
  · exact .inl hr
  · split at hr
    · obtain ⟨x, hx, rfl⟩ := List.mem_map.1 hr
      obtain ⟨hx, hp⟩ := List.mem_filter.1 hx
      exact .inr ⟨x, hx, of_decide_eq_true hp, rfl⟩
    · cases hr

/-- A job has been there before, or it is that of a listener. -/
theorem mem_waitingJobs (h : e.Equips e' xs) {j : Job H} (hj : j ∈ e'.waitingJobs) :
    j ∈ e.waitingJobs ∨ ∃ x ∈ xs, ∃ kind v, (e'.promise x.input).state = kind.state v ∧
      j = x.job kind v := by
  rw [h.waitingJobs] at hj
  rcases List.mem_append.1 hj with hj | hj
  · exact .inl hj
  · obtain ⟨x, hx, hj⟩ := List.mem_flatMap.1 hj
    obtain ⟨kind, v, hs, rfl⟩ := Listener.mem_jobs hj
    exact .inr ⟨x, hx, kind, v, hs, rfl⟩

end Equips

/-! ## Elements -/

section Elements

variable {e e' : Engine H} {xs : List Listener}

theorem StandsFor.of_state {q : PromiseRef} {v : Value} (h : e.StandsFor q v)
    (hs : (e'.promise q).state = (e.promise q).state) : e'.StandsFor q v := by
  cases h with
  | itself => exact .itself
  | plain hv hq => exact .plain hv (hs.trans hq)

/-- The promises of the listeners stand for the values, in order. -/
abbrev Represents (e : Engine H) (items : List Value) (xs : List Listener) : Prop :=
  List.Forall₂ (fun v x => e.StandsFor x.input v) items xs

/-- A listener for one more value. -/
theorem Equips.listen (h : e.Equips e' xs) {items : List Value} (hr : e'.Represents items xs)
    {v : Value} (hv : ∀ q, v = .promise q → q.index < e.promises.size) (f g : FunctionRef) :
    let e'' := (e'.promiseOf v).2.performThen (e'.promiseOf v).1 (some f) (some g) none
    e.Equips e'' (xs ++ [⟨(e'.promiseOf v).1, f, g⟩]) ∧
      e''.Represents (items ++ [v]) (xs ++ [⟨(e'.promiseOf v).1, f, g⟩]) ∧
      e''.callables = e'.callables ∧ e''.tallies = e'.tallies := by
  obtain ⟨haug, hlt, htallies⟩ := e'.promiseOf_augments fun q hq => (hv q hq).trans_le h.size
  have hstate : ∀ p, (((e'.promiseOf v).2.performThen (e'.promiseOf v).1 (some f) (some g)
      none).promise p).state = ((e'.promiseOf v).2.promise p).state :=
    read_performThen _ _ _ _ _ Promise.state fun _ _ _ => rfl
  refine ⟨(h.augments haug).performThen (x := ⟨(e'.promiseOf v).1, f, g⟩) hlt, ?_, ?_, ?_⟩
  · obtain ⟨hlen, hall⟩ := List.forall₂_iff_zip.1 hr
    refine List.rel_append (List.forall₂_iff_zip.2 ⟨hlen, fun {y x} hmem => ?_⟩) (.cons ?_ .nil)
    · have hin := h.inputs x (List.of_mem_zip hmem).2
      exact (hall hmem).of_state ((hstate _).trans (by rw [haug.promise _ hin]))
    · exact (standsFor_promiseOf e' v).of_state (hstate _)
  · exact (callables_performThen _ _ _ _ _).trans (callables_promiseOf e' v)
  · exact (tallies_performThen _ _ _ _ _).trans htallies

/-- The loop of `race`, where all elements get the same two functions. -/
theorem race_loop (e : Engine H) (f g : FunctionRef) (items : List Value)
    (hv : ∀ q, .promise q ∈ items → q.index < e.promises.size) :
    ∃ xs, let e' := (items.foldl (fun e v =>
        let (p, e) := e.promiseOf v
        e.performThen p (some f) (some g) none) e)
      e.Equips e' xs ∧ e'.Represents items xs ∧ (∀ x ∈ xs, x.onFulfilled = f ∧ x.onRejected = g) ∧
        e'.callables = e.callables ∧ e'.tallies = e.tallies := by
  induction items using List.reverseRecOn with
  | nil => exact ⟨[], .refl e, .nil, (fun x hx => by cases hx), rfl, rfl⟩
  | append_singleton items v ih =>
    obtain ⟨xs, hequips, hrep, hxs, hcallables, htallies⟩ :=
      ih fun q hq => hv q (List.mem_append_left _ hq)
    have hitem : ∀ q, v = .promise q → q.index < e.promises.size := by
      rintro q rfl
      exact hv q (List.mem_append_right _ (List.mem_singleton.2 rfl))
    obtain ⟨h₁, h₂, h₃, h₄⟩ := hequips.listen hrep hitem f g
    rw [List.foldl_append]
    refine ⟨_, h₁, h₂, fun x hx => ?_, h₃.trans hcallables, h₄.trans htallies⟩
    rcases List.mem_append.1 hx with hx | hx
    · exact hxs x hx
    · rw [List.mem_singleton.1 hx]
      exact ⟨rfl, rfl⟩

end Elements

end Engine

/-! ## Functions -/

/-- The code that settles a promise. -/
def Settling.code (p : PromiseRef) : Settling → Code H
  | .fulfill => .resolve p
  | .reject => .reject p

namespace Engine

/-- The function runs the code whenever it is called. -/
def Does (e : Engine H) (f : FunctionRef) (c : Code H) : Prop :=
  (e.callable f).usage = .repeatable ∧ (e.callable f).code = c

/-- The function is new in the second engine. -/
def Made (e e' : Engine H) (f : FunctionRef) : Prop :=
  e.callables.size ≤ f.index ∧ f.index < e'.callables.size

/-- Two new functions leave the others as they are. -/
theorem callable_of_lt (e : Engine H) (c c' : Callable H) {f : FunctionRef}
    (hf : f.index < e.callables.size) :
    ((e.newFunction c).2.newFunction c').2.callable f = e.callable f := by
  have hf' : f.index < (e.newFunction c).2.callables.size :=
    hf.trans_le (grows_newFunction e c).callables
  rw [callable_newFunction, if_neg, callable_newFunction, if_neg]
  · rintro rfl
    exact hf.ne rfl
  · rintro rfl
    exact hf'.ne rfl

theorem size_newFunctions (e : Engine H) (c c' : Callable H) :
    ((e.newFunction c).2.newFunction c').2.callables.size = e.callables.size + 2 := by
  show ((e.callables.push c).push c').size = _
  rw [Store.size_push, Store.size_push]

/-- What a combinator sets up: its result, a listener for each of its elements, and new
functions, of which some decide the result at once. -/
structure Combines (e e' : Engine H) (decides : Settling → Bool) (items : List Value)
    (xs : List Listener) : Prop where
  equips : e.Equips e' xs
  represents : e'.Represents items xs
  result : e.promises.size < e'.promises.size
  unresolved : (e'.promise ⟨e.promises.size⟩).resolved = false
  made : ∀ f, e.Made e' f → (∃ kind : Settling, (e'.callable f).code = kind.code ⟨e.promises.size⟩) ∨
    ∃ t i kind, (e'.callable f).code = .report t i kind
  handlers : ∀ x ∈ xs, ∀ kind, e.Made e' (x.handler kind)
  decides : ∀ x ∈ xs, ∀ kind, decides kind = true →
    e'.Does (x.handler kind) (kind.code ⟨e.promises.size⟩)

/-! ## Races -/

/-- **A race** attaches two new functions to all of its elements, and both decide its
result. -/
theorem race_sets_up {e : Engine H} {items : List Value}
    (hv : ∀ q, .promise q ∈ items → q.index < e.promises.size) :
    ∃ xs, e.Combines (e.race items).2 (fun _ => true) items xs := by
  let result : PromiseRef := ⟨e.promises.size⟩
  let c : Callable H := ⟨"resolve", .repeatable, .resolve result⟩
  let c' : Callable H := ⟨"reject", .repeatable, .reject result⟩
  let e₁ := ((e.newPromise.2.newFunction c).2.newFunction c').2
  let f := (e.newPromise.2.newFunction c).1
  let g := ((e.newPromise.2.newFunction c).2.newFunction c').1
  have haug : e.Augments e₁ := e.augments_newPromise.trans (.of_eq rfl rfl)
  have hresult : result.index < e₁.promises.size :=
    (Nat.lt_succ_self _).trans_eq (Store.size_push ..).symm
  have hfresh : e₁.promise result = { id := e.nextId } :=
    (promise_newPromise e _).trans (if_pos rfl)
  obtain ⟨xs, hequips, hrep, hxs, hcallables, -⟩ :=
    e₁.race_loop f g items fun q hq => (hv q hq).trans_le haug.size
  replace hcallables : (e.race items).2.callables = e₁.callables := hcallables
  have hcallable : ∀ y, (e.race items).2.callable y = e₁.callable y := fun y => by
    rw [callable, hcallables]
    rfl
  have hsize : e₁.callables.size = e.callables.size + 2 := size_newFunctions e.newPromise.2 c c'
  have hf : f.index = e.callables.size := rfl
  have hg : g.index = e.callables.size + 1 := Store.size_push ..
  obtain ⟨hc, hc'⟩ := Ledger.callable_newFunctions e.newPromise.2 c c'
  have hhandler : ∀ x ∈ xs, ∀ kind, e.Made (e.race items).2 (x.handler kind) ∧
      (e.race items).2.Does (x.handler kind) (kind.code result) := by
    intro x hx kind
    obtain ⟨hfulfill, hreject⟩ := hxs x hx
    rw [Does, hcallable, Made, hcallables, hsize]
    cases kind with
    | fulfill =>
      rw [show x.handler .fulfill = f from hfulfill, hc, hf]
      exact ⟨⟨le_rfl, by omega⟩, rfl, rfl⟩
    | reject =>
      rw [show x.handler .reject = g from hreject, hc', hg]
      exact ⟨⟨by omega, by omega⟩, rfl, rfl⟩
  refine ⟨xs, .of_augments haug hequips, hrep, hresult.trans_le hequips.size, ?_, fun y hy => ?_,
    fun x hx kind => (hhandler x hx kind).1, fun x hx kind _ => (hhandler x hx kind).2⟩
  · exact (hequips.resolved result hresult).trans (congrArg Promise.resolved hfresh)
  · -- there are no other new functions than these two
    left
    obtain ⟨hle, hlt⟩ := hy
    rw [hcallables, hsize] at hlt
    obtain rfl | rfl : y = f ∨ y = g := by
      rcases y with ⟨i⟩
      have hi : i = e.callables.size ∨ i = e.callables.size + 1 := by
        have hle' : e.callables.size ≤ i := hle
        have hlt' : i < e.callables.size + 2 := hlt
        omega
      exact hi.imp (congrArg FunctionRef.mk ·) fun hi => congrArg FunctionRef.mk (hi.trans hg.symm)
    · exact ⟨.fulfill, by rw [hcallable, hc]; rfl⟩
    · exact ⟨.reject, by rw [hcallable, hc']; rfl⟩

end Engine

end Microtask
