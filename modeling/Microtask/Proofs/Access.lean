import Microtask.Machine.Op

/-!
# Reading after writing

What the promises, the functions and the waiting jobs of an engine are after each
of its basic operations. Every operation on promises is made of these, and so no
later module looks into a store.
-/

namespace Microtask

variable {H : Type}

theorem PromiseRef.index_inj {p q : PromiseRef} : p.index = q.index ↔ p = q := by
  cases p; cases q; simp

theorem FunctionRef.index_inj {f g : FunctionRef} : f.index = g.index ↔ f = g := by
  cases f; cases g; simp

theorem AsyncGeneratorRef.index_inj {a b : AsyncGeneratorRef} : a.index = b.index ↔ a = b := by
  cases a; cases b; simp

theorem TallyRef.index_inj {t u : TallyRef} : t.index = u.index ↔ t = u := by
  cases t; cases u; simp

/-! ## Ways of settling -/

/-- The state of a promise that has settled in the given way. -/
def Settling.state : Settling → Value → PromiseState
  | fulfill, v => .fulfilled v
  | reject, v => .rejected v

/-- The completion that a wait ends with. -/
def Settling.completion : Settling → Value → Completion
  | .fulfill, v => .normal v
  | .reject, v => .throwing v

theorem Settling.state_inj {kind kind' : Settling} {v v' : Value}
    (h : kind.state v = kind'.state v') : kind = kind' ∧ v = v' := by
  cases kind <;> cases kind' <;> cases h <;> exact ⟨rfl, rfl⟩

theorem Settling.eq_of_fulfilled {kind : Settling} {v u : Value} (h : kind.state v = .fulfilled u) :
    kind = .fulfill ∧ v = u :=
  state_inj (h : kind.state v = Settling.fulfill.state u)

theorem Settling.eq_of_rejected {kind : Settling} {v u : Value} (h : kind.state v = .rejected u) :
    kind = .reject ∧ v = u :=
  state_inj (h : kind.state v = Settling.reject.state u)

theorem Settling.state_ne_pending (kind : Settling) (v : Value) : kind.state v ≠ .pending := by
  cases kind <;> rintro ⟨⟩

theorem PromiseState.cases_settled (s : PromiseState) :
    s = .pending ∨ ∃ (kind : Settling) (v : Value), s = kind.state v := by
  cases s with
  | pending => exact .inl rfl
  | fulfilled v => exact .inr ⟨.fulfill, v, rfl⟩
  | rejected v => exact .inr ⟨.reject, v, rfl⟩

namespace Promise

/-- The reactions to a way of settling. -/
def reactions (r : Promise) : Settling → List Reaction
  | .fulfill => r.onFulfilled
  | .reject => r.onRejected

/-- A promise that has just settled. -/
def settled (r : Promise) (kind : Settling) (v : Value) : Promise :=
  { r with state := kind.state v, following := none, onFulfilled := [], onRejected := [] }

theorem settled_ne_pending (r : Promise) (kind : Settling) (v : Value) :
    (r.settled kind v).state ≠ .pending :=
  kind.state_ne_pending v

/-- A promise with one more pair of reactions, unless it has settled. -/
def attach (r : Promise) (onFulfilled onRejected : Option FunctionRef)
    (capability : Option PromiseRef) : Promise :=
  match r.state with
  | .pending =>
    { r with
      handled := true
      onFulfilled := r.onFulfilled ++ [⟨.fulfill, onFulfilled, capability⟩]
      onRejected := r.onRejected ++ [⟨.reject, onRejected, capability⟩] }
  | _ => { r with handled := true }

/-- The job that attaching reactions to a promise that has settled leads to. -/
def attachJobs (r : Promise) (onFulfilled onRejected : Option FunctionRef)
    (capability : Option PromiseRef) : List (Job H) :=
  match r.state with
  | .pending => []
  | .fulfilled v => [.reaction ⟨.fulfill, onFulfilled, capability⟩ v]
  | .rejected v => [.reaction ⟨.reject, onRejected, capability⟩ v]

/-- Attaching changes the two lists and the mark only. -/
theorem read_attach {α : Type} (read : Promise → α)
    (h : ∀ (r : Promise) onFulfilled onRejected,
      read { r with handled := true, onFulfilled, onRejected } = read r)
    (r : Promise) (f g : Option FunctionRef) (capability : Option PromiseRef) :
    read (r.attach f g capability) = read r := by
  unfold attach
  split
  · exact h r _ _
  · exact h r r.onFulfilled r.onRejected

theorem handled_attach (r : Promise) (f g : Option FunctionRef) (capability : Option PromiseRef) :
    (r.attach f g capability).handled = true := by
  unfold attach
  split <;> rfl

theorem mem_attachJobs {r : Promise} {f g : Option FunctionRef} {capability : Option PromiseRef}
    {j : Job H} (hj : j ∈ r.attachJobs f g capability) :
    (∃ v, r.state = .fulfilled v ∧ j = .reaction ⟨.fulfill, f, capability⟩ v) ∨
      ∃ v, r.state = .rejected v ∧ j = .reaction ⟨.reject, g, capability⟩ v := by
  unfold attachJobs at hj
  split at hj
  · cases hj
  · next v hv => exact .inl ⟨v, hv, List.mem_singleton.1 hj⟩
  · next v hv => exact .inr ⟨v, hv, List.mem_singleton.1 hj⟩

end Promise

namespace Engine

/-! ## Promises -/

/-- The jobs that wait, in order. -/
def waitingJobs (e : Engine H) : List (Job H) := e.jobs.waiting.map (·.2)

theorem promise_of_size_le {e : Engine H} {p : PromiseRef} (h : e.promises.size ≤ p.index) :
    e.promise p = {} :=
  Store.get_of_size_le h

theorem promise_modifyPromise (e : Engine H) (p q : PromiseRef) (f : Promise → Promise) :
    (e.modifyPromise p f).promise q = if q = p then f (e.promise p) else e.promise q := by
  simp only [promise, modifyPromise, Store.get_modify, PromiseRef.index_inj]

/-- What a change of records keeps, no promise loses. -/
theorem read_modifyPromise {α : Type} (read : Promise → α) (f : Promise → Promise)
    (h : ∀ r, read (f r) = read r) (e : Engine H) (p q : PromiseRef) :
    read ((e.modifyPromise p f).promise q) = read (e.promise q) := by
  rw [promise_modifyPromise]
  split
  · next hq => rw [hq, h]
  · rfl

theorem size_modifyPromise (e : Engine H) (p : PromiseRef) (f : Promise → Promise) :
    (e.modifyPromise p f).promises.size = max e.promises.size (p.index + 1) := by
  simp only [modifyPromise, Store.modify, Store.size_set]

theorem promise_newPromise (e : Engine H) (q : PromiseRef) :
    e.newPromise.2.promise q = if q = ⟨e.promises.size⟩ then { id := e.nextId } else e.promise q := by
  simp only [promise, newPromise, Store.get_push, ← PromiseRef.index_inj]

/-- A new promise has nothing but an id. -/
theorem read_newPromise {α : Type} (read : Promise → α) (h : ∀ id, read { id } = read {})
    (e : Engine H) (q : PromiseRef) : read (e.newPromise.2.promise q) = read (e.promise q) := by
  rw [promise_newPromise]
  split
  · next hq =>
    have hnew : e.promise q = {} := promise_of_size_le (hq ▸ Nat.le_refl e.promises.size)
    rw [hnew, h]
  · rfl

theorem reactions_newPromise (e : Engine H) (q : PromiseRef) (kind : Settling) :
    (e.newPromise.2.promise q).reactions kind = (e.promise q).reactions kind :=
  read_newPromise (·.reactions kind) (fun _ => by cases kind <;> rfl) e q

/-! ## Jobs -/

@[simp] theorem waitingJobs_modifyPromise (e : Engine H) (p : PromiseRef) (f : Promise → Promise) :
    (e.modifyPromise p f).waitingJobs = e.waitingJobs := rfl

@[simp] theorem waitingJobs_enqueue (e : Engine H) (j : Job H) :
    (e.enqueue j).waitingJobs = e.waitingJobs ++ [j] := by
  simp [waitingJobs, enqueue, JobQueue.enqueue]

theorem waiting_enqueueAll {J : Type} (q : JobQueue J) (js : List J) :
    (q.enqueueAll js).waiting.map (·.2) = q.waiting.map (·.2) ++ js := by
  induction js generalizing q with
  | nil => simp [JobQueue.enqueueAll]
  | cons j js ih =>
    have h := ih (q.enqueue j)
    simp only [JobQueue.enqueueAll, List.foldl_cons] at h ⊢
    rw [h]
    simp [JobQueue.enqueue]

@[simp] theorem waitingJobs_trigger (e : Engine H) (rs : List Reaction) (v : Value) :
    (e.trigger rs v).waitingJobs = e.waitingJobs ++ rs.map (.reaction · v) :=
  waiting_enqueueAll e.jobs _

theorem waitingJobs_pop {e : Engine H} {id : Nat} {j : Job H} {jobs : JobQueue (Job H)}
    (h : e.jobs.pop? = some ((id, j), jobs)) :
    e.waitingJobs = j :: { e with jobs }.waitingJobs := by
  unfold JobQueue.pop? at h
  unfold waitingJobs
  cases hw : e.jobs.waiting with
  | nil => rw [hw] at h; cases h
  | cons first rest =>
    rw [hw] at h
    obtain ⟨rfl, rfl⟩ : first = (id, j) ∧ { e.jobs with waiting := rest } = jobs := by
      simpa using h
    rfl

/-! ## Functions -/

theorem callable_newFunction (e : Engine H) (c : Callable H) (f : FunctionRef) :
    (e.newFunction c).2.callable f = if f = ⟨e.callables.size⟩ then c else e.callable f := by
  simp only [callable, newFunction, Store.get_push, ← FunctionRef.index_inj]

theorem callable_spend (e : Engine H) (f g : FunctionRef) :
    (e.spend f).callable g =
      if g = f then { e.callable f with usage := .spent } else e.callable g := by
  simp only [callable, spend, Store.get_modify, FunctionRef.index_inj]

theorem size_spend (e : Engine H) (f : FunctionRef) :
    (e.spend f).callables.size = max e.callables.size (f.index + 1) := by
  simp only [spend, Store.modify, Store.size_set]

/-! ## Settling and attaching -/

/-- Settle a pending promise in the given way, whatever its fate was. -/
def settleNow (e : Engine H) (p : PromiseRef) : Settling → Value → Engine H
  | .fulfill, v => e.fulfillNow p v
  | .reject, v => e.rejectNow p v

section Settling

variable {e : Engine H} {p : PromiseRef} (h : (e.promise p).state = .pending)
include h

theorem promise_settleNow (kind : Settling) (v : Value) (q : PromiseRef) :
    (e.settleNow p kind v).promise q =
      if q = p then (e.promise p).settled kind v else e.promise q := by
  cases kind with
  | fulfill =>
    rw [settleNow, fulfillNow]
    simp only [h]
    exact promise_modifyPromise e p q _
  | reject =>
    rw [settleNow, rejectNow]
    simp only [h]
    cases (e.promise p).handled <;> exact promise_modifyPromise e p q _

/-- Settling changes the state, the link and the two lists only. -/
theorem read_settleNow {α : Type} (read : Promise → α)
    (hread : ∀ (r : Promise) kind v, read (r.settled kind v) = read r) (kind : Settling) (v : Value)
    (q : PromiseRef) : read ((e.settleNow p kind v).promise q) = read (e.promise q) := by
  rw [promise_settleNow h]
  split
  · next hq => rw [hq, hread]
  · rfl

/-- Settling a promise takes reactions away only. -/
theorem mem_reactions_settleNow {kind : Settling} {v : Value} {q : PromiseRef} {kind' : Settling}
    {r : Reaction} (hr : r ∈ ((e.settleNow p kind v).promise q).reactions kind') :
    r ∈ (e.promise q).reactions kind' := by
  rw [promise_settleNow h] at hr
  split at hr
  · cases kind' <;> cases hr
  · exact hr

theorem size_settleNow (kind : Settling) (v : Value) :
    (e.settleNow p kind v).promises.size = max e.promises.size (p.index + 1) := by
  cases kind with
  | fulfill =>
    rw [settleNow, fulfillNow]
    simp only [h]
    exact size_modifyPromise e p _
  | reject =>
    rw [settleNow, rejectNow]
    simp only [h]
    cases (e.promise p).handled <;> exact size_modifyPromise e p _

theorem waitingJobs_settleNow (kind : Settling) (v : Value) :
    (e.settleNow p kind v).waitingJobs =
      e.waitingJobs ++ ((e.promise p).reactions kind).map (.reaction · v) := by
  cases kind with
  | fulfill =>
    rw [settleNow, fulfillNow]
    simp only [h, waitingJobs_trigger]
    rfl
  | reject =>
    rw [settleNow, rejectNow]
    simp only [h, waitingJobs_trigger]
    cases (e.promise p).handled <;> rfl

end Settling

/-- Settling concerns promises, jobs and recorded rejections only. -/
theorem frame_settleNow {α : Type} (read : Engine H → α)
    (h : ∀ (e : Engine H) promises jobs unhandled,
      read { e with promises, jobs, unhandled } = read e)
    (e : Engine H) (p : PromiseRef) (kind : Settling) (v : Value) :
    read (e.settleNow p kind v) = read e := by
  cases kind with
  | fulfill =>
    rw [settleNow, fulfillNow]
    split
    · exact h e _ _ e.unhandled
    · rfl
  | reject =>
    rw [settleNow, rejectNow]
    split
    · cases (e.promise p).handled <;> exact h e _ _ _
    · rfl

@[simp] theorem callables_settleNow (e : Engine H) (p : PromiseRef) (kind : Settling) (v : Value) :
    (e.settleNow p kind v).callables = e.callables :=
  frame_settleNow callables (fun _ _ _ _ => rfl) e p kind v

/-- A promise that has settled is left alone. -/
theorem settleNow_of_settled {e : Engine H} {p : PromiseRef} (h : (e.promise p).state ≠ .pending)
    (kind : Settling) (v : Value) : e.settleNow p kind v = e := by
  cases kind with
  | fulfill => rw [settleNow, fulfillNow]; split <;> simp_all
  | reject => rw [settleNow, rejectNow]; split <;> simp_all

section Attaching

variable (e : Engine H) (p : PromiseRef) (f g : Option FunctionRef) (capability : Option PromiseRef)

theorem promise_performThen (q : PromiseRef) :
    (e.performThen p f g capability).promise q =
      if q = p then (e.promise p).attach f g capability else e.promise q := by
  rw [performThen]
  unfold Promise.attach
  cases hs : (e.promise p).state with
  | pending =>
    dsimp only
    rw [promise_modifyPromise, hs]
  | fulfilled v =>
    dsimp only
    rw [← hs]
    exact promise_modifyPromise e p q _
  | rejected v =>
    dsimp only
    rw [← hs]
    cases (e.promise p).handled <;> exact promise_modifyPromise e p q _

theorem read_performThen {α : Type} (read : Promise → α)
    (h : ∀ (r : Promise) onFulfilled onRejected,
      read { r with handled := true, onFulfilled, onRejected } = read r)
    (q : PromiseRef) : read ((e.performThen p f g capability).promise q) = read (e.promise q) := by
  rw [promise_performThen]
  split
  · next hq => rw [hq, Promise.read_attach read h]
  · rfl

variable {e p f g capability} in
/-- The reactions that a promise has got. -/
theorem mem_reactions_performThen {q : PromiseRef} {kind : Settling} {r : Reaction}
    (hr : r ∈ ((e.performThen p f g capability).promise q).reactions kind) :
    r ∈ (e.promise q).reactions kind ∨
      q = p ∧ (r = ⟨.fulfill, f, capability⟩ ∨ r = ⟨.reject, g, capability⟩) := by
  rw [promise_performThen] at hr
  split at hr
  · next hq =>
    subst hq
    unfold Promise.attach at hr
    split at hr
    · cases kind with
      | fulfill =>
        rcases List.mem_append.1 hr with hold | hnew
        · exact .inl hold
        · exact .inr ⟨rfl, .inl (List.mem_singleton.1 hnew)⟩
      | reject =>
        rcases List.mem_append.1 hr with hold | hnew
        · exact .inl hold
        · exact .inr ⟨rfl, .inr (List.mem_singleton.1 hnew)⟩
    · cases kind <;> exact .inl hr
  · exact .inl hr

theorem size_performThen :
    (e.performThen p f g capability).promises.size = max e.promises.size (p.index + 1) := by
  rw [performThen]
  cases (e.promise p).state with
  | pending => exact size_modifyPromise e p _
  | fulfilled v => exact size_modifyPromise e p _
  | rejected v => cases (e.promise p).handled <;> exact size_modifyPromise e p _

theorem waitingJobs_performThen :
    (e.performThen p f g capability).waitingJobs =
      e.waitingJobs ++ (e.promise p).attachJobs f g capability := by
  rw [performThen]
  unfold Promise.attachJobs
  cases (e.promise p).state with
  | pending => simp
  | fulfilled v => simp
  | rejected v =>
    cases (e.promise p).handled with
    | true => simp
    | false =>
      simp
      rfl

/-- Attaching concerns promises, jobs and recorded rejections only. -/
theorem frame_performThen {α : Type} (read : Engine H → α)
    (h : ∀ (e : Engine H) promises jobs unhandled,
      read { e with promises, jobs, unhandled } = read e) :
    read (e.performThen p f g capability) = read e := by
  rw [performThen]
  cases (e.promise p).state with
  | pending => exact h e _ e.jobs e.unhandled
  | fulfilled v => exact h e _ _ e.unhandled
  | rejected v => cases (e.promise p).handled <;> exact h e _ _ _

@[simp] theorem callables_performThen :
    (e.performThen p f g capability).callables = e.callables :=
  frame_performThen e p f g capability callables fun _ _ _ _ => rfl

theorem callables_promiseThen : (e.promiseThen p f g).2.callables = e.callables :=
  callables_performThen e.newPromise.2 p f g _

/-- The new promise is pending, as what does not exist is. -/
theorem state_promiseThen (q : PromiseRef) :
    ((e.promiseThen p f g).2.promise q).state = (e.promise q).state :=
  (read_performThen e.newPromise.2 p f g _ Promise.state (fun _ _ _ => rfl) q).trans
    (read_newPromise Promise.state (fun _ => rfl) e q)

end Attaching

end Engine

end Microtask
