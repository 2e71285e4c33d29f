import Microtask.Proofs.Promise.Lifecycle

/-!
# Accounts of async generators

The requests that an async generator has been asked for are, in order, some that
are answered, at most one that is in flight, and those in its queue
(`Ledger.Account`). The duty to answer a request is owed by whoever works on the
one in flight, and once only.

Most changes are quiet about all of this (`Ledger.Quiet`). Those that are not make
a request, take one off the queue, answer it, or end a look at the queue.
-/

namespace Microtask

variable {H : Type}

/-- The requests that have been made of an async generator, in order. -/
def requestsOf (a : AsyncGeneratorRef) (issued : List (AsyncGeneratorRef × Request)) :
    List Request :=
  (issued.filter (·.1 = a)).map (·.2)

theorem mem_requestsOf {a : AsyncGeneratorRef} {r : Request}
    {issued : List (AsyncGeneratorRef × Request)} : r ∈ requestsOf a issued ↔ (a, r) ∈ issued := by
  constructor
  · intro h
    obtain ⟨⟨b, s⟩, hx, rfl⟩ := List.mem_map.1 h
    obtain ⟨hmem, hb⟩ := List.mem_filter.1 hx
    obtain rfl : b = a := of_decide_eq_true hb
    exact hmem
  · intro h
    exact List.mem_map.2 ⟨(a, r), List.mem_filter.2 ⟨h, decide_eq_true rfl⟩, rfl⟩

theorem requestsOf_append (a : AsyncGeneratorRef) (issued issued' : List (AsyncGeneratorRef × Request)) :
    requestsOf a (issued ++ issued') = requestsOf a issued ++ requestsOf a issued' := by
  rw [requestsOf, List.filter_append, List.map_append]
  rfl

theorem Duty.serve_ne_adopt (a : AsyncGeneratorRef) (r : Request) (p : PromiseRef) :
    Duty.serve a r ≠ .adopt p := by
  rintro ⟨⟩

namespace Ledger

/-- The promise answers a request that has been made. -/
def Issued (l : Ledger H) (p : PromiseRef) : Prop := ∃ x ∈ l.issued, x.2.capability = p

/-- The account of an async generator with the requests that have been answered and
those in flight. -/
structure Account (l : Ledger H) (a : AsyncGeneratorRef) (served flight : List Request) : Prop where
  requests : requestsOf a l.issued = served ++ flight ++ (l.engine.asyncGenerator a).queue
  settled : ∀ r ∈ served, (l.engine.promise r.capability).state ≠ .pending
  unresolved : ∀ r ∈ flight ++ (l.engine.asyncGenerator a).queue,
    (l.engine.promise r.capability).resolved = false
  single : flight.length = if (l.engine.asyncGenerator a).state.isBusy then 1 else 0
  waiting : l.serving ≠ some a → (l.engine.asyncGenerator a).state.isBusy = false →
    (l.engine.asyncGenerator a).queue = []
  duty : ∀ r, 0 < l.owed (.serve a r) → flight = [r]
  once : ∀ r, l.owed (.serve a r) ≤ 1

/-- Every async generator has its account, and every request a promise of its own. -/
structure Accounts (l : Ledger H) : Prop where
  lawful : l.Lawful
  allocated : ∀ p, l.Issued p → p.index < l.engine.promises.size
  distinct : (l.issued.map (·.2.capability)).Nodup
  account : ∀ a, ∃ served flight, l.Account a served flight

/-- A change that no account notices. -/
structure Quiet (l l' : Ledger H) : Prop where
  issued : l'.issued = l.issued
  queue : ∀ a, (l'.engine.asyncGenerator a).queue = (l.engine.asyncGenerator a).queue
  busy : ∀ a, (l'.engine.asyncGenerator a).state.isBusy = (l.engine.asyncGenerator a).state.isBusy
  serving : ∀ a, l'.serving ≠ some a → l.serving ≠ some a
  unresolved : ∀ p, l.Issued p → (l.engine.promise p).resolved = false →
    (l'.engine.promise p).resolved = false
  owed : ∀ a r, l'.owed (.serve a r) ≤ l.owed (.serve a r)

variable {l l' : Ledger H} {a b : AsyncGeneratorRef} {served flight : List Request} {r : Request}

namespace Account

/-- Requests in flight and in the queue have been made. -/
theorem issued (h : l.Account a served flight)
    (hr : r ∈ flight ++ (l.engine.asyncGenerator a).queue) : (a, r) ∈ l.issued := by
  rw [← mem_requestsOf, h.requests, List.append_assoc]
  exact List.mem_append_right _ hr

/-- An account that does not notice a change, although others may. -/
theorem keep (h : l.Account a served flight)
    (hissued : requestsOf a l'.issued = requestsOf a l.issued)
    (hqueue : (l'.engine.asyncGenerator a).queue = (l.engine.asyncGenerator a).queue)
    (hbusy : (l'.engine.asyncGenerator a).state.isBusy = (l.engine.asyncGenerator a).state.isBusy)
    (hserving : l'.serving ≠ some a → l.serving ≠ some a)
    (hsettled : ∀ p, (l.engine.promise p).Persists (l'.engine.promise p))
    (hunresolved : ∀ r, (a, r) ∈ l.issued → r ∈ flight ++ (l.engine.asyncGenerator a).queue →
      (l.engine.promise r.capability).resolved = false →
      (l'.engine.promise r.capability).resolved = false)
    (howed : ∀ r, l'.owed (.serve a r) ≤ l.owed (.serve a r)) : l'.Account a served flight where
  requests := by rw [hissued, h.requests, hqueue]
  settled r hr := by
    rw [(hsettled _).settled (h.settled r hr)]
    exact h.settled r hr
  unresolved r hr := by
    rw [hqueue] at hr
    exact hunresolved r (h.issued hr) hr (h.unresolved r hr)
  single := by rw [hbusy, h.single]
  waiting hs hb := by
    rw [hqueue]
    exact h.waiting (hserving hs) (hbusy ▸ hb)
  duty r hr := h.duty r (hr.trans_le (howed r))
  once r := (howed r).trans (h.once r)

end Account

namespace Accounts

/-- Every request has a promise of its own. -/
theorem request_unique (h : l.Accounts) {s : Request} (hr : (a, r) ∈ l.issued)
    (hs : (b, s) ∈ l.issued) (heq : r.capability = s.capability) : a = b ∧ r = s := by
  have hinj := List.inj_on_of_nodup_map h.distinct hr hs heq
  exact Prod.mk.inj hinj

theorem nodup_capabilities (h : l.Accounts) (a : AsyncGeneratorRef) :
    ((requestsOf a l.issued).map (·.capability)).Nodup := by
  have hsub : ((requestsOf a l.issued).map (·.capability)).Sublist
      (l.issued.map (·.2.capability)) := by
    rw [requestsOf, List.map_map]
    exact List.filter_sublist.map _
  exact h.distinct.sublist hsub

/-- A change that keeps the requests. -/
theorem change (h : l.Accounts) (hl : l'.Lawful) (hg : l.engine.Grows l'.engine)
    (hissued : l'.issued = l.issued)
    (hacc : ∀ a, ∃ served flight, l'.Account a served flight) : l'.Accounts where
  lawful := hl
  allocated p hp := by
    have hp' : l.Issued p := by
      rw [Issued, ← hissued]
      exact hp
    exact (h.allocated p hp').trans_le hg.promises
  distinct := by
    rw [hissued]
    exact h.distinct
  account := hacc

theorem quiet (h : l.Accounts) (hl : l'.Lawful)
    (hp : ∀ p, (l.engine.promise p).Persists (l'.engine.promise p))
    (hg : l.engine.Grows l'.engine) (hq : l.Quiet l') : l'.Accounts := by
  refine h.change hl hg hq.issued fun a => ?_
  obtain ⟨served, flight, ha⟩ := h.account a
  exact ⟨served, flight, ha.keep (by rw [hq.issued]) (hq.queue a) (hq.busy a) (hq.serving a)
    hp (fun r hr _ hres => hq.unresolved _ ⟨_, hr, rfl⟩ hres) (hq.owed a)⟩

end Accounts

end Ledger

/-! ## What effects leave alone -/

namespace Engine

variable {R : Rights} {e e' : Engine H} {p q : PromiseRef}

theorem Fate.promise_of_ne (h : Fate q e e') (hne : p ≠ q) : e'.promise p = e.promise p := by
  cases h with
  | settled kind v =>
    by_cases hs : (e.promise q).state = .pending
    · rw [promise_settleNow hs, if_neg hne]
    · rw [settleNow_of_settled hs]
  | adopts hc => rw [promise_link, if_neg hne]

theorem resolved_performThen (e : Engine H) (q : PromiseRef) (f g : Option FunctionRef)
    (capability : Option PromiseRef) (p : PromiseRef) :
    ((e.performThen q f g capability).promise p).resolved = (e.promise p).resolved :=
  read_performThen e q f g capability Promise.resolved (fun _ _ _ => rfl) p

/-- A promise that an effect may not settle stays unresolved. -/
theorem Effect.unresolved (h : Effect R e e') (hR : ¬ R.settle p) (hp : p.index < e.promises.size)
    (hr : (e.promise p).resolved = false) : (e'.promise p).resolved = false := by
  cases h with
  | aside ha =>
    rw [ha.promise]
    exact hr
  | newPromise =>
    rw [promise_newPromise, if_neg]
    · exact hr
    · rintro rfl
      exact hp.ne rfl
  | newFunction hc => exact hr
  | spend hf => exact hr
  | @decide _ q hq hsettle hfate =>
    have hne : p ≠ q := fun heq => hR (heq ▸ hsettle)
    rw [hfate.promise_of_ne hne, promise_lock, if_neg hne]
    exact hr
  | performThen q hf hg hc =>
    rw [resolved_performThen]
    exact hr
  | callback label code => exact hr

theorem asyncGenerators_settleNow (e : Engine H) (p : PromiseRef) (kind : Settling) (v : Value) :
    (e.settleNow p kind v).asyncGenerators = e.asyncGenerators :=
  frame_settleNow Engine.asyncGenerators (fun _ _ _ _ => rfl) e p kind v

theorem asyncGenerators_performThen (e : Engine H) (p : PromiseRef) (f g : Option FunctionRef)
    (capability : Option PromiseRef) :
    (e.performThen p f g capability).asyncGenerators = e.asyncGenerators :=
  frame_performThen e p f g capability Engine.asyncGenerators fun _ _ _ _ => rfl

theorem Fate.asyncGenerators (h : Fate p e e') : e'.asyncGenerators = e.asyncGenerators := by
  cases h with
  | settled kind v => exact asyncGenerators_settleNow e p kind v
  | adopts hc => rfl

/-- Effects touch no request. A new async generator is not busy and has no requests. -/
theorem Effect.asyncGenerator (h : Effect R e e') (a : AsyncGeneratorRef) :
    (e'.asyncGenerator a).queue = (e.asyncGenerator a).queue ∧
      (e'.asyncGenerator a).state.isBusy = (e.asyncGenerator a).state.isBusy := by
  have hsame : e'.asyncGenerators = e.asyncGenerators →
      (e'.asyncGenerator a).queue = (e.asyncGenerator a).queue ∧
        (e'.asyncGenerator a).state.isBusy = (e.asyncGenerator a).state.isBusy := by
    intro heq
    rw [Engine.asyncGenerator, Engine.asyncGenerator, heq]
    exact ⟨rfl, rfl⟩
  cases h with
  | aside ha =>
    cases ha with
    | newAsyncGenerator f =>
      have hget : (e.newAsyncGenerator f).2.asyncGenerator a =
          if a.index = e.asyncGenerators.size then
            { id := e.nextId, inner := ⟨e.generators.size⟩, state := .suspendedStart }
          else e.asyncGenerator a :=
        Store.get_push e.asyncGenerators _ a.index
      rw [hget]
      split
      · next ha =>
        have hnew : e.asyncGenerator a = {} := Store.get_of_size_le ha.ge
        rw [hnew]
        exact ⟨rfl, rfl⟩
      · exact ⟨rfl, rfl⟩
    | _ => exact hsame rfl
  | decide hq hR hfate => exact hsame hfate.asyncGenerators
  | performThen q hf hg hc => exact hsame (asyncGenerators_performThen e q _ _ _)
  | _ => exact hsame rfl

theorem asyncGenerators_engage (e : Engine H) (q : PromiseRef) (c c' : Callable H) :
    (e.engage q c c').asyncGenerators = e.asyncGenerators :=
  asyncGenerators_performThen ((e.newFunction c).2.newFunction c').2 q _ _ none

theorem resolved_engage (e : Engine H) (q : PromiseRef) (c c' : Callable H) (p : PromiseRef) :
    ((e.engage q c c').promise p).resolved = (e.promise p).resolved :=
  resolved_performThen ((e.newFunction c).2.newFunction c').2 q _ _ none p

theorem asyncGenerators_used (e : Engine H) (f : FunctionRef) :
    (e.used f).asyncGenerators = e.asyncGenerators := by
  unfold used
  split <;> rfl

end Engine

/-! ## Quiet changes -/

namespace Ledger.Quiet

variable {l l' : Ledger H}

/-- Changes that leave async generators alone. -/
theorem of_asyncGenerators (hissued : l'.issued = l.issued)
    (hgen : l'.engine.asyncGenerators = l.engine.asyncGenerators)
    (hres : ∀ p, l.Issued p → (l.engine.promise p).resolved = false →
      (l'.engine.promise p).resolved = false)
    (hserving : ∀ a, l'.serving ≠ some a → l.serving ≠ some a)
    (howed : ∀ a r, l'.owed (.serve a r) ≤ l.owed (.serve a r)) : l.Quiet l' where
  issued := hissued
  queue a := by rw [Engine.asyncGenerator, Engine.asyncGenerator, hgen]
  busy a := by rw [Engine.asyncGenerator, Engine.asyncGenerator, hgen]
  serving := hserving
  unresolved := hres
  owed := howed

/-- Changes that leave promises and async generators alone. -/
theorem of_same (hissued : l'.issued = l.issued)
    (hgen : l'.engine.asyncGenerators = l.engine.asyncGenerators)
    (hp : ∀ p, l'.engine.promise p = l.engine.promise p)
    (hserving : ∀ a, l'.serving ≠ some a → l.serving ≠ some a)
    (howed : ∀ a r, l'.owed (.serve a r) ≤ l.owed (.serve a r)) : l.Quiet l' :=
  .of_asyncGenerators hissued hgen (fun p _ hr => by rw [hp]; exact hr) hserving howed

/-- Duties on the stack that are not about requests. -/
theorem of_stack (h : l.Sound) (he : l.engine.Alike l'.engine)
    (hgen : l'.engine.asyncGenerators = l.engine.asyncGenerators) (hj : l'.jobs = l.jobs)
    (hc : l'.called = l.called) (hstack : ∀ p, .adopt p ∉ l'.stack)
    (hcount : ∀ a r, l'.stack.count (.serve a r) ≤ l.stack.count (.serve a r))
    (hissued : l'.issued = l.issued) (hserving : ∀ a, l'.serving ≠ some a → l.serving ≠ some a) :
    l.Quiet l' := by
  obtain ⟨-, ho⟩ := h.restack he hj hc hstack
  refine .of_same hissued hgen (fun p => by rw [Engine.promise, Engine.promise, he.promises])
    hserving fun a r => ?_
  have hd := ho (.serve a r)
  have hle := hcount a r
  omega

/-- Jobs that get lost, or change hands. -/
theorem of_jobs (he : l.engine.Alike l'.engine)
    (hgen : l'.engine.asyncGenerators = l.engine.asyncGenerators)
    (hj : l'.jobs.Subperm l.jobs) (hc : l'.called = l.called) (hs : l'.stack = l.stack)
    (hissued : l'.issued = l.issued) (hserving : l'.serving = l.serving) : l.Quiet l' := by
  refine .of_same hissued hgen (fun p => by rw [Engine.promise, Engine.promise, he.promises])
    (fun a ha => hserving ▸ ha) fun a r => ?_
  have hcount : l.engine.jobCount (.serve a r) l'.jobs ≤ l.engine.jobCount (.serve a r) l.jobs :=
    hj.countP_le _
  rw [owed_rearrange he, hc, hs, Ledger.owed]
  omega

end Ledger.Quiet

end Microtask
