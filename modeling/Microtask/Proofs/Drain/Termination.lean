import Microtask.Proofs.Drain.Budget
import Microtask.Proofs.Drain.Course

/-!
# Drains that end by themselves

A drain without a limit, in which no host code and no frame runs, ends, unless a knot
is adopted on the way (`Engine.HostFree.drain_ends`). Every tick of such a drain lowers
the debt together with what the control stack still has to pay for (`Scale.Within`).

A promise that adopts a knotted promise makes a drain go round for ever
(`Engine.Circling.drains_forever`): the search for a cycle looks at the links of promises
that have adopted another one, and a promise that was fulfilled has none.
-/

namespace Microtask

variable {H : Type}

namespace Config

theorem settle_succ {c : Config H} (h : c.atHost = false) (t : Nat) :
    c.settle (t + 1) = c.tick.settle t := by
  simp [settle, h]

/-- The drain of the activation has come to its end, with an empty queue. -/
def Ended (c : Config H) (h : Activation H) : Prop :=
  (∃ n, c.control = .host h (.answered (.drained (.ok n)))) ∧ c.engine.jobs.isEmpty = true

end Config

theorem Engine.drainRound_unlimited {e : Engine H} {h : Activation H} {id n : Nat} {j : Job H}
    {jobs : JobQueue (Job H)} (hpop : e.jobs.pop? = some ((id, j), jobs)) :
    e.drainRound (.loop none n h) = { e with jobs }.runJob id (.loop none (n + 1) h) j :=
  drainRound_pop (fun L (hL : L ∈ none) => by cases hL) hpop

namespace Scale

variable {S : Scale} {h : Activation H} {e e' : Engine H} {k : Caller H} {m n w : Nat}

/-! ## Control stacks -/

/-- What it costs to return a result to the caller, for which a drain waits in the end. -/
inductive Waits (S : Scale) (h : Activation H) : Caller H → Nat → Prop where
  | reaction (capability : Option PromiseRef) (n : Nat) :
      Waits S h (.reaction capability (.loop none n h)) (S.capabilityCost capability + 1)
  | finalizer {settled : Value} {kind : Settling} {k : Caller H} {w : Nat} :
      Waits S h k w → Waits S h (.finalizer settled kind k) (w + S.passing + 1)

/-- What the machine can do with the given amount. -/
inductive Affords (S : Scale) (h : Activation H) (e : Engine H) : Control H → Nat → Prop where
  | drain (n : Nat) : Affords S h e (.drain (.loop none n h)) 1
  | call {f : FunctionRef} {args : List Value} {k : Caller H} {m w : Nat} :
      e.Pays S.requests S.passing f (S.price (Value.argument args 0)) m → Waits S h k w →
      Affords S h e (.call f args k) (m + w + 2)
  | deliver {result : Except Failure Value} {k : Caller H} {w : Nat} :
      Waits S h k w → Affords S h e (.deliver result k) (w + 1)
  | serve {a : AsyncGeneratorRef} {reply : Value} {k : Caller H} {m w : Nat} :
      (e.asyncGenerator a).state = .completed → (e.asyncGenerator a).queue.length ≤ m →
      Waits S h k w → Affords S h e (.serve a reply k) (m + w + 2)

/-- The debt and what the machine is about to do come to no more than the given amount. -/
structure Within (S : Scale) (h : Activation H) (n : Nat) (c : Config H) : Prop where
  sound : S.Sound c.engine
  paid : ∃ m, S.Affords h c.engine c.control m ∧ S.debt c.engine + m ≤ n

theorem Charges.within {control : Control H} (hc : S.Charges n e e')
    (ha : S.Affords h e' control m) : S.Within h (S.debt e + n + m) ⟨e', control⟩ :=
  ⟨hc.sound, m, ha, Nat.add_le_add_right hc.debt m⟩

theorem Within.atHost {c : Config H} (hc : S.Within h n c) : c.atHost = false := by
  obtain ⟨m, ha, -⟩ := hc.paid
  unfold Config.atHost
  cases hcontrol : c.control with
  | host h' prompt =>
    rw [hcontrol] at ha
    cases ha
  | _ => rfl

/-! ## Async generators -/

/-- A change of an async generator that adds no requests. -/
theorem Sound.modifyAsyncGenerator (he : S.Sound e) {a : AsyncGeneratorRef}
    {change : AsyncGenerator → AsyncGenerator}
    (hq : (change (e.asyncGenerator a)).queue.length ≤ (e.asyncGenerator a).queue.length) :
    S.Sound (e.modifyAsyncGenerator a change) := by
  have hk : e.KeepsCode (e.modifyAsyncGenerator a change) := .of_eq rfl
  refine ⟨he.known, fun j hj => (he.jobs j hj).keepsCode hk,
    fun p kind r hr => (he.reactions p kind r hr).keepsCode hk, he.rank, fun b => ?_⟩
  rw [Engine.asyncGenerator_modify]
  split
  · exact hq.trans (he.requests a)
  · exact he.requests b

/-- An async generator that is done answers its requests without running. -/
theorem within_serve (he : S.Sound e) {a : AsyncGeneratorRef}
    (hs : (e.asyncGenerator a).state = .completed) (hm : (e.asyncGenerator a).queue.length ≤ m)
    (hk : S.Waits h k w) (reply : Value) :
    ∃ n < S.debt e + (m + w + 2), S.Within h n (e.serve a reply k) := by
  cases hq : (e.asyncGenerator a).queue with
  | nil =>
    have ht : e.takeRequest a = (e, .idle) := by simp [Engine.takeRequest, hs, hq]
    rw [Engine.serve, ht]
    exact ⟨_, by omega, (Charges.refl he).within (.deliver hk)⟩
  | cons r rest =>
    let taken := e.modifyAsyncGenerator a fun g => { g with queue := rest }
    have ht : e.takeRequest a = (taken.answerRequest r .undefined true, .answered) := by
      simp [Engine.takeRequest, hs, hq, AsyncGeneratorState.isBusy, taken]
    have hself : taken.asyncGenerator a = { e.asyncGenerator a with queue := rest } := by
      rw [Engine.asyncGenerator_modify, if_pos rfl]
    have htaken : S.Sound taken :=
      he.modifyAsyncGenerator (by simp [hq])
    have hc := charges_answerRequest htaken r .undefined true
    have hsame : (taken.answerRequest r .undefined true).asyncGenerator a =
        taken.asyncGenerator a := by
      rw [Engine.asyncGenerator, hc.asyncGenerators]
      rfl
    rw [hq, List.length_cons] at hm
    have hserve : S.Affords h (taken.answerRequest r .undefined true) (.serve a reply k)
        (rest.length + w + 2) :=
      .serve (by rw [hsame, hself, hs]) (by rw [hsame, hself]) hk
    have hdebt : S.debt taken = S.debt e := rfl
    rw [Engine.serve, ht]
    exact ⟨_, by omega, hc.within hserve⟩

/-- An async generator that is done with its last step goes on to answer the others. -/
theorem within_complete (he : S.Sound e) (a : AsyncGeneratorRef)
    {next : Engine H → Engine H} (hnext : ∀ {e : Engine H}, S.Sound e → S.Charges 0 e (next e))
    (hk : S.Waits h k w) (hm : S.requests + 1 ≤ m) (reply : Value) :
    ∃ n < S.debt e + (m + w + 2),
      S.Within h n ⟨next (e.setAsyncState a .completed), .serve a reply k⟩ := by
  have hself : (e.setAsyncState a .completed).asyncGenerator a =
      { e.asyncGenerator a with state := .completed } := by
    rw [Engine.setAsyncState, Engine.asyncGenerator_modify, if_pos rfl]
  have hset : S.Sound (e.setAsyncState a .completed) := he.modifyAsyncGenerator le_rfl
  have hc := hnext hset
  have hsame : (next (e.setAsyncState a .completed)).asyncGenerator a =
      (e.setAsyncState a .completed).asyncGenerator a := by
    rw [Engine.asyncGenerator, hc.asyncGenerators]
    rfl
  have hserve : S.Affords h (next (e.setAsyncState a .completed)) (.serve a reply k)
      (S.requests + w + 2) :=
    .serve (by rw [hsame, hself]) (by rw [hsame, hself]; exact he.requests a) hk
  have hdebt : S.debt (e.setAsyncState a .completed) = S.debt e := rfl
  exact ⟨_, by omega, hc.within hserve⟩

/-! ## Ticks -/

/-- Running a piece of code that is paid for. -/
theorem within_runCode (he : S.Sound e) {f : FunctionRef} (args : List Value)
    (hp : e.Pays S.requests S.passing f (S.price (Value.argument args 0)) m)
    (hk : S.Waits h k w) :
    ∃ n < S.debt e + (m + w + 2), S.Within h n (e.runCode args k (e.callable f).code) := by
  cases hp with
  | leaf hf hleaf hfee =>
    cases hcode : (e.callable f).code with
    | resolve p =>
      rw [hcode] at hfee
      have hfee : S.price (Value.argument args 0) ≤ m := hfee
      exact ⟨_, by omega, (charges_resolve he p _).within (.deliver hk)⟩
    | reject p => exact ⟨_, by omega, (charges_reject he p _).within (.deliver hk)⟩
    | adopt p kind =>
      cases kind with
      | fulfill =>
        rw [hcode] at hfee
        have hfee : S.price (Value.argument args 0) ≤ m := hfee
        exact ⟨_, by omega, (charges_resolveNow he p _).within (.deliver hk)⟩
      | reject => exact ⟨_, by omega, (charges_rejectNow he p _).within (.deliver hk)⟩
    | report t i kind => exact ⟨_, by omega, (charges_report he t i kind _).within (.deliver hk)⟩
    | constant v kind =>
      cases kind <;> exact ⟨_, by omega, (Charges.refl he).within (.deliver hk)⟩
    | wake waiter kind =>
      rw [hcode] at hleaf hfee
      cases waiter with
      | returning a r =>
        have hfee : S.requests + 1 ≤ m := hfee
        cases kind with
        | fulfill =>
          exact within_complete he a (fun h => charges_answerRequest h r _ true) hk hfee _
        | reject => exact within_complete he a (fun h => charges_reject h r.capability _) hk hfee _
      | _ => cases hleaf
    | _ =>
      rw [hcode] at hleaf
      cases hleaf
  | @afterwards f g kind x m' n hf hcode hg hm =>
    rw [hcode]
    exact ⟨_, by omega, (Charges.refl he).within (.call hg (.finalizer hk))⟩

theorem within_callFunction (he : S.Sound e) {f : FunctionRef} {args : List Value}
    (hp : e.Pays S.requests S.passing f (S.price (Value.argument args 0)) m)
    (hk : S.Waits h k w) :
    ∃ n < S.debt e + (m + w + 2), S.Within h n (e.callFunction f args k) := by
  dsimp only [Engine.callFunction]
  split
  · exact within_runCode he args hp hk
  · have hc := charges_spend he f
    have hcode : ((e.spend f).callable f).code = (e.callable f).code := by
      rw [Engine.callable_spend, if_pos rfl]
    obtain ⟨n, hn, hw⟩ := within_runCode hc.sound
      [Value.argument args 0] (hp.keepsCode hc.code) hk
    rw [hcode] at hw
    exact ⟨n, by have := hc.debt; omega, hw⟩
  · exact ⟨_, by omega, (Charges.refl he).within (.deliver hk)⟩

theorem within_deliver (he : S.Sound e) (result : Except Failure Value) (hk : S.Waits h k w) :
    ∃ n < S.debt e + (w + 1), S.Within h n (e.deliver result k) := by
  cases hk with
  | reaction capability n =>
    exact ⟨_, by omega, (charges_settleCapability he capability result).within (.drain n)⟩
  | @finalizer settled kind k w hk =>
    cases result with
    | ok returned =>
      exact ⟨_, by omega, (charges_passAfter he returned settled kind).within (.deliver hk)⟩
    | error failure => exact ⟨_, by omega, (Charges.refl he).within (.deliver hk)⟩

/-- A job that is taken off the queue brings what it costs. -/
theorem Sound.pop (he : S.Sound e) {id : Nat} {j : Job H} {jobs : JobQueue (Job H)}
    (hpop : e.jobs.pop? = some ((id, j), jobs)) :
    S.Sound { e with jobs } ∧ S.FitsJob { e with jobs } j ∧
      S.debt e = S.debt { e with jobs } + S.cost j := by
  have hk : e.KeepsCode { e with jobs } := .of_eq rfl
  have hw := Engine.waitingJobs_pop hpop
  refine ⟨⟨he.known, fun j' hj' => ?_, fun p kind r hr => (he.reactions p kind r hr).keepsCode hk,
    he.rank, he.requests⟩, ?_, ?_⟩
  · exact (he.jobs j' (hw ▸ List.mem_cons_of_mem j hj')).keepsCode hk
  · exact (he.jobs j (hw ▸ List.mem_cons_self)).keepsCode hk
  · simp only [debt, hw, List.map_cons, List.sum_cons]
    omega

/-- A job pays for itself, unless it is the adoption of a knot. -/
theorem within_runJob (he : S.Sound e) {j : Job H} (hj : S.FitsJob e j)
    (hknot : ∀ p q, j = .adoption p q → ¬ S.knotted q) (id n : Nat) :
    ∃ m < S.debt e + S.cost j + 1, S.Within h m (e.runJob id (.loop none n h) j) := by
  cases j with
  | adoption p q =>
    have hpos : 0 < S.price (.promise q) := by simp [price]
    refine ⟨_, ?_, (charges_attachAdoption he (hknot p q rfl)).within (.drain n)⟩
    simp only [cost]
    omega
  | callback label code => exact hj.elim
  | reaction r v =>
    obtain ⟨kind, handler, capability⟩ := r
    cases handler with
    | some f =>
      have hcall := hj f rfl (S.price v) (S.price_le v)
      refine ⟨_, ?_, (Charges.refl he).within (.call hcall (.reaction capability n))⟩
      simp only [cost, reactionCost_some]
      omega
    | none =>
      cases capability with
      | none =>
        refine ⟨_, ?_, (Charges.refl he).within (.drain n)⟩
        simp only [cost, reactionCost_none]
        omega
      | some p =>
        have hle := S.price_le v
        refine ⟨_, ?_, (charges_settle he p kind v).within (.drain n)⟩
        simp only [cost, reactionCost_none, capabilityCost_some]
        omega

/-- Every tick of the drain lowers what is left to pay for. -/
theorem Within.tick {c : Config H} (hc : S.Within h n c) :
    c.tick.Ended h ∨ (∃ p q, .adoption p q ∈ c.engine.waitingJobs ∧ S.knotted q) ∨
      ∃ m < n, S.Within h m c.tick := by
  obtain ⟨e, control⟩ := c
  obtain ⟨he, m, ha, hm⟩ := hc
  have hlt : ∀ {c : Config H}, (∃ n' < S.debt e + m, S.Within h n' c) → ∃ n' < n, S.Within h n' c :=
    fun ⟨n', hn', hw⟩ => ⟨n', hn'.trans_le hm, hw⟩
  cases ha with
  | call hp hk => exact .inr (.inr (hlt (within_callFunction he hp hk)))
  | deliver hk => exact .inr (.inr (hlt (within_deliver he _ hk)))
  | serve hs hq hk => exact .inr (.inr (hlt (within_serve he hs hq hk _)))
  | drain i =>
    cases hpop : e.jobs.pop? with
    | none =>
      have hempty := JobQueue.pop?_eq_none.1 hpop
      refine .inl ?_
      show (e.drainRound (.loop none i h)).Ended h
      rw [Engine.drainRound_empty hempty]
      exact ⟨⟨i, rfl⟩, hempty⟩
    | some first =>
      obtain ⟨⟨id, j⟩, jobs⟩ := first
      obtain ⟨he', hj, hdebt⟩ := he.pop hpop
      by_cases hknot : ∃ p q, j = .adoption p q ∧ S.knotted q
      · obtain ⟨p, q, rfl, hq⟩ := hknot
        exact .inr (.inl ⟨p, q, Engine.waitingJobs_pop hpop ▸ List.mem_cons_self, hq⟩)
      · refine .inr (.inr (hlt ?_))
        show ∃ n' < _, S.Within h n' (e.drainRound (.loop none i h))
        rw [Engine.drainRound_unlimited hpop, hdebt]
        exact within_runJob he' hj (fun p q hpq hq => hknot ⟨p, q, hpq, hq⟩) id (i + 1)

/-- The drain ends, or comes to the adoption of a knot. -/
theorem Within.ends {c : Config H} (hc : S.Within h n c) :
    (∃ t, (c.settle t).Ended h) ∨
      ∃ t p q, .adoption p q ∈ (c.settle t).engine.waitingJobs ∧ S.knotted q := by
  induction n using Nat.strongRecOn generalizing c with
  | ind n ih =>
    have hnext := Config.settle_succ hc.atHost
    obtain hended | ⟨p, q, hjob, hq⟩ | ⟨m, hm, hc'⟩ := hc.tick
    · exact .inl ⟨1, by rw [hnext]; exact hended⟩
    · exact .inr ⟨0, p, q, hjob, hq⟩
    · obtain ⟨t, ht⟩ | ⟨t, p, q, hjob, hq⟩ := ih m hm hc'
      · exact .inl ⟨t + 1, by rw [hnext]; exact ht⟩
      · exact .inr ⟨t + 1, p, q, by rw [hnext]; exact hjob, hq⟩

end Scale

/-! ## Drains without host code -/

namespace Engine

variable {e : Engine H} {p q : PromiseRef}

/-- There are costs for whatever an engine is about to do without the host. -/
theorem HostFree.exists_scale (he : e.HostFree) :
    ∃ S : Scale, S.Sound e ∧ S.knotted = e.Knotted := by
  obtain ⟨rank, top, hle, hlt⟩ := e.exists_rank
  let requests := e.asyncGenerators.total (·.queue.length)
  let base : Scale :=
    { knotted := e.Knotted, rank, top, rank_le := hle, known := e.callables.size, load := 0,
      requests }
  -- one load for all functions that there are
  obtain ⟨load, hload⟩ := exists_uniform
    (P := fun i n => e.Internal ⟨i⟩ → ∀ x ≤ base.dear, e.Pays requests base.passing ⟨i⟩ x n)
    (fun i _ _ hmn h hi x hx => (h hi x hx).mono hmn)
    (fun i => by
      by_cases hi : e.Internal ⟨i⟩
      · obtain ⟨n, hn⟩ := hi.pays requests base.passing base.dear
        exact ⟨n, fun _ => hn⟩
      · exact ⟨0, fun h => absurd h hi⟩) e.callables.size
  let S : Scale := { base with load }
  have hfits : ∀ r : Reaction, (∀ f ∈ r.handler, e.Internal f) → S.Fits e r := by
    intro r hr f hf x hx
    have hi := hr f hf
    have hsize : f.index < e.callables.size := by cases hi <;> assumption
    have hpays : e.Pays requests base.passing f x load := hload f.index hsize hi x hx
    refine hpays.mono ?_
    have hknown : S.loadOf f = load := if_pos hsize
    omega
  refine ⟨S, ⟨le_rfl, fun j hj => ?_, fun p kind r hr => hfits r (he.reactions p kind r hr),
    hlt, fun a => ?_⟩, rfl⟩
  · have hi := he.jobs j hj
    cases j with
    | reaction r v => exact hfits r hi
    | adoption p q => trivial
    | callback label code => exact hi.elim
  · exact Store.le_total (s := e.asyncGenerators) (f := (·.queue.length)) rfl a.index

/-- A drain without a limit, in which no host code and no frame is to run, ends after
finitely many ticks with an empty queue and returns the number of its jobs, unless it
comes to the adoption of a promise that was, perhaps over others, fulfilled with itself. -/
theorem HostFree.drain_ends (he : e.HostFree) (hd : e.draining = false) (hl : e.limit = none)
    (h : Activation H) :
    (∃ t, ((e.runJobs h).settle t).Ended h) ∨
      ∃ t p q, .adoption p q ∈ ((e.runJobs h).settle t).engine.waitingJobs ∧ e.Knotted q := by
  obtain ⟨S, hS, hknot⟩ := he.exists_scale
  have hbegun : e.runJobs h = ⟨{ e with draining := true }, .drain (.loop none 0 h)⟩ := by
    simp [runJobs, hd, hl]
  have hfree : S.Charges 0 e { e with draining := true } := .of_eq hS rfl rfl rfl rfl
  have hwithin : S.Within h (S.debt e + 0 + 1) (e.runJobs h) := by
    rw [hbegun]
    exact hfree.within (.drain 0)
  rw [← hknot]
  exact hwithin.ends

/-- A promise fulfilled with undefined, one fulfilled with the first, and one resolved
with the second: its adoption is a chain of two. -/
def chained : Engine Unit :=
  let e := ({} : Engine Unit).newPromise.2.fulfill ⟨0⟩ .undefined
  let e := e.newPromise.2.fulfill ⟨1⟩ (.promise ⟨0⟩)
  e.newPromise.2.resolve ⟨2⟩ (.promise ⟨1⟩)

/-- Reactions have to be looked for at the promises that exist only. -/
theorem HostFree.of_lt_size (hjobs : ∀ j ∈ e.waitingJobs, e.InternalJob j)
    (hreactions : ∀ i < e.promises.size, ∀ kind, ∀ r ∈ (e.promise ⟨i⟩).reactions kind,
      ∀ f ∈ r.handler, e.Internal f) : e.HostFree := by
  refine ⟨hjobs, fun p kind r hr => ?_⟩
  by_cases hp : p.index < e.promises.size
  · exact hreactions p.index hp kind r hr
  · rw [promise_of_size_le (Nat.le_of_not_lt hp)] at hr
    cases kind <;> cases hr

theorem HostFree.drain_ends_chained : ∃ t, ((chained.runJobs .main).settle t).Ended .main := by
  have hjobs : chained.waitingJobs = [.adoption ⟨2⟩ ⟨1⟩] := rfl
  have hnone : ∀ i < chained.promises.size, ∀ kind, (chained.promise ⟨i⟩).reactions kind = [] := by
    intro i hi kind
    match i, hi with
    | 0, _ | 1, _ | 2, _ => cases kind <;> rfl
  have hfree : chained.HostFree := by
    refine .of_lt_size (fun j hj => ?_) fun i hi kind r hr => ?_
    · rw [hjobs] at hj
      obtain rfl := List.mem_singleton.1 hj
      trivial
    · rw [hnone i hi kind] at hr
      cases hr
  have hwraps : ∀ p q, chained.Wraps p q → q = ⟨0⟩ := by
    intro p q hpq
    obtain ⟨i⟩ := p
    match i, hpq.lt_size with
    | 0, _ => cases hpq
    | 1, _ => exact (Wraps.unique hpq (rfl : chained.Wraps ⟨1⟩ ⟨0⟩))
    | 2, _ => cases hpq
  refine (hfree.drain_ends rfl rfl .main).resolve_right ?_
  rintro ⟨-, -, q, -, hq⟩
  obtain ⟨q₁, h₁, hq₁⟩ := hq.wraps
  obtain ⟨q₂, h₂, -⟩ := hq₁.wraps
  rw [hwraps q q₁ h₁] at h₂
  cases h₂

/-! ## Drains that go round -/

/-- All that waits is the adoption of a knotted promise by a pending one. Promises that
are fulfilled follow no other. -/
structure Circling (e : Engine H) (p q : PromiseRef) : Prop where
  pending : (e.promise p).state = .pending
  knotted : e.Knotted q
  unlinked : ∀ x y, e.Wraps x y → (e.promise x).following = none
  waiting : e.waitingJobs = [.adoption p q]

theorem exists_pop {j : Job H} {js : List (Job H)} (h : e.waitingJobs = j :: js) :
    ∃ id jobs, e.jobs.pop? = some ((id, j), jobs) ∧ { e with jobs }.waitingJobs = js := by
  cases hpop : e.jobs.pop? with
  | none =>
    have hempty : e.jobs.waiting = [] := List.isEmpty_iff.1 (JobQueue.pop?_eq_none.1 hpop)
    rw [waitingJobs, hempty] at h
    cases h
  | some first =>
    obtain ⟨⟨id, j'⟩, jobs⟩ := first
    obtain ⟨rfl, hjs⟩ := List.cons.inj ((waitingJobs_pop hpop).symm.trans h)
    exact ⟨id, jobs, rfl, hjs⟩

/-- A promise that follows no other closes no cycle, unless it is the target itself. -/
theorem closesCycle_of_unlinked (hne : p ≠ q) (hq : (e.promise q).following = none) :
    e.closesCycle p q = false := by
  have hchain : e.chain q = [q] := by
    unfold chain
    cases e.promises.size with
    | zero => rfl
    | succ n => simp [chainWithin, hq]
  simp [closesCycle, hchain, hne]

/-- Attaching to a promise that is fulfilled with a promise queues its value at once. -/
theorem attachAdoption_wraps {q' : PromiseRef} (hq : e.Wraps q q') (p : PromiseRef) :
    ∃ f, (e.attachAdoption p q).waitingJobs =
        e.waitingJobs ++ [.reaction ⟨.fulfill, some f, none⟩ (.promise q')] ∧
      (e.attachAdoption p q).callable f = ⟨"resolve", .once, .adopt p .fulfill⟩ ∧
      ∀ x, ((e.attachAdoption p q).promise x).state = (e.promise x).state ∧
        ((e.attachAdoption p q).promise x).following = (e.promise x).following := by
  let c : Callable H := ⟨"resolve", .once, .adopt p .fulfill⟩
  let d : Callable H := ⟨"reject", .once, .adopt p .reject⟩
  let e₂ := ((e.newFunction c).2.newFunction d).2
  have he : e.attachAdoption p q = e₂.performThen q (some (e.newFunction c).1)
      (some ((e.newFunction c).2.newFunction d).1) none := rfl
  refine ⟨(e.newFunction c).1, ?_, ?_, fun x => ⟨?_, ?_⟩⟩
  · have hstate : (e₂.promise q).state = .fulfilled (.promise q') := hq
    rw [he, waitingJobs_performThen]
    simp only [Promise.attachJobs, hstate]
    rfl
  · rw [he, callable, callables_performThen]
    show e₂.callable _ = c
    rw [callable_newFunction, if_neg]
    · rw [callable_newFunction]
      exact if_pos rfl
    · intro hf
      have hsize := congrArg FunctionRef.index hf
      simp [newFunction] at hsize
  · rw [he]
    exact read_performThen e₂ q _ _ _ (·.state) (fun _ _ _ => rfl) x
  · rw [he]
    exact read_performThen e₂ q _ _ _ (·.following) (fun _ _ _ => rfl) x

/-- After two jobs the next adoption waits, of the value of the promise before. -/
theorem Circling.round (hc : e.Circling p q) (h : Activation H) (n : Nat) :
    ∃ e₁ e₂ e₃ f q', e₃.Circling p q' ∧
      Config.tick ⟨e, .drain (.loop none n h)⟩ = ⟨e₁, .drain (.loop none (n + 1) h)⟩ ∧
      Config.tick ⟨e₁, .drain (.loop none (n + 1) h)⟩ =
        ⟨e₂, .call f [.promise q'] (.reaction none (.loop none (n + 2) h))⟩ ∧
      Config.tick ⟨e₂, .call f [.promise q'] (.reaction none (.loop none (n + 2) h))⟩ =
        ⟨e₃, .deliver (.ok .undefined) (.reaction none (.loop none (n + 2) h))⟩ ∧
      Config.tick ⟨e₃, .deliver (.ok .undefined) (.reaction none (.loop none (n + 2) h))⟩ =
        ⟨e₃, .drain (.loop none (n + 2) h)⟩ := by
  obtain ⟨q', hwraps, hknotted⟩ := hc.knotted.wraps
  obtain ⟨id, jobs, hpop, hrest⟩ := exists_pop hc.waiting
  obtain ⟨f, hwaiting, hcallable, hsame⟩ :=
    attachAdoption_wraps (e := { e with jobs }) hwraps p
  rw [hrest] at hwaiting
  obtain ⟨id', jobs', hpop', hrest'⟩ := exists_pop hwaiting
  let e₁ := { e with jobs }.attachAdoption p q
  let e₂ := { e₁ with jobs := jobs' }
  let e₃ := (e₂.spend f).link p q'
  have hstate : ∀ x, ((e₂.spend f).promise x).state = (e.promise x).state := fun x => (hsame x).1
  have hfollowing : ∀ x, ((e₂.spend f).promise x).following = (e.promise x).following :=
    fun x => (hsame x).2
  obtain ⟨q'', hwraps', -⟩ := hknotted.wraps
  have hne : p ≠ q' := by
    rintro rfl
    rw [Wraps, hc.pending] at hwraps'
    cases hwraps'
  have hopen : (e₂.spend f).closesCycle p q' = false :=
    closesCycle_of_unlinked hne ((hfollowing q').trans (hc.unlinked q' q'' hwraps'))
  have hlink : ∀ x, (e₃.promise x).state = (e.promise x).state := fun x =>
    (read_link (·.state) (fun _ _ => rfl) (e₂.spend f) p q' x).trans (hstate x)
  have hwrapsIff : e₃.Wraps = e.Wraps := by
    funext x y
    rw [Wraps, Wraps, hlink]
  refine ⟨e₁, e₂, e₃, f, q', ⟨(hlink p).trans hc.pending, ?_, fun x y hxy => ?_, ?_⟩,
    ?_, ?_, ?_, rfl⟩
  · rw [Knotted, hwrapsIff]
    exact hknotted
  · rw [hwrapsIff] at hxy
    rw [promise_link, if_neg]
    · exact (hfollowing x).trans (hc.unlinked x y hxy)
    · rintro rfl
      rw [Wraps, hc.pending] at hxy
      cases hxy
  · rw [waitingJobs_link]
    exact congrArg (· ++ [.adoption p q']) hrest'
  · exact drainRound_unlimited hpop
  · exact drainRound_unlimited hpop'
  · have hcode : e₂.callable f = ⟨"resolve", .once, .adopt p .fulfill⟩ := hcallable
    show e₂.callFunction f [.promise q'] _ = _
    simp only [callFunction, hcode, runCode, resolveNow, Value.argument, List.getD_cons_zero, hopen]
    rfl

/-- A promise that has adopted a knotted one keeps a drain going for ever. -/
theorem Circling.drains_forever (hc : e.Circling p q) (h : Activation H) (n t : Nat) :
    (Config.settle t ⟨e, .drain (.loop none n h)⟩).atHost = false := by
  induction t using Nat.strongRecOn generalizing e q n with
  | ind t ih =>
    obtain ⟨e₁, e₂, e₃, f, q', hc', h₁, h₂, h₃, h₄⟩ := hc.round h n
    match t with
    | 0 => rfl
    | 1 => rw [Config.settle_succ rfl, h₁]; rfl
    | 2 => rw [Config.settle_succ rfl, h₁, Config.settle_succ rfl, h₂]; rfl
    | 3 =>
      rw [Config.settle_succ rfl, h₁, Config.settle_succ rfl, h₂, Config.settle_succ rfl, h₃]
      rfl
    | t + 4 =>
      rw [Config.settle_succ rfl, h₁, Config.settle_succ rfl, h₂, Config.settle_succ rfl, h₃,
        Config.settle_succ rfl, h₄]
      exact ih t (by omega) hc' (n + 2)

/-- A promise fulfilled with itself, and one resolved with it. -/
def tied : Engine Unit :=
  let e := ({} : Engine Unit).newPromise.2.fulfill ⟨0⟩ (.promise ⟨0⟩)
  e.newPromise.2.resolve ⟨1⟩ (.promise ⟨0⟩)

theorem circling_tied : tied.Circling ⟨1⟩ ⟨0⟩ := by
  have hwraps : tied.Wraps ⟨0⟩ ⟨0⟩ := rfl
  refine ⟨rfl, ⟨⟨0⟩, .refl, .single hwraps⟩, fun x y hxy => ?_, rfl⟩
  obtain ⟨i⟩ := x
  match i, hxy.lt_size with
  | 0, _ => rfl
  | 1, _ => cases hxy

end Engine

/-- **A knot keeps a drain going.** The host fulfills a promise with itself and resolves
another one with it. Nothing that waits calls the host, and yet the drain does not end. -/
theorem Run.drains_forever :
    ∃ (es : List (Event Unit)) (e : Engine Unit) (prompt : Prompt Unit),
      Run es ⟨⟨e, .host .main prompt⟩, []⟩ ∧ e.HostFree ∧ e.draining = false ∧ e.limit = none ∧
      ∀ t, ((e.runJobs .main).settle t).atHost = false := by
  have hrun : ∃ es, Run es ⟨⟨Engine.tied, .host .main (.answered .done)⟩, []⟩ :=
    ⟨_, .step (.step (.step (.step .refl
      (.perform_free .newPromise rfl rfl))
      (.perform_free (.fulfill ⟨0⟩ (.promise ⟨0⟩)) rfl rfl))
      (.perform_free .newPromise rfl rfl))
      (.perform_free (.resolve ⟨1⟩ (.promise ⟨0⟩)) rfl rfl)⟩
  obtain ⟨es, hrun⟩ := hrun
  refine ⟨es, _, _, hrun, .of_lt_size (fun j hj => ?_) fun i hi kind r hr => ?_, rfl, rfl,
    fun t => ?_⟩
  · rw [Engine.circling_tied.waiting] at hj
    obtain rfl := List.mem_singleton.1 hj
    trivial
  · match i, hi with
    | 0, _ | 1, _ => cases kind <;> cases hr
  · obtain ⟨hp, hq, hlinks, hw⟩ := Engine.circling_tied
    have hc : Engine.Circling { Engine.tied with draining := true } ⟨1⟩ ⟨0⟩ := ⟨hp, hq, hlinks, hw⟩
    exact hc.drains_forever .main 0 t

end Microtask
