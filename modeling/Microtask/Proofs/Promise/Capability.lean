import Microtask.Proofs.Promise.Reserved

/-!
# Capabilities

A promise that `then` answers with is the capability of a pair of reactions. Nothing else can
settle it, unless the host asks for means to. So it matters in how many places it is the
capability (`Ledger.carriers`): a pair of reactions that waits in a promise is one place, the job
of a reaction is one, and a handler that is running is one. No act makes more of them than it is
allowed to (`Act.carriers`), and as long as there is one place only, the promise stays open until
a step redeems it (`Step.derived`).

Main statement: `Step.derived`.
-/

namespace Microtask

variable {H : Type}

/-! ## Places -/

/-- The number of reactions in a list that have the capability. -/
def capabilityCount (c : PromiseRef) (rs : List Reaction) : Nat :=
  rs.countP (·.capability = some c)

/-- The number of jobs in a list that have the capability. -/
def jobCapabilityCount (c : PromiseRef) (js : List (Job H)) : Nat :=
  js.countP (·.capability? = some c)

theorem capabilityCount_append (c : PromiseRef) (rs ss : List Reaction) :
    capabilityCount c (rs ++ ss) = capabilityCount c rs + capabilityCount c ss :=
  List.countP_append

theorem jobCapabilityCount_append (c : PromiseRef) (js ks : List (Job H)) :
    jobCapabilityCount c (js ++ ks) = jobCapabilityCount c js + jobCapabilityCount c ks :=
  List.countP_append

/-- Reactions go on as jobs. -/
theorem jobCapabilityCount_reactions (c : PromiseRef) (rs : List Reaction) (v : Value) :
    jobCapabilityCount (H := H) c (rs.map (.reaction · v)) = capabilityCount c rs := by
  rw [jobCapabilityCount, List.countP_map]
  rfl

/-- The duty to settle the capability of a job. -/
theorem Job.count_result (j : Job H) (c : PromiseRef) :
    j.results.count (.result c) = jobCapabilityCount c [j] := by
  cases j with
  | reaction r v =>
    obtain ⟨kind, handler, capability⟩ := r
    cases capability with
    | none => rfl
    | some q =>
      simp [Job.results, jobCapabilityCount, Job.capability?, List.count_singleton,
        List.countP_singleton]
  | _ => rfl

namespace Engine

variable {e e' : Engine H} {c : PromiseRef}

/-- The number of pairs of reactions that have the capability. -/
def carriers (e : Engine H) (c : PromiseRef) : Nat :=
  e.promises.total fun r => capabilityCount c r.onFulfilled

/-- The reactions of one promise change at most. -/
theorem carriers_change (q : PromiseRef)
    (h : ∀ p, p ≠ q → (e'.promise p).onFulfilled = (e.promise p).onFulfilled) :
    e'.carriers c + capabilityCount c (e.promise q).onFulfilled =
      e.carriers c + capabilityCount c (e'.promise q).onFulfilled := by
  let f (r : Promise) : Nat := capabilityCount c r.onFulfilled
  have hzero : f default = 0 := rfl
  refine Store.total_change hzero hzero q.index fun i hi => ?_
  have hne : (⟨i⟩ : PromiseRef) ≠ q := fun heq => hi (by rw [← heq])
  exact congrArg (capabilityCount c) (h ⟨i⟩ hne)

theorem carriers_eq (h : ∀ p, (e'.promise p).onFulfilled = (e.promise p).onFulfilled) :
    e'.carriers c = e.carriers c := by
  have hchange := carriers_change (c := c) ⟨0⟩ fun p _ => h p
  rw [h] at hchange
  omega

/-- Both lists of every promise have the capability equally often. -/
def Even (e : Engine H) (c : PromiseRef) : Prop :=
  ∀ p kind, capabilityCount c ((e.promise p).reactions kind) =
    capabilityCount c (e.promise p).onFulfilled

theorem Even.of_eq (h : e.Even c)
    (hp : ∀ p kind, (e'.promise p).reactions kind = (e.promise p).reactions kind) : e'.Even c := by
  intro p kind
  have hf : (e'.promise p).onFulfilled = (e.promise p).onFulfilled := hp p .fulfill
  rw [hp, hf]
  exact h p kind

/-- Reactions that were attached together have the same capability. -/
theorem Paired.even (h : e.Paired) (c : PromiseRef) : e.Even c := by
  have hpairs : ∀ {rs ss : List Reaction}, List.Forall₂ e.Pair rs ss →
      capabilityCount c ss = capabilityCount c rs := by
    intro rs ss hrs
    induction hrs with
    | nil => rfl
    | cons hp _ ih =>
      simp only [capabilityCount, List.countP_cons] at ih ⊢
      rw [ih, hp.capability]
  intro p kind
  cases kind with
  | fulfill => rfl
  | reject => exact hpairs (h p)

end Engine

namespace Ledger

variable {l l' : Ledger H} {c : PromiseRef} {e' : Engine H}

/-- The number of places in which the promise is a capability. -/
def carriers (l : Ledger H) (c : PromiseRef) : Nat :=
  l.engine.carriers c + jobCapabilityCount c l.jobs + l.stack.count (.result c)

/-- The jobs after the engine has enqueued some. -/
theorem jobCapabilityCount_append {js : List (Job H)}
    (hj : e'.waitingJobs = l.engine.waitingJobs ++ js) :
    jobCapabilityCount c ({ l with engine := e' } : Ledger H).jobs =
      jobCapabilityCount c l.jobs + jobCapabilityCount c js := by
  simp only [jobs, hj, Microtask.jobCapabilityCount_append]
  omega

/-- A change that leaves all reactions alone and appends jobs without the capability. -/
theorem carriers_keep {js : List (Job H)} (hj : e'.waitingJobs = l.engine.waitingJobs ++ js)
    (hjs : jobCapabilityCount c js = 0)
    (hp : ∀ q, (e'.promise q).onFulfilled = (l.engine.promise q).onFulfilled) :
    ({ l with engine := e' } : Ledger H).carriers c = l.carriers c := by
  simp only [carriers, Engine.carriers_eq hp, jobCapabilityCount_append hj, hjs]
  omega

theorem carriers_still (hj : e'.waitingJobs = l.engine.waitingJobs)
    (hp : ∀ q, (e'.promise q).onFulfilled = (l.engine.promise q).onFulfilled) :
    ({ l with engine := e' } : Ledger H).carriers c = l.carriers c :=
  carriers_keep (hj.trans (List.append_nil _).symm) rfl hp

theorem carriers_lock (q : PromiseRef) :
    ({ l with engine := l.engine.lock q } : Ledger H).carriers c = l.carriers c :=
  carriers_still rfl
    (Engine.reactions_lock l.engine q · .fulfill)

theorem carriers_newPromise :
    ({ l with engine := l.engine.newPromise.2 } : Ledger H).carriers c = l.carriers c :=
  carriers_still rfl
    (Engine.reactions_newPromise l.engine · .fulfill)

/-- A promise that settles hands its reactions on to the jobs. -/
theorem carriers_fate (hl : l.engine.Even c) {q : PromiseRef} (h : l.engine.Fate q e') :
    ({ l with engine := e' } : Ledger H).carriers c = l.carriers c := by
  cases h with
  | settled kind v =>
    by_cases hs : (l.engine.promise q).state = .pending
    · have hother : ∀ p, p ≠ q → ((l.engine.settleNow q kind v).promise p).onFulfilled =
          (l.engine.promise p).onFulfilled := by
        intro p hp
        rw [Engine.promise_settleNow hs, if_neg hp]
      have hchange := Engine.carriers_change (c := c) q hother
      have hnone : ((l.engine.settleNow q kind v).promise q).onFulfilled = [] := by
        rw [Engine.promise_settleNow hs, if_pos rfl]
        rfl
      have hjobs := jobCapabilityCount_append (c := c) (l := l)
        (Engine.waitingJobs_settleNow hs kind v)
      rw [jobCapabilityCount_reactions, hl q kind] at hjobs
      rw [hnone] at hchange
      simp only [carriers, hjobs]
      simp only [capabilityCount, List.countP_nil] at hchange ⊢
      omega
    · rw [Engine.settleNow_of_settled hs]
  | adopts hq =>
    exact carriers_keep (Engine.waitingJobs_link l.engine q _) rfl
      (Engine.reactions_link l.engine q _ · .fulfill)

/-- Attaching makes one place for the capability. -/
theorem carriers_performThen (q : PromiseRef) (f g : Option FunctionRef)
    (capability : Option PromiseRef) :
    ({ l with engine := l.engine.performThen q f g capability } : Ledger H).carriers c =
      l.carriers c + if capability = some c then 1 else 0 := by
  have hone : ∀ {kind handler}, capabilityCount c [⟨kind, handler, capability⟩] =
      if capability = some c then 1 else 0 := by
    intro kind handler
    simp [capabilityCount, List.countP_singleton]
  have hother : ∀ p, p ≠ q → ((l.engine.performThen q f g capability).promise p).onFulfilled =
      (l.engine.promise p).onFulfilled := by
    intro p hp
    rw [Engine.promise_performThen, if_neg hp]
  have hchange := Engine.carriers_change (c := c) q hother
  have hjobs := jobCapabilityCount_append (c := c) (l := l)
    (Engine.waitingJobs_performThen l.engine q f g capability)
  have hself := Engine.promise_performThen l.engine q f g capability q
  rw [if_pos rfl] at hself
  rw [hself] at hchange
  simp only [carriers, hjobs]
  -- the reaction goes to the promise, or its job goes to the queue
  cases hs : (l.engine.promise q).state with
  | pending =>
    have hreactions : ((l.engine.promise q).attach f g capability).onFulfilled =
        (l.engine.promise q).onFulfilled ++ [⟨.fulfill, f, capability⟩] := by
      rw [Promise.attach]
      simp only [hs]
    rw [hreactions, capabilityCount_append, hone] at hchange
    simp only [Promise.attachJobs, hs, jobCapabilityCount, List.countP_nil]
    omega
  | fulfilled v | rejected v =>
    have hreactions : ((l.engine.promise q).attach f g capability).onFulfilled =
        (l.engine.promise q).onFulfilled := by
      rw [Promise.attach]
      simp only [hs]
    rw [hreactions] at hchange
    simp only [Promise.attachJobs, hs]
    have hjob := jobCapabilityCount_reactions (H := H) c
      [⟨.fulfill, f, capability⟩] v
    have hjob' := jobCapabilityCount_reactions (H := H) c
      [⟨.reject, g, capability⟩] v
    rw [hone] at hjob hjob'
    simp only [List.map_cons, List.map_nil] at hjob hjob'
    omega

theorem carriers_engage (q : PromiseRef) (d d' : Callable H) :
    ({ l with engine := l.engine.engage q d d' } : Ledger H).carriers c = l.carriers c := by
  have hthen := carriers_performThen (c := c)
    (l := { l with engine := ((l.engine.newFunction d).2.newFunction d').2 }) q
    (some (l.engine.newFunction d).1) (some ((l.engine.newFunction d).2.newFunction d').1) none
  exact hthen

/-- Deciding the fate of a promise makes no place. -/
theorem carriers_settle (hl : l.engine.Even c) (q : PromiseRef) (kind : Settling) (v : Value) :
    ({ l with engine := l.engine.settle q kind v } : Ledger H).carriers c = l.carriers c := by
  cases hr : (l.engine.promise q).resolved with
  | true => rw [Engine.settle_of_resolved hr]
  | false =>
    obtain ⟨e₁, haside, hfate⟩ := Engine.settle_fate (R := Rights.all) hr kind v
    have heven : e₁.Even c := hl.of_eq fun p kind => by
      rw [haside.promise]
      exact Engine.reactions_lock l.engine q p kind
    have hkeep := carriers_still (c := c) (l := { l with engine := l.engine.lock q })
      haside.waitingJobs fun p => by rw [haside.promise]
    exact (carriers_fate (l := { l with engine := e₁ }) heven hfate).trans
      (hkeep.trans (carriers_lock q))

theorem carriers_settleCapability (hl : l.engine.Even c) (capability : Option PromiseRef)
    (result : Except Failure Value) :
    ({ l with engine := l.engine.settleCapability capability result } : Ledger H).carriers c =
      l.carriers c := by
  cases capability with
  | none => rfl
  | some q =>
    cases result with
    | ok v => exact carriers_settle hl q .fulfill v
    | error failure =>
      let e' := (l.engine.failureValue failure).2
      obtain ⟨hpromises, hjobs⟩ : e'.promises = l.engine.promises ∧ e'.jobs = l.engine.jobs := by
        cases failure with
        | engine error => cases error <;> exact ⟨rfl, rfl⟩
        | thrown v => exact ⟨rfl, rfl⟩
      have hpromise : ∀ p, e'.promise p = l.engine.promise p := fun p => by
        rw [Engine.promise, Engine.promise, hpromises]
      have hkeep : ({ l with engine := e' } : Ledger H).carriers c = l.carriers c :=
        carriers_still (by rw [Engine.waitingJobs, hjobs]; rfl) fun p => by rw [hpromise]
      exact (carriers_settle (l := { l with engine := e' }) (hl.of_eq fun p kind => by rw [hpromise])
        q .reject _).trans hkeep

/-- Places that only change. -/
theorem carriers_rearrange (he : l.engine.Alike l'.engine)
    (hsum : jobCapabilityCount c l'.jobs + l'.stack.count (.result c) ≤
      jobCapabilityCount c l.jobs + l.stack.count (.result c)) :
    l'.carriers c ≤ l.carriers c := by
  have hengine : l'.engine.carriers c = l.engine.carriers c := by
    rw [Engine.carriers, he.promises]
    rfl
  rw [carriers, carriers, hengine]
  omega

/-- A place of a promise is a means of settling it. -/
theorem means_of_carriers {K : Duty → Prop} {F : FunctionRef → Prop} (hK : K (.result c))
    (h : 0 < l.carriers c) : l.Means K F c := by
  by_cases hstack : 0 < l.stack.count (.result c)
  · exact .duty (List.count_pos_iff.1 hstack) ⟨rfl, hK⟩
  by_cases hjobs : 0 < jobCapabilityCount c l.jobs
  · obtain ⟨j, hj, hc⟩ := List.countP_pos_iff.1 hjobs
    exact .job hK hj (of_decide_eq_true hc)
  have hengine : l.engine.carriers c ≠ 0 := by
    rw [carriers] at h
    omega
  rw [Engine.carriers, Store.total] at hengine
  obtain ⟨i, -, hi⟩ := Finset.exists_ne_zero_of_sum_ne_zero hengine
  obtain ⟨r, hr, hc⟩ := List.countP_pos_iff.1 (Nat.pos_of_ne_zero hi)
  exact .reaction ⟨i⟩ .fulfill hK hr (of_decide_eq_true hc)

end Ledger

/-! ## Acts -/

theorem Duty.ne_result_of_engagement {code : Code H} {d : Duty} {kind : Settling}
    (h : code.engagement? = some (d, kind)) (c : PromiseRef) : d ≠ .result c := by
  rintro rfl
  cases code with
  | wake w kind' => cases w <;> cases h
  | _ => cases h

section Acts

variable {R : Rights} {l l' : Ledger H} {c : PromiseRef}

open Ledger

theorem Engine.Effect.carriers {e' : Engine H} (h : l.engine.Effect R e') (hl : l.engine.Even c)
    (hc : ¬ R.Allows l.engine c) :
    ({ l with engine := e' } : Ledger H).carriers c = l.carriers c := by
  cases h with
  | aside ha =>
    exact carriers_still ha.waitingJobs fun q => by rw [ha.promise]
  | newPromise => exact carriers_newPromise
  | @decide _ q hr hR hfate =>
    have hlock : (l.engine.lock q).Even c := hl.of_eq (Engine.reactions_lock l.engine q)
    exact (carriers_fate (l := { l with engine := l.engine.lock q }) hlock hfate).trans
      (carriers_lock q)
  | performThen q hf hg hcap =>
    rw [carriers_performThen, if_neg, Nat.add_zero]
    intro heq
    exact hc (hcap c heq)
  | callback label code =>
    exact carriers_keep (Engine.waitingJobs_enqueue _ _) rfl fun _ => rfl
  | _ => exact carriers_still rfl fun _ => rfl

/-- **An act makes no new place** for a promise that it is not allowed to. -/
theorem Act.carriers (h : Act R l l') (hl : l.Sound) (hc : ¬ R.Allows l.engine c) :
    l'.carriers c ≤ l.carriers c := by
  have heven : l.engine.Even c := hl.paired.even c
  have hstack : ∀ {d : Duty} {rest : List Duty}, d ≠ .result c →
      (d :: rest).count (.result c) = rest.count (.result c) :=
    fun hd => List.count_cons_of_ne hd
  cases h with
  | effect he => exact (he.carriers heven hc).le
  | @pop id j jobs hpop hj hcalled =>
    refine carriers_rearrange ⟨rfl, rfl, rfl⟩ ?_
    have hbefore := Microtask.jobCapabilityCount_append c [j]
      (({ l.engine with jobs } : Engine H).waitingJobs ++ l.held)
    rw [List.singleton_append, ← jobs_pop hpop, ← j.count_result] at hbefore
    rw [hbefore, List.count_append]
    show jobCapabilityCount c (({ l.engine with jobs } : Engine H).waitingJobs ++ l.held) + _ ≤ _
    omega
  | @attach id q t jobs hpop =>
    have hjobs : ({ l with engine := { l.engine with jobs } } : Ledger H).carriers c ≤
        l.carriers c := by
      refine carriers_rearrange ⟨rfl, rfl, rfl⟩ (Nat.add_le_add_right ?_ _)
      rw [jobs_pop hpop]
      exact (List.sublist_cons_self _ _).countP_le
    exact (carriers_engage (l := { l with engine := { l.engine with jobs } }) t _ _).trans_le hjobs
  | @adopt f q kind e e' hf hcode hu ha hfate =>
    have hsame : ∀ p, e.promise p = l.engine.promise p := fun p => by
      rw [ha.promise, Engine.promise_used]
    have hjobs : e.waitingJobs = l.engine.waitingJobs ++ [] := by
      rw [ha.waitingJobs, Engine.waitingJobs_used, List.append_nil]
    have hkeep := carriers_keep (l := l) (c := c) hjobs rfl fun p => by rw [hsame]
    have hfated := carriers_fate (l := { l with engine := e }) (c := c)
      (heven.of_eq fun p kind => by rw [hsame]) hfate
    exact (hfated.trans hkeep).le
  | lapse => exact carriers_rearrange ⟨rfl, rfl, rfl⟩ le_rfl
  | @wake f d kind hf hen hd hu =>
    have hjobs : (l.engine.used f).waitingJobs = l.engine.waitingJobs ++ [] := by
      rw [Engine.waitingJobs_used, List.append_nil]
    have hkeep := carriers_keep (l := l) (c := c) hjobs rfl fun p => by rw [Engine.promise_used]
    refine le_trans ?_ hkeep.le
    refine carriers_rearrange ⟨rfl, rfl, rfl⟩ (Nat.add_le_add_left ?_ _)
    exact (hstack (Duty.ne_result_of_engagement hen c)).le
  | @start d q hd ho =>
    have hne : d ≠ .result c := by
      rintro rfl
      cases hd
      exact hc (.inl ho)
    exact carriers_rearrange ⟨rfl, rfl, rfl⟩ (Nat.add_le_add_left (hstack hne).le _)
  | discharge hs hd =>
    refine carriers_rearrange ⟨rfl, rfl, rfl⟩ (Nat.add_le_add_left ?_ _)
    rw [hs]
    exact (List.sublist_cons_self _ _).count_le _
  | @engage d rest q c₁ c₂ hs hd =>
    refine (carriers_engage (l := { l with stack := rest }) q c₁ c₂).trans_le ?_
    refine carriers_rearrange ⟨rfl, rfl, rfl⟩ (Nat.add_le_add_left ?_ _)
    rw [hs]
    exact (List.sublist_cons_self _ _).count_le _
  | request a x hr hs => exact (carriers_newPromise (l := l)).le
  | @take a r rest s hs hb hq ht =>
    have hne : Duty.serve a r ≠ .result c := by rintro ⟨⟩
    exact carriers_rearrange ⟨rfl, rfl, rfl⟩ (Nat.add_le_add_left (hstack hne).le _)
  | @answer a r rest s kind v hs ha hb hv =>
    have hrest : ({ l with stack := rest } : Ledger H).carriers c ≤ l.carriers c := by
      refine carriers_rearrange ⟨rfl, rfl, rfl⟩ (Nat.add_le_add_left ?_ _)
      rw [hs]
      exact (List.sublist_cons_self _ _).count_le _
    refine le_trans (le_of_eq ?_) hrest
    let l₁ : Ledger H := { l with engine := l.engine.setAsyncState a s, stack := rest }
    cases hres : (l₁.engine.promise r.capability).resolved with
    | true =>
      rw [Engine.settle_of_resolved hres]
      rfl
    | false =>
      rw [Engine.settle_of_unresolved hres hv]
      have hlock : (l₁.engine.lock r.capability).Even c :=
        Engine.Even.of_eq (e := l₁.engine) heven (Engine.reactions_lock l₁.engine r.capability)
      exact (carriers_fate (l := { l₁ with engine := l₁.engine.lock r.capability }) hlock
        (.settled kind v)).trans (carriers_lock (l := l₁) r.capability)
  | abandon =>
    exact carriers_rearrange ⟨rfl, rfl, rfl⟩ (Nat.add_le_add_left (Nat.zero_le _) _)
  | takeOff hpop =>
    exact carriers_rearrange ⟨rfl, rfl, rfl⟩ (Nat.add_le_add_right ((jobs_takeOff hpop).countP_eq _).le _)
  | putBack hh =>
    exact carriers_rearrange ⟨rfl, rfl, rfl⟩ (Nat.add_le_add_right ((jobs_putBack hh).countP_eq _).le _)
  | _ => exact carriers_rearrange ⟨rfl, rfl, rfl⟩ le_rfl

theorem Acts.carriers (h : Acts R l l') (hl : l.Lawful) (hc : ¬ R.Allows l'.engine c) :
    l'.carriers c ≤ l.carriers c := by
  induction h with
  | refl => exact le_rfl
  | tail h₀ ha ih =>
    have hbefore : ¬ R.Allows _ c := fun hallows => hc (hallows.grows ha.grows)
    exact (ha.carriers (Acts.keeps h₀ hl).lawful.sound hbefore).trans (ih hbefore)

end Acts

/-! ## Promises that are left alone -/

/-- In the course of some events the host does not settle the promise before its fate is decided,
and never asks for means to settle it. -/
structure Untouched (es : List (Event H)) (p : PromiseRef) : Prop where
  settles : ∀ ev ∈ es, (ev.before.config.engine.promise p).resolved = false → p ∉ ev.move.settles
  entrusts : ¬ Entrusted es p

theorem Untouched.earlier {es later : List (Event H)} {p : PromiseRef}
    (h : Untouched (later ++ es) p) : Untouched es p where
  settles ev hev := h.settles ev (List.mem_append_right _ hev)
  entrusts he := h.entrusts (by
    obtain ⟨ev, hev, hp⟩ := he
    exact ⟨ev, List.mem_append_right _ hev, hp⟩)

theorem Untouched.tail {ev : Event H} {es : List (Event H)} {p : PromiseRef}
    (h : Untouched (ev :: es) p) : Untouched es p :=
  @Untouched.earlier H es [ev] p h

section Steps

variable {w w' : World H} {m : Move H} {es : List (Event H)} {c : PromiseRef}

/-- **A step makes no new place** for a promise, if it neither settles the promise nor makes means
to. -/
theorem Step.carriers (h : Step w m w') (hm : m.clears = false) (hrun : Run es w)
    (hc : c.index < w.config.engine.promises.size) (hentrusts : c ∉ m.entrusts)
    (htargets : (w.config.engine.promise c).resolved = false → c ∉ w.targets m) :
    (w'.ledger (requestsIn (⟨w, m⟩ :: es))).carriers c ≤
      (w.ledger (requestsIn es)).carriers c := by
  let R : Rights := { Rights.all with settle := (· ≠ c), entrusted := (· ≠ c) }
  have hcovers : R.Covers w m := { Rights.all_covers w m with
    fresh := ⟨fun q hq => by rintro rfl; exact Nat.not_lt_of_le hq hc, fun _ _ => trivial,
      fun _ _ => trivial⟩
    targets := fun q hq hr => by rintro rfl; exact htargets hr hq
    entrusted := fun q hq => by rintro rfl; exact hentrusts hq }
  refine (h.acts hm hcovers (Run.backed hrun) (requestsIn es)).carriers
    (Run.exclusive hrun).lawful ?_
  rintro (hown | hent)
  · exact hown.2 rfl
  · exact hent rfl

/-- The promise is open, and there is one place at most from which it can be settled, as the
capability of a reaction, unless the host has asked for means to. -/
structure World.Derived (w : World H) (es : List (Event H)) (c : PromiseRef) : Prop where
  allocated : c.index < w.config.engine.promises.size
  unresolved : (w.config.engine.promise c).resolved = false
  reserved : w.Reserved es c (some (.result c)) fun _ => False
  carriers : ¬ Entrusted es c → (w.ledger (requestsIn es)).carriers c ≤ 1

theorem World.Derived.pending (h : w.Derived es c) (hrun : Run es w) :
    (w.config.engine.promise c).state = .pending :=
  ((Run.exclusive hrun).lawful.sane c).pending h.unresolved

/-- **A promise that is a capability stays open** until a step redeems it. -/
theorem Step.derived (h : Step w m w') (hm : m.Lossless) (hrun : Run es w)
    (hw : w.Derived es c) (hleft : Untouched (⟨w, m⟩ :: es) c) (hredeem : ¬ w.config.Redeems c) :
    w'.Derived (⟨w, m⟩ :: es) c := by
  have hbacked := Run.backed hrun
  have hl := (Run.exclusive hrun).lawful
  have hfree : ∀ g d, (g, some d) ∈ w.drives m → d.answers? ≠ some c := by
    intro g d hx hd
    obtain hholder | ⟨f, -, rfl⟩ := hw.reserved.eq_holder hx hd
    · obtain rfl := Option.some.inj hholder
      cases hd
    · cases hd
      exact Nat.lt_irrefl _ hw.allocated
  have hacts := h.acts_idle hm hbacked hw.reserved hw.allocated (fun _ => False.elim) hfree
    (fun _ _ => id) (fun _ _ => id) (fun _ => hredeem) fun hres _ =>
      ⟨hleft.settles ⟨w, m⟩ List.mem_cons_self hres, hleft.entrusts⟩
  obtain ⟨hreserved, hres⟩ := hw.reserved.idle hl hacts hw.allocated hw.unresolved
  refine ⟨hw.allocated.trans_le (h.grows hbacked).promises, hres, hreserved, fun hent => ?_⟩
  refine (hacts.carriers hl ?_).trans (hw.carriers fun he => hent (he.later _))
  rintro (hown | hentrusted)
  · exact hown.2 rfl
  · exact hent hentrusted

end Steps

end Microtask
