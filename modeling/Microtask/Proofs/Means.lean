import Microtask.Proofs.Stepwise

/-!
# Means of settling

A promise can be settled from where something to settle it with is kept: by a
function that resolves or rejects it, by one that reports to a combinator, as the
capability of a reaction, and by what waits on the control stack for a function or a frame
(`Ledger.Means`). Serving the requests of an async generator is not among these, and two
predicates say which other duties and which functions count.

An act makes new means only of promises that it is allowed to
(`Act.means`), and what a step settles there are means of (`World.means_of_target`).
-/

namespace Microtask

variable {H : Type}

/-- The promise that a function settles, without asking a combinator. -/
def Code.settles? : Code H → Option PromiseRef
  | .resolve p | .reject p | .wake (.body _ p) _ => some p
  | _ => none

def Job.capability? : Job H → Option PromiseRef
  | .reaction r _ => r.capability
  | .adoption _ _ | .callback _ _ => none

/-- A duty that counts settles the promise. -/
structure Duty.Settles (K : Duty → Prop) (p : PromiseRef) (d : Duty) : Prop where
  settles : d.settles? = some p
  counts : K d

/-- A function settles the promise. If it has a duty, that counts. -/
structure Code.Settles (K : Duty → Prop) (p : PromiseRef) (c : Code H) : Prop where
  settles : c.settles? = some p
  counts : ∀ x, c.engagement? = some x → K x.1

/-- Somewhere a means of settling the promise is kept. Functions without a duty are means only
if they count, and the capability of a reaction is one if the duty to settle it counts. -/
inductive Ledger.Means (K : Duty → Prop) (F : FunctionRef → Prop) (l : Ledger H) (p : PromiseRef) :
    Prop where
  | function {f : FunctionRef} : ((l.engine.callable f).code.engagement? = none → F f) →
      (l.engine.callable f).code.Settles K p → Means K F l p
  | report {f : FunctionRef} {t : TallyRef} {i : Nat} {kind : Settling} :
      F f → (l.engine.callable f).code = .report t i kind → t.index < l.engine.tallies.size →
      (l.engine.tally t).result = p → Means K F l p
  | reaction (q : PromiseRef) (kind : Settling) {r : Reaction} :
      K (.result p) → r ∈ (l.engine.promise q).reactions kind → r.capability = some p →
      Means K F l p
  | job {j : Job H} : K (.result p) → j ∈ l.jobs → j.capability? = some p → Means K F l p
  | duty {d : Duty} : d ∈ l.stack → d.Settles K p → Means K F l p

/-- A callback with a duty settles what the duty does. -/
theorem Code.settles?_of_engagement {c : Code H} {d : Duty} {kind : Settling}
    (h : c.engagement? = some (d, kind)) : c.settles? = d.settles? := by
  cases c with
  | adopt p kind' =>
    cases h
    rfl
  | wake w kind' =>
    cases w <;> cases h <;> rfl
  | _ => cases h

theorem Code.settles_iff {K : Duty → Prop} {p : PromiseRef} {c : Code H} {d : Duty}
    {kind : Settling} (h : c.engagement? = some (d, kind)) : c.Settles K p ↔ d.Settles K p := by
  refine ⟨fun hc => ⟨settles?_of_engagement h ▸ hc.settles, hc.counts _ h⟩, fun hd => ?_⟩
  refine ⟨(settles?_of_engagement h).trans hd.settles, fun x hx => ?_⟩
  cases h.symm.trans hx
  exact hd.counts

theorem Job.settles_of_mem_results {j : Job H} {d : Duty} (h : d ∈ j.results) :
    d.settles? = j.capability? := by
  cases j with
  | reaction r v =>
    obtain ⟨p, hp, rfl⟩ := List.mem_map.1 h
    exact (Option.mem_toList.1 hp).symm
  | _ => cases h

/-- The duty to settle the capability of a job. -/
theorem Duty.Settles.result {K : Duty → Prop} {p : PromiseRef} {d : Duty} (h : d.Settles K p)
    {j : Job H} (hd : d ∈ j.results) : K (.result p) := by
  cases j with
  | reaction r v =>
    obtain ⟨q, -, rfl⟩ := List.mem_map.1 hd
    obtain rfl : q = p := Option.some.inj h.settles
    exact h.counts
  | _ => cases hd

/-- What the engine may create a function of settles a promise that it allows for. -/
theorem Code.Granted.allows {R : Rights} {e : Engine H} {c : Code H} (h : c.Granted R e)
    {p : PromiseRef} (hp : c.settles? = some p) : R.Allows e p := by
  cases c with
  | resolve q | reject q =>
    cases hp
    exact h
  | wake w kind =>
    cases w with
    | body g q => cases h
    | _ => cases hp
  | _ => cases hp

namespace Ledger.Means

variable {K : Duty → Prop} {F : FunctionRef → Prop} {l l' : Ledger H} {p : PromiseRef}
  {R : Rights}

/-- More duties may count. -/
theorem mono {K' : Duty → Prop} (hK : ∀ d, K d → K' d) (h : l.Means K F p) : l.Means K' F p := by
  cases h with
  | function hF hf => exact .function hF ⟨hf.settles, fun x hx => hK _ (hf.counts x hx)⟩
  | report hF hc ht hp => exact .report hF hc ht hp
  | reaction q kind hres hr hp => exact .reaction q kind (hK _ hres) hr hp
  | job hres hj hp => exact .job (hK _ hres) hj hp
  | duty hd hp => exact .duty hd ⟨hp.settles, hK _ hp.counts⟩

/-- Means that only change their place. -/
theorem rearrange (h : l'.Means K F p)
    (hcode : ∀ f, (l'.engine.callable f).code = (l.engine.callable f).code)
    (htallies : ∀ t, t.index < l'.engine.tallies.size → t.index < l.engine.tallies.size ∧
      (l'.engine.tally t).result = (l.engine.tally t).result)
    (hreactions : ∀ q kind, (l'.engine.promise q).reactions kind =
      (l.engine.promise q).reactions kind)
    (hjobs : ∀ j ∈ l'.jobs, K (.result p) → j.capability? = some p → l.Means K F p)
    (hstack : ∀ d ∈ l'.stack, d.Settles K p → l.Means K F p) : l.Means K F p := by
  cases h with
  | function hF hf => exact .function (hcode _ ▸ hF) (hcode _ ▸ hf)
  | report hF hc ht hp =>
    obtain ⟨ht₀, hresult⟩ := htallies _ ht
    exact .report hF ((hcode _).symm.trans hc) ht₀ (hresult.symm.trans hp)
  | reaction q kind hK hr hp => exact .reaction q kind hK (hreactions _ _ ▸ hr) hp
  | job hK hj hp => exact hjobs _ hj hK hp
  | duty hd hp => exact hstack _ hd hp

/-- Jobs and duties change places. -/
theorem of_alike (h : l'.Means K F p) (he : l.engine.Alike l'.engine) (hj : ∀ j ∈ l'.jobs, j ∈ l.jobs)
    (hs : ∀ d ∈ l'.stack, d.Settles K p → l.Means K F p) : l.Means K F p := by
  refine h.rearrange (fun f => ?_) (fun t ht => ?_) (fun q kind => ?_)
    (fun j hjob hK hp => .job hK (hj j hjob) hp) hs
  · rw [Engine.callable, he.callables]
    rfl
  · rw [Engine.tally, he.tallies]
    exact ⟨he.tallies ▸ ht, rfl⟩
  · rw [Engine.promise, he.promises]
    rfl

/-! ## Effects -/

theorem lock {q : PromiseRef} (h : ({ l with engine := l.engine.lock q } : Ledger H).Means K F p) :
    l.Means K F p := by
  refine h.rearrange (fun _ => rfl) (fun _ ht => ⟨ht, rfl⟩) ?_ (fun _ hj hK hp => .job hK hj hp)
    fun _ hd hp => .duty hd hp
  exact Engine.reactions_lock l.engine q

/-- A promise that settles hands its reactions on to the jobs. -/
theorem fate {q : PromiseRef} {e' : Engine H} (hf : l.engine.Fate q e')
    (h : ({ l with engine := e' } : Ledger H).Means K F p) : l.Means K F p := by
  cases hf with
  | settled kind v =>
    by_cases hpend : (l.engine.promise q).state = .pending
    · cases h with
      | function hF hf =>
        rw [Engine.callable, Engine.callables_settleNow] at hF hf
        exact .function hF hf
      | report hF hc ht hp =>
        rw [Engine.callable, Engine.callables_settleNow] at hc
        rw [Engine.tallies_settleNow] at ht
        rw [Engine.tally, Engine.tallies_settleNow] at hp
        exact .report hF hc ht hp
      | reaction s kind' hK hr hp =>
        exact .reaction s kind' hK (Engine.mem_reactions_settleNow hpend hr) hp
      | job hK hj hp =>
        rcases mem_jobs_append (Engine.waitingJobs_settleNow hpend kind v) hj with hj | hj
        · exact .job hK hj hp
        · obtain ⟨r, hr, rfl⟩ := List.mem_map.1 hj
          exact .reaction q kind hK hr hp
      | duty hd hp => exact .duty hd hp
    · rw [Engine.settleNow_of_settled hpend] at h
      exact h
  | @adopts t hc =>
    refine h.rearrange (fun _ => rfl) (fun _ ht => ⟨ht, rfl⟩)
      (Engine.reactions_link l.engine q t) (fun j hj hK hp => ?_) fun _ hd hp => .duty hd hp
    rcases mem_jobs_append (Engine.waitingJobs_link l.engine q t) hj with hj | hj
    · exact .job hK hj hp
    · rw [List.mem_singleton.1 hj] at hp
      cases hp

/-- Attaching reactions to a promise is a means of settling their capability. -/
theorem performThen {q : PromiseRef} {f g : Option FunctionRef} {capability : Option PromiseRef}
    (h : ({ l with engine := l.engine.performThen q f g capability } : Ledger H).Means K F p) :
    l.Means K F p ∨ K (.result p) ∧ capability = some p := by
  cases h with
  | function hF hf =>
    rw [Engine.callable, Engine.callables_performThen] at hF hf
    exact .inl (.function hF hf)
  | report hF hc ht hp =>
    rw [Engine.callable, Engine.callables_performThen] at hc
    rw [Engine.tallies_performThen] at ht
    rw [Engine.tally, Engine.tallies_performThen] at hp
    exact .inl (.report hF hc ht hp)
  | @reaction s kind r hK hr hp =>
    obtain hold | ⟨-, rfl | rfl⟩ := Engine.mem_reactions_performThen hr
    · exact .inl (.reaction s kind hK hold hp)
    · exact .inr ⟨hK, hp⟩
    · exact .inr ⟨hK, hp⟩
  | job hK hj hp =>
    rcases mem_jobs_append (Engine.waitingJobs_performThen _ q f g capability) hj with hj | hj
    · exact .inl (.job hK hj hp)
    · obtain ⟨v, -, rfl⟩ | ⟨v, -, rfl⟩ := Promise.mem_attachJobs hj
      · exact .inr ⟨hK, hp⟩
      · exact .inr ⟨hK, hp⟩
  | duty hd hp => exact .inl (.duty hd hp)

/-- A combinator that is new settles a promise that is allowed for. -/
theorem aside {e' : Engine H} (ha : l.engine.Aside R e')
    (h : ({ l with engine := e' } : Ledger H).Means K F p) :
    l.Means K F p ∨ R.Allows l.engine p := by
  have hkeep : (∀ t, t.index < e'.tallies.size → t.index < l.engine.tallies.size ∧
      (e'.tally t).result = (l.engine.tally t).result) → l.Means K F p := by
    intro htallies
    refine h.rearrange (fun f => by rw [ha.callable]) htallies (fun q kind => by rw [ha.promise])
      (fun j hj hK hp => .job hK ?_ hp) fun _ hd hp => .duty hd hp
    rw [Ledger.jobs, ha.waitingJobs] at hj
    exact hj
  cases ha with
  | @newTally tally howns =>
    cases h with
    | @report f t i kind hF hc ht hp =>
      have ht' : t.index < l.engine.tallies.size + 1 := by simpa [Engine.newTally] using ht
      have hp' : ((l.engine.tallies.push tally).get t.index).result = p := hp
      rw [Store.get_push] at hp'
      split at hp'
      · rw [← hp']
        exact .inr (.inl howns)
      · exact .inl (.report hF hc (by omega) hp')
    | function hF hf => exact .inl (.function hF hf)
    | reaction q kind hK hr hp => exact .inl (.reaction q kind hK hr hp)
    | job hK hj hp => exact .inl (.job hK hj hp)
    | duty hd hp => exact .inl (.duty hd hp)
  | @modifyTally t change ht hc hmay hcount =>
    refine .inl (hkeep fun u hu => ?_)
    have hu' : u.index < max l.engine.tallies.size (t.index + 1) := by
      rw [← Store.size_set l.engine.tallies t.index (change (l.engine.tally t))]
      exact hu
    refine ⟨by omega, ?_⟩
    show ((l.engine.tallies.modify t.index change).get u.index).result = _
    rw [Store.get_modify]
    split
    · next heq => exact hc.trans (by rw [Engine.tally, Engine.tally, heq])
    · rfl
  | _ => exact .inl (hkeep fun _ ht => ⟨ht, rfl⟩)

theorem newFunction {c : Callable H}
    (h : ({ l with engine := (l.engine.newFunction c).2 } : Ledger H).Means K F p) :
    l.Means K F p ∨ c.code.Settles K p ∨ ∃ t i kind, c.code = .report t i kind ∧
      t.index < l.engine.tallies.size ∧ (l.engine.tally t).result = p := by
  cases h with
  | @function f hF hf =>
    have hf' : ((l.engine.newFunction c).2.callable f).code.Settles K p := hf
    have hF' : ((l.engine.newFunction c).2.callable f).code.engagement? = none → F f := hF
    rw [Engine.callable_newFunction] at hF' hf'
    split at hf'
    · exact .inr (.inl hf')
    · next hne => exact .inl (.function (by rwa [if_neg hne] at hF') hf')
  | @report f t i kind hF hc ht hp =>
    have hc' : ((l.engine.newFunction c).2.callable f).code = .report t i kind := hc
    rw [Engine.callable_newFunction] at hc'
    split at hc'
    · exact .inr (.inr ⟨t, i, kind, hc', ht, hp⟩)
    · exact .inl (.report hF hc' ht hp)
  | reaction q kind hK hr hp => exact .inl (.reaction q kind hK hr hp)
  | job hK hj hp => exact .inl (.job hK hj hp)
  | duty hd hp => exact .inl (.duty hd hp)

theorem spend {f : FunctionRef} (h : ({ l with engine := l.engine.spend f } : Ledger H).Means K F p) :
    l.Means K F p := by
  refine h.rearrange (fun g => ?_) (fun _ ht => ⟨ht, rfl⟩) (fun _ _ => rfl)
    (fun _ hj hK hp => .job hK hj hp) fun _ hd hp => .duty hd hp
  show ((l.engine.spend f).callable g).code = _
  rw [Engine.callable_spend]
  split
  · next hg => rw [hg]
  · rfl

theorem used {f : FunctionRef} (h : ({ l with engine := l.engine.used f } : Ledger H).Means K F p) :
    l.Means K F p := by
  unfold Engine.used at h
  split at h
  · exact h.spend
  · exact h
  · exact h

theorem newPromise (h : ({ l with engine := l.engine.newPromise.2 } : Ledger H).Means K F p) :
    l.Means K F p := by
  refine h.rearrange (fun _ => rfl) (fun _ ht => ⟨ht, rfl⟩) ?_ (fun _ hj hK hp => .job hK hj hp)
    fun _ hd hp => .duty hd hp
  exact Engine.reactions_newPromise l.engine

theorem callback {label : String} {code : H}
    (h : ({ l with engine := l.engine.enqueue (.callback label code) } : Ledger H).Means K F p) :
    l.Means K F p := by
  refine h.rearrange (fun _ => rfl) (fun _ ht => ⟨ht, rfl⟩) (fun _ _ => rfl)
    (fun j hj hK hp => ?_) fun _ hd hp => .duty hd hp
  rcases mem_jobs_append (Engine.waitingJobs_enqueue _ _) hj with hj | hj
  · exact .job hK hj hp
  · rw [List.mem_singleton.1 hj] at hp
    cases hp

theorem effect {e' : Engine H} (he : l.engine.Effect R e')
    (h : ({ l with engine := e' } : Ledger H).Means K F p) : l.Means K F p ∨ R.Allows l.engine p := by
  cases he with
  | aside ha => exact h.aside ha
  | newPromise => exact .inl h.newPromise
  | newFunction hc =>
    rcases h.newFunction with h | hp | ⟨t, i, kind, hcode, ht, hp⟩
    · exact .inl h
    · exact .inr (hc.allows hp.settles)
    · rw [hcode] at hc
      exact .inr (hp ▸ hc.2.1)
  | spend hf => exact .inl h.spend
  | @decide _ q hr hR hfate => exact .inl (lock (h.fate (l := { l with engine := l.engine.lock q }) hfate))
  | performThen q hf hg hc => exact h.performThen.imp id fun hp => hc p hp.2
  | callback label code => exact .inl h.callback

/-- A wait keeps a means of settling what its duty settles. -/
theorem engage {q : PromiseRef} {c c' : Callable H} {d : Duty} (hd : d.Engages c c')
    (h : ({ l with engine := l.engine.engage q c c' } : Ledger H).Means K F p) :
    l.Means K F p ∨ d.Settles K p := by
  -- a callback with a duty does not report to a combinator
  have hno : ∀ {c₀ : Callable H} {kind t i kind'}, c₀.code.engagement? = some (d, kind) →
      c₀.code ≠ .report t i kind' := by
    intro c₀ kind t i kind' hen hc
    rw [hc] at hen
    cases hen
  rcases h.performThen (l := { l with engine := ((l.engine.newFunction c).2.newFunction c').2 })
    with h | h
  · rcases h.newFunction (l := { l with engine := (l.engine.newFunction c).2 }) with
      h | h | ⟨t, i, kind, hc, -⟩
    · rcases h.newFunction with h | h | ⟨t, i, kind, hc, -⟩
      · exact .inl h
      · exact .inr ((Code.settles_iff hd.fulfill).1 h)
      · exact absurd hc (hno hd.fulfill)
    · exact .inr ((Code.settles_iff hd.reject).1 h)
    · exact absurd hc (hno hd.reject)
  · cases h.2

end Ledger.Means

/-! ## Acts -/

open Ledger in
/-- **An act makes new means only of promises that it is allowed to.** -/
theorem Act.means {R : Rights} {l l' : Ledger H} (h : Act R l l') {K : Duty → Prop}
    {F : FunctionRef → Prop} {p : PromiseRef}
    (hm : l'.Means K F p) : l.Means K F p ∨ R.Allows l'.engine p := by
  have hg := h.grows
  have hstay : ∀ d ∈ l.stack, d.Settles K p → l.Means K F p := fun _ hd hp => .duty hd hp
  cases h with
  | effect he => exact (hm.effect he).imp id (·.grows hg)
  | @pop id j jobs hpop hj hc =>
    refine .inl (hm.of_alike ⟨rfl, rfl, rfl⟩ (fun k hk => ?_) fun d hd hp => ?_)
    · rw [jobs_pop hpop]
      exact List.mem_cons_of_mem _ hk
    · rcases List.mem_append.1 hd with hd | hd
      · have hcap := (Job.settles_of_mem_results hd).symm.trans hp.settles
        exact .job (hp.result hd) (jobs_pop hpop ▸ List.mem_cons_self) hcap
      · exact .duty hd hp
  | @attach id q t jobs hpop =>
    refine .inl ?_
    have hj : ({ l with engine := { l.engine with jobs } } : Ledger H).Means K F p := by
      rcases hm.engage (l := { l with engine := { l.engine with jobs } }) (Engine.engages_adopt q)
        with h | h
      · exact h
      · cases h.settles
    refine hj.of_alike ⟨rfl, rfl, rfl⟩ (fun k hk => ?_) hstay
    rw [jobs_pop hpop]
    exact List.mem_cons_of_mem _ hk
  | @adopt f q kind e e' hf hcode hu ha hfate =>
    have hfated := hm.fate (l := { l with engine := e, called := none }) hfate
    rcases hfated.aside (l := { l with engine := l.engine.used f, called := none }) ha with h | h
    · exact .inl ((h.used (l := { l with called := none })).of_alike ⟨rfl, rfl, rfl⟩
        (fun _ hj => hj) hstay)
    · exact .inr (h.grows (ha.grows.trans hfate.grows))
  | lapse hf hu => exact .inl (hm.of_alike ⟨rfl, rfl, rfl⟩ (fun _ hj => hj) hstay)
  | @wake f d kind hf hen hd hu =>
    have hused := hm.used (l := { l with called := none, stack := d :: l.stack })
    refine .inl (hused.of_alike ⟨rfl, rfl, rfl⟩ (fun _ hj => hj) fun d' hd' hp => ?_)
    rcases List.mem_cons.1 hd' with rfl | hd'
    · refine .function (fun hnone => ?_) ((Code.settles_iff hen).2 hp)
      cases hnone.symm.trans hen
    · exact .duty hd' hp
  | @start d q hd ho =>
    cases hm with
    | duty hd' hp =>
      rcases List.mem_cons.1 hd' with rfl | hd'
      · obtain rfl : q = p := Option.some.inj (hd.symm.trans hp.settles)
        exact .inr (.inl ho)
      · exact .inl (.duty hd' hp)
    | function hF hf => exact .inl (.function hF hf)
    | report hF hc ht hp => exact .inl (.report hF hc ht hp)
    | reaction q kind hK hr hp => exact .inl (.reaction q kind hK hr hp)
    | job hK hj hp => exact .inl (.job hK hj hp)
  | discharge hs hd =>
    refine .inl (hm.of_alike ⟨rfl, rfl, rfl⟩ (fun _ hj => hj) fun d' hd' hp => ?_)
    exact .duty (hs ▸ List.mem_cons_of_mem _ hd') hp
  | @engage d rest q c c' hs hd =>
    rcases hm.engage (l := { l with stack := rest }) hd with h | h
    · refine .inl (h.of_alike ⟨rfl, rfl, rfl⟩ (fun _ hj => hj) fun d' hd' hp => ?_)
      exact .duty (hs ▸ List.mem_cons_of_mem _ hd') hp
    · exact .inl (.duty (hs ▸ List.mem_cons_self) h)
  | request a c hr hs =>
    have hnew : ({ l with engine := l.engine.newPromise.2 } : Ledger H).Means K F p :=
      hm.of_alike ⟨rfl, rfl, rfl⟩ (fun _ hj => hj) fun _ hd hp => .duty hd hp
    exact .inl hnew.newPromise
  | @answer a r rest s kind v hs ha hb hv =>
    have hrest : ({ l with engine := l.engine.setAsyncState a s, stack := rest } :
        Ledger H).Means K F p := by
      cases hres : ((l.engine.setAsyncState a s).promise r.capability).resolved with
      | true =>
        rw [Engine.settle_of_resolved hres] at hm
        exact hm
      | false =>
        rw [Engine.settle_of_unresolved hres hv] at hm
        refine Means.lock (q := r.capability) ?_
        exact hm.fate (l := { l with
          engine := (l.engine.setAsyncState a s).lock r.capability
          stack := rest }) (.settled kind v)
    refine .inl (hrest.of_alike ⟨rfl, rfl, rfl⟩ (fun _ hj => hj) fun d' hd' hp => ?_)
    exact .duty (hs ▸ List.mem_cons_of_mem _ hd') hp
  | take hs hb hq ht =>
    refine .inl (hm.of_alike ⟨rfl, rfl, rfl⟩ (fun _ hj => hj) fun d' hd' hp => ?_)
    rcases List.mem_cons.1 hd' with rfl | hd'
    · cases hp.settles
    · exact .duty hd' hp
  | abandon hc hs => exact .inl (hm.of_alike ⟨rfl, rfl, rfl⟩ (fun _ hj => hj) nofun)
  | takeOff hpop =>
    exact .inl (hm.of_alike ⟨rfl, rfl, rfl⟩ (fun _ hj => (jobs_takeOff hpop).mem_iff.1 hj) hstay)
  | putBack hh =>
    exact .inl (hm.of_alike ⟨rfl, rfl, rfl⟩ (fun _ hj => (jobs_putBack hh).mem_iff.1 hj) hstay)
  | _ => exact .inl (hm.of_alike ⟨rfl, rfl, rfl⟩ (fun _ hj => hj) hstay)

theorem Acts.means {R : Rights} {l l' : Ledger H} (h : Acts R l l') {K : Duty → Prop}
    {F : FunctionRef → Prop} {p : PromiseRef}
    (hm : l'.Means K F p) : l.Means K F p ∨ R.Allows l'.engine p := by
  induction h with
  | refl => exact .inl hm
  | tail _ ha ih =>
    rcases ha.means hm with hm | hp
    · exact (ih hm).imp id (·.grows ha.grows)
    · exact .inr hp

/-- In a fresh engine there are none. -/
theorem Ledger.not_means_start {K : Duty → Prop} {F : FunctionRef → Prop} {p : PromiseRef} :
    ¬ (({} : World H).ledger []).Means K F p := by
  intro h
  cases h with
  | @function f hF hf =>
    have hnone : (({} : World H).ledger []).engine.callable f = default :=
      Store.get_of_size_le (Nat.zero_le _)
    have hf' : ((({} : World H).ledger []).engine.callable f).code.Settles K p := hf
    rw [hnone] at hf'
    cases hf'.settles
  | report hF hc ht => cases ht
  | reaction q kind hK hr =>
    have hnone : (({} : World H).ledger []).engine.promise q = {} :=
      Engine.promise_of_size_le (Nat.zero_le _)
    have hr' : _ ∈ ((({} : World H).ledger []).engine.promise q).reactions kind := hr
    rw [hnone] at hr'
    cases kind <;> cases hr'
  | job hK hj => cases hj
  | duty hd => cases hd

/-! ## Targets -/

section Targets

variable {K : Duty → Prop} {F : FunctionRef → Prop} {p : PromiseRef}

theorem Stepper.duty_of_target {s : Stepper H} (hp : p ∈ s.targets) :
    ∃ g, (g, some (.body g p)) ∈ s.drives ∧ .body g p ∈ s.duties := by
  cases s with
  | host h => cases hp
  | generator g purpose =>
    cases purpose with
    | body q reply k =>
      rw [List.mem_singleton.1 hp]
      exact ⟨g, List.mem_cons_self, List.mem_cons_self⟩
    | _ => cases hp

theorem Caller.duty_of_target {k : Caller H} (hp : p ∈ k.targets) :
    (∃ d, k = .reaction (some p) d) ∧ .result p ∈ k.duties ∨ .construct p ∈ k.duties := by
  cases k with
  | reaction capability d =>
    obtain rfl : capability = some p := Option.mem_toList.1 hp
    exact .inl ⟨⟨d, rfl⟩, List.mem_cons_self⟩
  | executor q h =>
    rw [List.mem_singleton.1 hp]
    exact .inr List.mem_cons_self
  | _ => cases hp

/-- A job that settles a promise at once has no handler. -/
theorem Job.exists_of_target {j : Job H} (hp : p ∈ j.targets) :
    ∃ kind v, j = .reaction ⟨kind, none, some p⟩ v := by
  cases j with
  | reaction r v =>
    obtain ⟨kind, handler, capability⟩ := r
    cases handler with
    | none =>
      obtain rfl := Option.mem_toList.1 hp
      exact ⟨kind, v, rfl⟩
    | some f => cases hp
  | _ => cases hp

theorem Job.capability_of_target {j : Job H} (hp : p ∈ j.targets) : j.capability? = some p := by
  obtain ⟨kind, v, rfl⟩ := Job.exists_of_target hp
  rfl

/-- What a function settles, a combinator included. -/
theorem Ledger.Means.of_code {l : Ledger H} (hbacked : l.engine.Backed) {f : FunctionRef}
    (hF : F f) (hp : p ∈ (l.engine.callable f).code.targets l.engine)
    (hd : ∀ g, (g, some (.body g p)) ∈ (l.engine.callable f).code.drives l.engine →
      K (.body g p)) : l.Means K F p := by
  cases hc : (l.engine.callable f).code with
  | report t i kind =>
    rw [hc, Code.targets] at hp
    split at hp
    · exact .report hF hc (hbacked.allocated hc) (List.mem_singleton.1 hp).symm
    · cases hp
  | resolve q | reject q =>
    rw [hc] at hp
    obtain rfl := List.mem_singleton.1 hp
    have hs : (l.engine.callable f).code.Settles K p :=
      ⟨by rw [hc]; rfl, fun x hx => by rw [hc] at hx; cases hx⟩
    exact .function (fun _ => hF) hs
  | wake waiter kind =>
    rw [hc] at hp hd
    cases waiter with
    | body g q =>
      obtain rfl := List.mem_singleton.1 hp
      have hen : (l.engine.callable f).code.engagement? = some (.body g p, kind) := by
        rw [hc]
        rfl
      exact .function (fun _ => hF) ((Code.settles_iff hen).2 ⟨rfl, hd g List.mem_cons_self⟩)
    | _ => cases hp
  | _ =>
    rw [hc] at hp
    cases hp

/-- A tick settles the promise as the capability of a reaction, with the result of the handler,
or at once if there is none. -/
inductive Config.Redeems (c : Config H) (p : PromiseRef) : Prop where
  | result {result : Except Failure Value} {d : Drain H} :
      c.control = .deliver result (.reaction (some p) d) → Redeems c p
  | job {d d' : Drain H} {id : Nat} {j : Job H} {jobs : JobQueue (Job H)} :
      c.control = .drain d → c.engine.jobs.pop? = some ((id, j), jobs) →
      c.tick = ({ c.engine with jobs } : Engine H).runJob id d' j → p ∈ j.targets → Redeems c p

variable (hK : K (.construct p))
include hK

/-- What a tick settles. -/
theorem Config.means_of_target {c : Config H} (hbacked : c.engine.Backed)
    (hp : p ∈ c.control.targets c.engine)
    (hredeem : c.Redeems p → K (.result p))
    (hF : ∀ f ∈ c.control.callee?, F f)
    (hd : ∀ g, (g, some (.body g p)) ∈ c.control.drives c.engine → K (.body g p))
    (held : List (Job H)) (issued : List (AsyncGeneratorRef × Request)) :
    (c.ledger held issued).Means K F p := by
  obtain ⟨e, control⟩ := c
  cases control with
  | host h prompt => cases hp
  | serve a reply k => cases hp
  | call f args k =>
    rw [Control.targets] at hp
    split at hp
    · cases hp
    · exact .of_code (f := f) hbacked (hF f rfl) hp hd
  | deliver result k =>
    rcases Caller.duty_of_target hp with ⟨⟨d, rfl⟩, hmem⟩ | hmem
    · exact .duty hmem ⟨rfl, hredeem (.result rfl)⟩
    · exact .duty hmem ⟨rfl, hK⟩
  | resume f c s | run f s =>
    obtain ⟨g, hdrive, hmem⟩ := Stepper.duty_of_target hp
    exact .duty hmem ⟨rfl, hd g hdrive⟩
  | drain d =>
    obtain ⟨limit, executed, h⟩ := d
    rw [Control.targets] at hp
    split at hp
    · cases hp
    · next hlimit =>
      cases hpop : e.jobs.pop? with
      | none => simp [hpop] at hp
      | some next =>
        obtain ⟨⟨id, j⟩, jobs⟩ := next
        rw [hpop] at hp
        have htick : (Config.mk e (.drain (.loop limit executed h))).tick =
            ({ e with jobs } : Engine H).runJob id (.loop limit (executed + 1) h) j := by
          show e.drainRound (.loop limit executed h) = _
          rw [Engine.drainRound, if_neg hlimit, hpop]
        have hmem : j ∈ e.waitingJobs := Engine.waitingJobs_pop hpop ▸ List.mem_cons_self
        exact .job (hredeem (.job rfl hpop htick hp)) (List.mem_append_left _ hmem)
          (Job.capability_of_target hp)

/-- **What a step settles there are means of**, unless it is an operation that names
the promise. -/
theorem World.means_of_target {w : World H} {m : Move H} (hbacked : w.config.engine.Backed)
    (hp : p ∈ w.targets m) (hm : p ∉ m.settles) (hredeem : w.config.Redeems p → K (.result p))
    (hF : ∀ f ∈ w.config.control.callee?, F f)
    (hd : ∀ g, (g, some (.body g p)) ∈ w.drives m → K (.body g p))
    (issued : List (AsyncGeneratorRef × Request)) : (w.ledger issued).Means K F p := by
  obtain ⟨⟨e, control⟩, held⟩ := w
  cases m with
  | tick => exact Config.means_of_target hK hbacked hp hredeem hF hd held issued
  | perform op => exact absurd hp hm
  | finishFrame o code =>
    cases control with
    | host h prompt =>
      cases h with
      | frame s =>
        obtain ⟨g, hdrive, hmem⟩ := Stepper.duty_of_target hp
        exact .duty hmem ⟨rfl, hd g hdrive⟩
      | _ => cases hp
    | _ => cases hp
  | _ => cases hp

end Targets

end Microtask
