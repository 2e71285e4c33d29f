import Microtask.Proofs.Outstanding

/-!
# Callbacks that are used once

A callback with a duty comes from a wait, and nothing else ever hands it on: once no
reaction and no job refers to it, none will again (`Act.refers`). A wait makes two of
them, and as long as its duty is owed once, the call of either one takes the other
away with it, so that what is called has not been used up (`Ledger.Unspent`).

Main statement: `Act.unspent`.
-/

namespace Microtask

variable {H : Type}

/-- The function exists, and the rights to have it called later are missing unless it has a
duty. Callbacks with a duty are not attached by whoever has rights to a function. -/
structure Rights.Withholds (R : Rights) (e : Engine H) (f : FunctionRef) : Prop where
  allocated : f.index < e.callables.size
  engaged : R.attach f → (e.engagement? f).isSome = true

theorem Rights.Withholds.of_engagement {R : Rights} {e : Engine H} {f : FunctionRef}
    {x : Duty × Settling} (h : e.engagement? f = some x) : R.Withholds e f :=
  ⟨Engine.exists_of_engagement h, fun _ => by rw [h]; rfl⟩

theorem Rights.Withholds.grows {R : Rights} {e e' : Engine H} {f : FunctionRef}
    (h : R.Withholds e f) (hg : e.Grows e') : R.Withholds e' f :=
  ⟨h.allocated.trans_le hg.callables, fun ha => by rw [hg.engagement? h.allocated]; exact h.engaged ha⟩

namespace Ledger

/-- The function is referred to, or it is being called. -/
def Has (l : Ledger H) (f : FunctionRef) : Prop := l.Refers f ∨ l.called = some f

/-- No function with the duty that can still be called has been used up. -/
def Unspent (l : Ledger H) (d : Duty) : Prop :=
  ∀ f kind, l.engine.engagement? f = some (d, kind) → l.Has f → (l.engine.callable f).usage = .once

/-! ## References -/

/-- What becomes of the references to a function. None is new: a reaction stays where it
is, or it goes on as a job with what its promise has been settled with. -/
structure Traces (f : FunctionRef) (l l' : Ledger H) : Prop where
  settled : ∀ p, (l.engine.promise p).state ≠ .pending →
    (l'.engine.promise p).state = (l.engine.promise p).state
  reaction : ∀ p kind, ∀ r ∈ (l'.engine.promise p).reactions kind, r.handler = some f →
    r ∈ (l.engine.promise p).reactions kind
  job : ∀ r v, .reaction r v ∈ l'.jobs → r.handler = some f → .reaction r v ∈ l.jobs ∨
    ∃ p kind, r ∈ (l.engine.promise p).reactions kind ∧ (l'.engine.promise p).state = kind.state v

namespace Traces

variable {l l' l'' : Ledger H} {f : FunctionRef} {e' : Engine H} {R : Rights}

theorem trans (h : Traces f l l') (h' : Traces f l' l'') : Traces f l l'' where
  settled p hp := by
    have hp' : (l'.engine.promise p).state ≠ .pending := h.settled p hp ▸ hp
    exact (h'.settled p hp').trans (h.settled p hp)
  reaction p kind r hr hf := h.reaction p kind r (h'.reaction p kind r hr hf) hf
  job r v hj hf := by
    rcases h'.job r v hj hf with hj | ⟨p, kind, hr, hstate⟩
    · rcases h.job r v hj hf with hj | ⟨p, kind, hr, hstate⟩
      · exact .inl hj
      · have hp : (l'.engine.promise p).state ≠ .pending := hstate ▸ kind.state_ne_pending v
        exact .inr ⟨p, kind, hr, (h'.settled p hp).trans hstate⟩
    · exact .inr ⟨p, kind, h.reaction p kind r hr hf, hstate⟩

theorem refers (h : Traces f l l') (hf : l'.Refers f) : l.Refers f := by
  rcases hf with ⟨p, kind, r, hr, hf⟩ | ⟨r, v, hj, hf⟩
  · exact .inl ⟨p, kind, r, h.reaction p kind r hr hf, hf⟩
  · rcases h.job r v hj hf with hj | ⟨p, kind, hr, -⟩
    · exact .inr ⟨r, v, hj, hf⟩
    · exact .inl ⟨p, kind, r, hr, hf⟩

/-- References that only change their place. -/
theorem rearrange (hstate : ∀ p, (l'.engine.promise p).state = (l.engine.promise p).state)
    (hreactions : ∀ p kind, (l'.engine.promise p).reactions kind =
      (l.engine.promise p).reactions kind)
    (hjobs : ∀ r v, .reaction r v ∈ l'.jobs → .reaction r v ∈ l.jobs) : Traces f l l' :=
  ⟨fun p _ => hstate p, fun p kind _ hr _ => hreactions p kind ▸ hr,
    fun r v hj _ => .inl (hjobs r v hj)⟩

theorem of_alike (he : l.engine.Alike l'.engine) (hjobs : ∀ j ∈ l'.jobs, j ∈ l.jobs) :
    Traces f l l' := by
  have hp : ∀ p, l'.engine.promise p = l.engine.promise p := fun p => by
    rw [Engine.promise, he.promises]
    rfl
  exact rearrange (fun p => by rw [hp]) (fun p kind => by rw [hp]) fun _ _ hj => hjobs _ hj

/-- Whatever becomes of a promise, its reactions go on as jobs at most. -/
theorem fate {p : PromiseRef} (hf : l.engine.Fate p e') : Traces f l { l with engine := e' } := by
  cases hf with
  | settled kind v =>
    by_cases hpend : (l.engine.promise p).state = .pending
    · refine ⟨fun q hq => ?_, fun q kind' r hr _ => Engine.mem_reactions_settleNow hpend hr,
        fun r v' hj hf => ?_⟩
      · show ((l.engine.settleNow p kind v).promise q).state = _
        rw [Engine.promise_settleNow hpend, if_neg]
        rintro rfl
        exact hq hpend
      · rcases mem_jobs_append (Engine.waitingJobs_settleNow hpend kind v) hj with hj | hj
        · exact .inl hj
        · obtain ⟨r', hr, heq⟩ := List.mem_map.1 hj
          cases heq
          refine .inr ⟨p, kind, hr, ?_⟩
          show ((l.engine.settleNow p kind v).promise p).state = _
          rw [Engine.promise_settleNow hpend, if_pos rfl]
          rfl
    · rw [Engine.settleNow_of_settled hpend]
      exact .of_alike ⟨rfl, rfl, rfl⟩ fun _ hj => hj
  | @adopts q hc =>
    refine rearrange (Engine.read_link (·.state) (fun _ _ => rfl) l.engine p q)
      (Engine.reactions_link l.engine p q) fun r v hj => ?_
    rcases mem_jobs_append (Engine.waitingJobs_link l.engine p q) hj with hj | hj
    · exact hj
    · cases List.mem_singleton.1 hj

theorem lock (l : Ledger H) (f : FunctionRef) (p : PromiseRef) :
    Traces f l { l with engine := l.engine.lock p } :=
  rearrange (Engine.read_lock (·.state) (fun _ => rfl) l.engine p)
    (Engine.reactions_lock l.engine p) fun _ _ hj => hj

/-- Other handlers are attached to a promise. -/
theorem performThen (p : PromiseRef) {g g' : Option FunctionRef} (hg : g ≠ some f)
    (hg' : g' ≠ some f) (capability : Option PromiseRef) :
    Traces f l { l with engine := l.engine.performThen p g g' capability } := by
  refine ⟨fun q _ => ?_, fun q kind r hr hf => ?_, fun r v hj hf => ?_⟩
  · exact Engine.read_performThen l.engine p g g' capability (·.state) (fun _ _ _ => rfl) q
  · obtain hold | ⟨-, rfl | rfl⟩ := Engine.mem_reactions_performThen hr
    · exact hold
    · exact absurd hf hg
    · exact absurd hf hg'
  · rcases mem_jobs_append (Engine.waitingJobs_performThen _ p g g' capability) hj with hj | hj
    · exact .inl hj
    · obtain ⟨v', -, heq⟩ | ⟨v', -, heq⟩ := Promise.mem_attachJobs hj
      · cases heq
        exact absurd hf hg
      · cases heq
        exact absurd hf hg'

/-- An effect does not refer to a function that is withheld from it. -/
theorem effect (hf : R.Withholds l.engine f) (he : l.engine.Effect R e') :
    Traces f l { l with engine := e' } := by
  cases he with
  | aside ha =>
    refine rearrange (fun p => by rw [ha.promise]) (fun p kind => by rw [ha.promise])
      fun r v hj => ?_
    rw [Ledger.jobs, ha.waitingJobs] at hj
    exact hj
  | newPromise =>
    exact rearrange (fun p => Engine.read_newPromise (·.state) (fun _ => rfl) l.engine p)
      (Engine.reactions_newPromise l.engine) fun _ _ hj => hj
  | newFunction hc => exact rearrange (fun _ => rfl) (fun _ _ => rfl) fun _ _ hj => hj
  | spend hg => exact rearrange (fun _ => rfl) (fun _ _ => rfl) fun _ _ hj => hj
  | @decide _ p hr hR hfate =>
    exact (lock l f p).trans (fate (l := { l with engine := l.engine.lock p }) hfate)
  | @performThen p g g' capability hg hg' hc hattach =>
    have hother : ∀ {y : Option FunctionRef}, l.engine.PlainHandler y →
        (y = some f → R.attach f) → y ≠ some f := by
      rintro y hy hR rfl
      have hsome := hf.engaged (hR rfl)
      rw [(hy f rfl).free] at hsome
      cases hsome
    exact performThen p (hother hg fun h => hattach f (.inl h))
      (hother hg' fun h => hattach f (.inr h)) _
  | callback label code =>
    refine rearrange (fun _ => rfl) (fun _ _ => rfl) fun r v hj => ?_
    rcases mem_jobs_append (Engine.waitingJobs_enqueue _ _) hj with hj | hj
    · exact hj
    · cases List.mem_singleton.1 hj

/-- A wait refers to two functions that are new. -/
theorem engage (q : PromiseRef) (c c' : Callable H) (hf : f.index < l.engine.callables.size) :
    Traces f l { l with engine := l.engine.engage q c c' } := by
  have hnew : Traces f l { l with engine := ((l.engine.newFunction c).2.newFunction c').2 } :=
    rearrange (fun _ => rfl) (fun _ _ => rfl) fun _ _ hj => hj
  refine hnew.trans (performThen q ?_ ?_ none)
  · rintro ⟨⟩
    exact absurd hf (Nat.lt_irrefl _)
  · rintro ⟨⟩
    simp at hf

end Traces

end Ledger

/-! ## Acts -/

section Acts

open Ledger

variable {R : Rights} {l l' : Ledger H} {f : FunctionRef} {x : Duty × Settling}

/-- **No act refers to a function again that is withheld from it**, such as one with a
duty. -/
theorem Act.traces (h : Act R l l') (hf : R.Withholds l.engine f) : Traces f l l' := by
  have hsize := hf.allocated
  cases h with
  | effect he => exact .effect hf he
  | pop hpop hj hc =>
    refine .of_alike ⟨rfl, rfl, rfl⟩ fun k hk => ?_
    rw [jobs_pop hpop]
    exact List.mem_cons_of_mem _ hk
  | @attach id p q jobs hpop =>
    have hj : Traces f l { l with engine := { l.engine with jobs } } := by
      refine .of_alike ⟨rfl, rfl, rfl⟩ fun k hk => ?_
      rw [jobs_pop hpop]
      exact List.mem_cons_of_mem _ hk
    exact hj.trans (.engage q _ _ hsize)
  | @adopt g p kind e e' hg hcode hu ha hfate =>
    have he : Traces f l { l with engine := e, called := none } := by
      refine .rearrange (fun p => ?_) (fun p kind => ?_) fun r v hj => ?_
      · exact congrArg Promise.state ((ha.promise p).trans (Engine.promise_used _ g p))
      · exact congrArg (·.reactions kind) ((ha.promise p).trans (Engine.promise_used _ g p))
      · rw [Ledger.jobs, ha.waitingJobs, Engine.waitingJobs_used] at hj
        exact hj
    exact he.trans (.fate (l := { l with engine := e, called := none }) hfate)
  | wake hg hx hd hu =>
    refine .rearrange (fun p => by rw [Engine.promise_used]) (fun p kind => by
      rw [Engine.promise_used]) fun r v hj => ?_
    rw [Ledger.jobs, Engine.waitingJobs_used] at hj
    exact hj
  | @engage d rest q c c' hs hd =>
    have hrest : Traces f l { l with stack := rest } := .of_alike ⟨rfl, rfl, rfl⟩ fun _ hj => hj
    exact hrest.trans (.engage q c c' hsize)
  | request a c hr hs =>
    exact .rearrange (fun p => Engine.read_newPromise (·.state) (fun _ => rfl) l.engine p)
      (Engine.reactions_newPromise l.engine) fun _ _ hj => hj
  | @answer a r rest s kind v hs ha hb hv =>
    cases hres : ((l.engine.setAsyncState a s).promise r.capability).resolved with
    | true =>
      rw [Engine.settle_of_resolved hres]
      exact .of_alike ⟨rfl, rfl, rfl⟩ fun _ hj => hj
    | false =>
      rw [Engine.settle_of_unresolved hres hv]
      have hset : Traces f l { l with engine := l.engine.setAsyncState a s, stack := rest } :=
        .of_alike ⟨rfl, rfl, rfl⟩ fun _ hj => hj
      have hlock := hset.trans (.lock _ f r.capability)
      exact hlock.trans (.fate (l := { l with
        engine := (l.engine.setAsyncState a s).lock r.capability
        stack := rest }) (.settled kind v))
  | takeOff hpop => exact .of_alike ⟨rfl, rfl, rfl⟩ fun _ hj => (jobs_takeOff hpop).mem_iff.1 hj
  | putBack hh => exact .of_alike ⟨rfl, rfl, rfl⟩ fun _ hj => (jobs_putBack hh).mem_iff.1 hj
  | _ => exact .of_alike ⟨rfl, rfl, rfl⟩ fun _ hj => hj

theorem Act.refers (h : Act R l l') (hen : l.engine.engagement? f = some x)
    (hf : l'.Refers f) : l.Refers f :=
  (h.traces (.of_engagement hen)).refers hf

theorem Acts.traces (h : Acts R l l') (hf : R.Withholds l.engine f) : Traces f l l' := by
  induction h with
  | refl => exact .of_alike ⟨rfl, rfl, rfl⟩ fun _ hj => hj
  | tail h₀ h ih => exact ih.trans (h.traces (hf.grows (Acts.grows h₀)))

/-- What is called was referred to before, or was called before. -/
theorem Act.has_of_called (h : Act R l l') (hf : l'.called = some f) : l.Has f := by
  cases h with
  | @pop id j jobs hpop hj hc =>
    have hf : l.engine.calledBy j = some f := hf
    cases j with
    | reaction r v =>
      have hr : r.handler = some f := (Option.filter_eq_some_iff.1 hf).1
      exact .inl (.inr ⟨r, v, jobs_pop hpop ▸ List.mem_cons_self, hr⟩)
    | _ => cases hf
  | adopt => cases hf
  | lapse => cases hf
  | wake => cases hf
  | _ => exact .inr hf

theorem Act.has (h : Act R l l') (hen : l.engine.engagement? f = some x) (hf : l'.Has f) :
    l.Has f :=
  hf.elim (fun hf => .inl (h.refers hen hf)) h.has_of_called

/-- A function with a duty is what it was, unless its call has ended, or it is new and
for a single call. Then the duty may be moved. -/
inductive Ledger.Remains (R : Rights) (d : Duty) (l l' : Ledger H) (f : FunctionRef) : Prop where
  | same : f.index < l.engine.callables.size →
      l'.engine.callable f = l.engine.callable f → Remains R d l l' f
  | done : l.called = some f → l'.called = none → Remains R d l l' f
  | new : l.engine.callables.size ≤ f.index → (l'.engine.callable f).usage = .once →
      R.Drives d → Remains R d l l' f

namespace Ledger.Remains

theorem of_callables (hen : l'.engine.engagement? f = some x)
    (hc : l'.engine.callables = l.engine.callables) : Remains R x.1 l l' f := by
  refine .same (hc ▸ Engine.exists_of_engagement hen) ?_
  rw [Engine.callable, hc]
  rfl

/-- Effects create no functions with a duty, and use none up. -/
theorem effect {e' : Engine H} (he : l.engine.Effect R e')
    (hen : e'.engagement? f = some x) : Remains R x.1 l { l with engine := e' } f := by
  have hsame : e'.callables = l.engine.callables → Remains R x.1 l { l with engine := e' } f :=
    fun hc => of_callables hen hc
  cases he with
  | aside ha => exact hsame ha.callables
  | newPromise => exact hsame rfl
  | @newFunction c hc =>
    have hget := Engine.callable_newFunction l.engine c f
    have hne : f ≠ ⟨l.engine.callables.size⟩ := by
      rintro rfl
      rw [Engine.engagement?, hget, if_pos rfl, hc.engagement?] at hen
      cases hen
    rw [if_neg hne] at hget
    refine .same ?_ hget
    have hsize := Engine.exists_of_engagement hen
    simp only [Engine.newFunction, Store.size_push] at hsize
    exact Nat.lt_of_le_of_ne (Nat.le_of_lt_succ hsize) fun heq => hne (FunctionRef.index_inj.1 heq)
  | @spend g hg =>
    have hget := Engine.callable_spend l.engine g f
    have hne : f ≠ g := by
      rintro rfl
      rw [Engine.engagement?, hget, if_pos rfl] at hen
      have hen : l.engine.engagement? f = some x := hen
      rw [hg] at hen
      cases hen
    rw [if_neg hne] at hget
    refine .same (Engine.exists_of_engagement (x := x) ?_) hget
    rw [Engine.engagement?, ← hget]
    exact hen
  | decide hr hR hfate => exact hsame hfate.callables
  | performThen p hg hg' hc => exact hsame (Engine.callables_performThen _ p _ _ _)
  | callback label code => exact hsame rfl

/-- A wait makes two functions for a single call. -/
theorem engage {e : Engine H} {q : PromiseRef} {c c' : Callable H} {d : Duty}
    (hd : d.Engages c c') (he : e.callables = l.engine.callables)
    (hl' : l'.engine = e.engage q c c') (hen : l'.engine.engagement? f = some x)
    (hR : R.Drives d) : Remains R x.1 l l' f := by
  have hc : l'.engine.callables = ((e.newFunction c).2.newFunction c').2.callables := by
    rw [hl']
    exact Engine.callables_performThen _ q _ _ _
  have hget : l'.engine.callable f = ((e.newFunction c).2.newFunction c').2.callable f := by
    rw [Engine.callable, hc]
    rfl
  have hsize := Engine.exists_of_engagement hen
  by_cases hf : f.index < l.engine.callables.size
  · have hf' : f.index < e.callables.size := he ▸ hf
    refine .same hf (hget.trans ?_)
    rw [Engine.callable_newFunction, if_neg, Engine.callable_newFunction, if_neg, Engine.callable,
      he]
    · rfl
    · rintro rfl
      exact hf'.ne rfl
    · rintro rfl
      simp [Engine.newFunction] at hf'
  · obtain ⟨hnew, hnew'⟩ := callable_newFunctions e c c'
    have hcases : f = (e.newFunction c).1 ∨ f = ((e.newFunction c).2.newFunction c').1 := by
      rw [← he] at hf
      rw [hc] at hsize
      simp only [Engine.newFunction, Store.size_push, ← FunctionRef.index_inj] at hsize ⊢
      omega
    have hduty : ∀ {kind c₀}, l'.engine.callable f = c₀ → c₀.code.engagement? = some (d, kind) →
        R.Drives x.1 := by
      rintro kind c₀ rfl hcode
      rw [Engine.engagement?, hcode] at hen
      exact Option.some.inj hen ▸ hR
    rcases hcases with rfl | rfl
    · have hfun := hget.trans hnew
      exact .new (Nat.le_of_not_lt hf) (hfun ▸ hd.once) (hduty hfun hd.fulfill)
    · have hfun := hget.trans hnew'
      exact .new (Nat.le_of_not_lt hf) (hfun ▸ hd.once') (hduty hfun hd.reject)

end Ledger.Remains

theorem Act.remains (h : Act R l l') (hen : l'.engine.engagement? f = some x) :
    Ledger.Remains R x.1 l l' f := by
  cases h with
  | effect he => exact .effect he hen
  | @attach id p q jobs hpop =>
    exact .engage (e := { l.engine with jobs }) (Engine.engages_adopt p) rfl rfl hen trivial
  | @adopt g p kind e e' hg hcode hu ha hfate =>
    by_cases hne : f = g
    · exact .done (hne ▸ hg) rfl
    · have hget : e'.callable f = l.engine.callable f := by
        rw [Engine.callable, hfate.callables, ← Engine.callable, ha.callable,
          Engine.callable_used, if_neg hne]
      refine .same (Engine.exists_of_engagement (x := x) ?_) hget
      rw [Engine.engagement?, ← hget]
      exact hen
  | @wake g d kind hg hx hd hu =>
    by_cases hne : f = g
    · exact .done (hne ▸ hg) rfl
    · have hget := (l.engine.callable_used g f).trans (if_neg hne)
      refine .same (Engine.exists_of_engagement (x := x) ?_) hget
      rw [Engine.engagement?, ← hget]
      exact hen
  | engage hs hd hR => exact .engage hd rfl rfl hen hR
  | @answer a r rest s kind v hs ha hb hv =>
    refine .of_callables hen ?_
    cases hres : ((l.engine.setAsyncState a s).promise r.capability).resolved with
    | true => rw [Engine.settle_of_resolved hres]; rfl
    | false =>
      rw [Engine.settle_of_unresolved hres hv, Engine.callables_settleNow]
      rfl
  | _ => exact .of_callables hen rfl

/-- A duty that is owed once, by a function that is being called, is not in anything
that could be called later. -/
theorem Ledger.Sound.not_refers_of_called (hs : l.Sound) {d : Duty} {kind kind' : Settling}
    {g : FunctionRef} (hf : l.called = some f) (hen : l.engine.engagement? f = some (d, kind))
    (hle : l.owed d ≤ 1) (hg : l.engine.engagement? g = some (d, kind')) : ¬ l.Refers g := by
  obtain ⟨h₁, ho⟩ := hs.uncall hf hen
  have hzero : ({ l with called := none } : Ledger H).owed d = 0 := by
    have hd := ho d
    rw [if_pos rfl] at hd
    omega
  exact h₁.not_refers (l := { l with called := none }) hg hzero

/-- What is not owed cannot be called. -/
theorem Ledger.Sound.unspent_of_owed (hs : l.Sound) {d : Duty} (h₀ : l.owed d = 0) :
    l.Unspent d := by
  rintro g kind hen (hg | hg)
  · exact absurd hg (hs.not_refers hen h₀)
  · exact absurd h₀ (owed_pos_of_called hg hen).ne'

/-- **What can be called has not been used up**, as long as its duty is owed once. -/
theorem Act.unspent (h : Act R l l') (hs : l.Sound) {d : Duty} (hle : l.owed d ≤ 1)
    (hl : l.Unspent d) : l'.Unspent d := by
  intro f kind hen hf
  have hold : f.index < l.engine.callables.size → l.engine.engagement? f = some (d, kind) :=
    fun hsize => (h.grows.engagement? hsize).symm.trans hen
  cases h.remains hen with
  | same hsize hsame =>
    rw [hsame]
    exact hl f kind (hold hsize) (h.has (hold hsize) hf)
  | done hcalled hnone =>
    obtain ⟨y, hy⟩ := Option.isSome_iff_exists.1 (hs.called f hcalled).1
    have hen₀ := hold (Engine.exists_of_engagement hy)
    have hf : l'.Refers f := hf.resolve_right (by rw [hnone]; exact nofun)
    exact absurd (h.refers hen₀ hf) (hs.not_refers_of_called hcalled hen₀ hle hen₀)
  | new _ honce => exact honce

/-- **What can be called for a duty that stays where it is** could be called before. -/
theorem Act.had (h : Act R l l') (hs : l.Sound) {d : Duty} {kind : Settling} (hd : ¬ R.Drives d)
    (hen : l'.engine.engagement? f = some (d, kind)) (hf : l'.Has f) :
    l.Has f ∧ (l'.engine.callable f).code = (l.engine.callable f).code := by
  have hold : f.index < l.engine.callables.size := by
    cases h.remains hen with
    | same hsize => exact hsize
    | done hcalled =>
      obtain ⟨y, hy⟩ := Option.isSome_iff_exists.1 (hs.called f hcalled).1
      exact Engine.exists_of_engagement hy
    | new _ _ hR => exact absurd hR hd
  exact ⟨h.has ((h.grows.engagement? hold).symm.trans hen) hf, h.grows.code f hold⟩

/-- Effects move no duty but those of adoptions, and use up no callback of another one. -/
theorem Ledger.Sound.effects (hs : l.Sound) {e' : Engine H} (he : l.engine.Effects R e') :
    ({ l with engine := e' } : Ledger H).Sound ∧ ∀ d, (∀ p, d ≠ .adopt p) →
      ({ l with engine := e' } : Ledger H).owed d = l.owed d ∧
        (l.owed d ≤ 1 → l.Unspent d → ({ l with engine := e' } : Ledger H).Unspent d) := by
  induction he with
  | refl => exact ⟨hs, fun d _ => ⟨rfl, fun _ hu => hu⟩⟩
  | @tail e₁ e₂ _ he ih =>
    obtain ⟨h₁, ho₁⟩ := ih
    obtain ⟨h₂, ho₂⟩ := h₁.effect he
    refine ⟨h₂, fun d hd => ?_⟩
    obtain ⟨howed, hunspent⟩ := ho₁ d hd
    have hact : Act R ({ l with engine := e₁ } : Ledger H) { l with engine := e₂ } := .effect he
    exact ⟨(ho₂ d hd).trans howed,
      fun hle hu => hact.unspent h₁ (howed.trans_le hle) (hunspent hle hu)⟩

end Acts

end Microtask
