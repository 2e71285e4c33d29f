import Microtask.Proofs.Callers
import Microtask.Proofs.Promise.Capability
import Microtask.Proofs.Promise.Listeners
import Microtask.Proofs.Promise.Resolving

/-!
# Derived promises

The promise that `then` answers with is open as long as the registration that it is the
capability of waits in the other promise or has its job (`World.Attached`). When that job is run,
the promise is resolved with what the other one has settled with, or a handler is called whose
result it waits for (`Step.attached`). So it is when it has just been made (`Run.attached`).
-/

namespace Microtask

variable {H : Type}

/-! ## Places -/

section Places

variable {w w' : World H} {m : Move H} {es : List (Event H)} {p c : PromiseRef} {r : Registration}

theorem eq_of_countP_le_one {α : Type} {P : α → Bool} {xs : List α} (h : xs.countP P ≤ 1) {a b : α}
    (ha : a ∈ xs) (hb : b ∈ xs) (hPa : P a = true) (hPb : P b = true) : a = b := by
  have hpos := List.countP_pos_iff.2 ⟨a, ha, hPa⟩
  obtain ⟨i, x, hx, -, honly⟩ := exists_index_of_countP_eq_one (Nat.le_antisymm h hpos)
  obtain ⟨j, hj⟩ := List.mem_iff_getElem?.1 ha
  obtain ⟨k, hk⟩ := List.mem_iff_getElem?.1 hb
  obtain rfl := (honly j a hj hPa).trans (honly k b hk hPb).symm
  exact Option.some.inj (hj.symm.trans hk)

/-- A registration that waits is a place of its capability. -/
theorem Engine.Stores.carriers_pos {e : Engine H} (h : e.Stores p r) (hr : r.capability = some c) :
    0 < e.carriers c := by
  have hcount : 0 < capabilityCount c (e.promise p).onFulfilled :=
    List.countP_pos_iff.2 ⟨_, h.reactions .fulfill, decide_eq_true hr⟩
  exact hcount.trans_le (Store.le_total (s := e.promises)
    (f := fun x : Promise => capabilityCount c x.onFulfilled) rfl p.index)

theorem World.jobCapabilityCount_pos {j : Job H} (hj : j ∈ w.jobs) (hc : j.capability? = some c) :
    0 < jobCapabilityCount c w.jobs :=
  List.countP_pos_iff.2 ⟨j, hj, decide_eq_true hc⟩

namespace World.Derived

variable (hw : w.Derived es c) (hent : ¬ Entrusted es c)
include hw hent

/-- There is one place at most in the promises, the jobs and on the control stack. -/
theorem places : w.config.engine.carriers c + jobCapabilityCount c w.jobs +
    w.config.control.callers.countP (·.capability? = some c) ≤ 1 := by
  rw [Control.count_callers]
  exact hw.carriers hent

theorem job_unique {j j' : Job H} (hj : j ∈ w.jobs) (hj' : j' ∈ w.jobs)
    (hc : j.capability? = some c) (hc' : j'.capability? = some c) : j = j' := by
  have hplaces := hw.places hent
  have hcount : w.jobs.countP (·.capability? = some c) ≤ 1 :=
    show jobCapabilityCount c w.jobs ≤ 1 by omega
  exact eq_of_countP_le_one hcount hj hj' (decide_eq_true hc) (decide_eq_true hc')

/-- A promise that waits in a registration is redeemed by no step. -/
theorem not_redeems_of_stores (hr : r.capability = some c) (hs : w.config.engine.Stores p r) :
    ¬ w.config.Redeems c := by
  have hplaces := hw.places hent
  have hpos := hs.carriers_pos hr
  intro hred
  cases hred with
  | @result result d hc =>
    have hcaller := Caller.countP_pos c (k := .reaction (some c) d) rfl
    rw [hc, Control.callers] at hplaces
    omega
  | @job d d' id j jobs hc hpop ht hp =>
    have hjob := World.jobCapabilityCount_pos (World.mem_jobs_of_pop hpop)
      (Job.capability_of_target hp)
    omega

/-- A promise that has its job is redeemed by running that. -/
theorem redeems_job {j : Job H} (hj : j ∈ w.jobs) (hr : j.capability? = some c)
    (hred : w.config.Redeems c) :
    c ∈ j.targets ∧ w.takes .tick = [j] ∧ ∃ d, w.config.control = .drain d := by
  cases hred with
  | @result result d hc =>
    have hplaces := hw.places hent
    have hpos := World.jobCapabilityCount_pos hj hr
    have hcaller := Caller.countP_pos c (k := .reaction (some c) d) rfl
    rw [hc, Control.callers] at hplaces
    omega
  | @job d d' id j' jobs hc hpop ht hp =>
    obtain rfl :=
      hw.job_unique hent (World.mem_jobs_of_pop hpop) hj (Job.capability_of_target hp) hr
    refine ⟨hp, ?_, d, hc⟩
    obtain ⟨kind, v, rfl⟩ := Job.exists_of_target hp
    -- the drain goes on with the job, so it has neither stopped at the limit nor ended
    have hdrain := congrArg Config.control ht
    obtain ⟨-, a, n, ht'⟩ | ⟨-, a, n, ht'⟩ | ⟨hnext, -⟩ := w.round hc
    · cases hdrain.symm.trans (congrArg Config.control ht')
    · cases hdrain.symm.trans (congrArg Config.control ht')
    · exact World.takes_of_pop hnext hpop

end World.Derived

end Places

/-! ## Stages -/

section Stages

variable {w w' : World H} {m : Move H} {es : List (Event H)} {p c : PromiseRef} {r : Registration}

/-- The promise is open, and the registration that it is the capability of waits in another
promise or has its job. -/
structure World.Attached (w : World H) (es : List (Event H)) (p : PromiseRef) (r : Registration)
    (c : PromiseRef) : Prop where
  derived : w.Derived es c
  capability : r.capability = some c
  place : w.config.engine.Stores p r ∨ ∃ kind v,
    (w.config.engine.promise p).state = kind.state v ∧ r.job kind v ∈ w.jobs

/-- The job of the registration has been run. -/
inductive World.Fired (w : World H) (es : List (Event H)) (p : PromiseRef) (r : Registration)
    (c : PromiseRef) : Prop where
  | called {kind : Settling} {v : Value} {f : FunctionRef} {d : Drain H} :
      (w.config.engine.promise p).state = kind.state v → r.handler kind = some f →
      w.Derived es c → w.config.control = .call f [v] (.reaction (some c) d) → Fired w es p r c
  | resolved {kind : Settling} {v : Value} :
      (w.config.engine.promise p).state = kind.state v → r.handler kind = none →
      w.config.engine.Resolves c kind v → Fired w es p r c

/-- The machine works when the host does not have the floor. -/
theorem Step.eq_tick (h : Step w m w') (hc : w.config.atHost = false) :
    m = .tick ∧ w' = ⟨w.config.tick, w.held⟩ := by
  cases h with
  | tick => exact ⟨rfl, rfl⟩
  | _ => cases hc

/-- The job that is run calls the handler, or it resolves the promise. -/
theorem World.Derived.fired {e : Engine H} (hw : w.Derived es c) (hrun : Run es w)
    (hr : r.capability = some c) {kind : Settling} {v : Value} {id : Nat} {d : Drain H}
    (he : e.promises = w.config.engine.promises) (hw' : w'.config = e.runJob id d (r.job kind v))
    (hs : (w'.config.engine.promise p).state = kind.state v)
    (hd : ∀ f, r.handler kind = some f → w'.Derived (⟨w, m⟩ :: es) c) :
    w'.Fired (⟨w, m⟩ :: es) p r c := by
  rw [r.runJob_job] at hw'
  cases hhandler : r.handler kind with
  | some f =>
    rw [Registration.fire, hhandler, hr] at hw'
    exact .called hs hhandler (hd f hhandler) (congrArg Config.control hw')
  | none =>
    rw [Registration.fire, hhandler, hr] at hw'
    refine .resolved hs hhandler ?_
    have hsame : ∀ x, e.promise x = w.config.engine.promise x := fun x => by
      rw [Engine.promise, he]
      rfl
    rw [hw']
    exact Engine.resolves_settle (hrun.grounded.same he) (fun x => by rw [hsame]; exact hrun.sane x)
      (by rw [hsame]; exact hw.unresolved) kind v

/-- **A promise that is attached stays so until its job is run**, and it is still open when the
job calls a handler. -/
theorem Step.fires (h : Step w m w') (hm : m.Lossless) (hrun : Run es w)
    (hw : w.Attached es p r c) (hleft : Untouched (⟨w, m⟩ :: es) c) :
    w'.Attached (⟨w, m⟩ :: es) p r c ∨ m = .tick ∧ ∃ kind v,
      (w.config.engine.promise p).state = kind.state v ∧ w.takes .tick = [r.job kind v] ∧
        ∀ f, r.handler kind = some f → w'.Derived (⟨w, m⟩ :: es) c := by
  obtain ⟨hd, hcap, hplace⟩ := hw
  have hbacked := Run.backed hrun
  have hent : ¬ Entrusted es c := hleft.tail.entrusts
  rcases hplace with hstores | ⟨kind, v, hs, hj⟩
  · have hd' := h.derived hm hrun hd hleft (hd.not_redeems_of_stores hent hcap hstores)
    rcases h.stores hbacked hstores with hstores' | ⟨kind, v, hs, hj⟩
    · exact .inl ⟨hd', hcap, .inl hstores'⟩
    · exact .inl ⟨hd', hcap, .inr ⟨kind, v, hs, List.mem_append_left _ hj⟩⟩
  · by_cases hred : w.config.Redeems c
    · right
      obtain ⟨htarget, htakes, d, hc⟩ := hd.redeems_job hent hj hcap hred
      obtain ⟨rfl, -⟩ := h.eq_tick (by rw [Config.atHost, hc])
      refine ⟨rfl, kind, v, hs, htakes, fun f hf => ?_⟩
      -- a job with a handler does not settle its capability at once
      have hjob : r.job kind v = (.reaction ⟨kind, some f, r.capability⟩ v : Job H) := by
        rw [Registration.job, Registration.reaction, hf]
      rw [hjob] at htarget
      cases htarget
    · have hd' := h.derived hm hrun hd hleft hred
      rcases h.keeps_job hm.clears hbacked hj with hj' | ⟨rfl, htakes⟩
      · exact .inl ⟨hd', hcap, .inr ⟨kind, v, h.keeps_state hrun.lawful hs, hj'⟩⟩
      · exact .inr ⟨rfl, kind, v, hs, htakes, fun _ _ => hd'⟩

/-- **A promise that is attached stays so until its job is run.** -/
theorem Step.attached (h : Step w m w') (hm : m.Lossless) (hrun : Run es w)
    (hw : w.Attached es p r c) (hleft : Untouched (⟨w, m⟩ :: es) c) :
    w'.Attached (⟨w, m⟩ :: es) p r c ∨ w'.Fired (⟨w, m⟩ :: es) p r c := by
  rcases h.fires hm hrun hw hleft with hw' | ⟨rfl, kind, v, hs, htakes, hd⟩
  · exact .inl hw'
  · obtain ⟨id, d, ht⟩ := World.tick_takes htakes
    exact .inr (hw.derived.fired hrun hw.capability (Chore.promises_apply _ _)
      (h.config_tick.trans ht) (h.keeps_state hrun.lawful hs) hd)

/-- As long as it is attached, nobody waits for a result to settle it with. -/
theorem World.Attached.uncalled (hw : w.Attached es p r c) (hent : ¬ Entrusted es c) :
    w.config.control.callers.countP (·.capability? = some c) = 0 := by
  have hplaces := hw.derived.places hent
  have hpos : 0 < w.config.engine.carriers c + jobCapabilityCount c w.jobs := by
    rcases hw.place with hs | ⟨kind, v, -, hj⟩
    · exact Nat.add_pos_left (hs.carriers_pos hw.capability) _
    · exact Nat.add_pos_right _ (World.jobCapabilityCount_pos hj hw.capability)
  omega

end Stages

/-! ## Promises that are made -/

section Made

variable {w w' : World H} {m : Move H} {es : List (Event H)} {e : Engine H} {p : PromiseRef}
  {f g : Option FunctionRef}

/-- No effect makes a request. -/
theorem Engine.Effects.queue {R : Rights} {e e' : Engine H} (h : Effects R e e')
    (a : AsyncGeneratorRef) : (e'.asyncGenerator a).queue = (e.asyncGenerator a).queue := by
  induction h with
  | refl => rfl
  | tail _ h ih => exact (h.asyncGenerator a).1.trans ih

theorem Rights.making_fresh (c : PromiseRef) : (Rights.making es c).Fresh e :=
  ⟨fun _ _ => trivial, fun _ _ => trivial, fun _ _ => trivial⟩

variable (hrun : Run es w)
  (heffects : Engine.Effects (Rights.making (⟨w, m⟩ :: es) ⟨e.promises.size⟩) w.config.engine e)
  (hf : Engine.AttachableHandler (Rights.making (⟨w, m⟩ :: es) ⟨e.promises.size⟩) e f)
  (hg : Engine.AttachableHandler (Rights.making (⟨w, m⟩ :: es) ⟨e.promises.size⟩) e g)
  (hw' : w'.ledger (requestsIn (⟨w, m⟩ :: es)) =
    { w.ledger (requestsIn es) with engine := (e.promiseThen p f g).2 })
include hrun heffects hf hg hw'

/-- A promise that has just been made has one place, in the registration that it has been made
for. -/
theorem Run.derived : w'.Derived (⟨w, m⟩ :: es) ⟨e.promises.size⟩ := by
  let c : PromiseRef := ⟨e.promises.size⟩
  let l := w.ledger (requestsIn es)
  have hl : l.Lawful := (Run.exclusive hrun).lawful
  have hthen := Engine.promiseThen_effects (p := p) (Rights.making_fresh c) hf hg
  have hacts₁ : Acts _ l { l with engine := e } := Acts.effects heffects
  have hacts := hacts₁.trans (Acts.effects (l := { l with engine := e }) hthen)
  have hunborn : w.Reserved es c none fun _ => False :=
    Run.reserved_unborn hrun heffects.grows.promises
  -- before it is made, there are no means of settling it
  have hallows : (Rights.making (⟨w, m⟩ :: es) c).Allows e c → Entrusted (⟨w, m⟩ :: es) c := by
    rintro (hown | hent)
    · exact absurd hown.1 (Nat.lt_irrefl _)
    · exact hent
  have hmeans : ({ l with engine := e } : Ledger H).Means (·.Foreign none) (¬ (fun _ => False) ·) c →
      Entrusted (⟨w, m⟩ :: es) c := by
    intro h
    rcases hacts₁.means h with h | h
    · exact (hunborn.means h).later _
    · exact hallows h
  have hengine : w'.config.engine = (e.promiseThen p f g).2 := congrArg Ledger.engine hw'
  refine ⟨?_, ?_, ⟨fun h => ?_, fun d hd hne => ?_, fun a r hr => ?_⟩, fun hent => ?_⟩
  · rw [hengine]
    refine lt_of_lt_of_le ?_ (Engine.grows_performThen e.newPromise.2 p f g (some c)).promises
    exact (Nat.lt_succ_self _).trans_eq (Store.size_push ..).symm
  · rw [hengine]
    refine (Engine.read_performThen e.newPromise.2 p f g (some c) Promise.resolved
      (fun _ _ _ => rfl) c).trans ?_
    rw [Engine.promise_newPromise, if_pos rfl]
  · rw [hw'] at h
    rcases h.performThen (l := { l with engine := e.newPromise.2 }) with h | ⟨hforeign, -⟩
    · exact hmeans ((Ledger.Means.newPromise (l := { l with engine := e }) h).mono
        fun d hd => hd.none)
    · exact absurd rfl hforeign
  · rw [hw']
    exact (hacts.passes (Rights.not_drives (Duty.ofStep_of_answers hd) fun hmove => hmove hd) id
      hl).1.owed.trans (hunborn.owed d hd nofun)
  · rw [hengine, hthen.queue, heffects.queue] at hr
    exact hunborn.queued a r hr
  · have hnone : ({ l with engine := e } : Ledger H).carriers c = 0 := by
      by_contra hpos
      exact hent (hmeans (Ledger.means_of_carriers nofun (Nat.pos_of_ne_zero hpos)))
    have hone := Ledger.carriers_performThen (c := c)
      (l := { l with engine := e.newPromise.2 }) p f g (some c)
    have hnew := Ledger.carriers_newPromise (c := c) (l := { l with engine := e })
    rw [if_pos rfl] at hone
    rw [hw']
    exact (hone.trans (by rw [hnew, hnone])).le

/-- **A promise that `then` answers with is attached.** -/
theorem Run.attached :
    w'.Attached (⟨w, m⟩ :: es) p ⟨f, g, some ⟨e.promises.size⟩⟩ ⟨e.promises.size⟩ := by
  refine ⟨Run.derived hrun heffects hf hg hw', rfl, ?_⟩
  have hengine : w'.config.engine = (e.promiseThen p f g).2 := congrArg Ledger.engine hw'
  rcases e.newPromise.2.registered_performThen p ⟨f, g, some ⟨e.promises.size⟩⟩ with
    h | ⟨kind, v, hs, hj⟩
  · exact .inl (hengine ▸ h)
  · refine .inr ⟨kind, v, hengine ▸ hs, List.mem_append_left _ ?_⟩
    rw [hengine]
    exact hj

end Made

end Microtask
