import Microtask.Proofs.Places
import Microtask.Proofs.Promise.Chain
import Microtask.Proofs.Promise.Links

/-!
# Adoptions are neither lost nor doubled

The adoption of one promise by another waits in one place at a time: first in a
job of its own, then in a pair of callbacks on the adopted promise, and once that
has settled in the job of one of them (`World.Adopting`). As many adoptions are
owed as are due, and so there is one place for every promise that waits for
another one, and none for all others.

Main statement: `Run.adoptions`.
-/

namespace Microtask

variable {H : Type}

/-! ## Outstanding adoptions -/

namespace World

/-- The job or the reaction at a place is about the adoption by the promise. -/
def Carries (w : World H) (p : PromiseRef) : Place → Prop
  | .job i => ∃ j, w.jobs[i]? = some j ∧ w.config.engine.jobDuty? j = some (.adopt p)
  | .reaction q kind i => ∃ r, ((w.config.engine.promise q).reactions kind)[i]? = some r ∧
      w.config.engine.reactionDuty? r = some (.adopt p)

/-- The function settles the promise like the one that it adopts. -/
structure Adopts (w : World H) (p : PromiseRef) (kind : Settling) (f : FunctionRef) : Prop where
  code : (w.config.engine.callable f).code = .adopt p kind
  once : (w.config.engine.callable f).usage = .once

/-- **The only outstanding adoption by `p` is one of `q`.** -/
inductive Adopting (w : World H) (p q : PromiseRef) : Prop where
  /-- It waits in a job of its own. -/
  | waiting {i : Nat} :
      w.jobs[i]? = some (.adoption p q) → (∀ x, w.Carries p x ↔ x = .job i) → Adopting w p q
  /-- A pair of callbacks waits for the promise to settle. -/
  | attached {i : Nat} {f g : FunctionRef} :
      (w.config.engine.promise q).state = .pending →
      (w.config.engine.promise q).onFulfilled[i]? = some ⟨.fulfill, some f, none⟩ →
      (w.config.engine.promise q).onRejected[i]? = some ⟨.reject, some g, none⟩ →
      w.Adopts p .fulfill f → w.Adopts p .reject g →
      (∀ x, w.Carries p x ↔ ∃ kind, x = .reaction q kind i) → Adopting w p q
  /-- The promise has settled, and the job of one of the callbacks waits. -/
  | settled {i : Nat} {kind : Settling} {f : FunctionRef} {v : Value} :
      (w.config.engine.promise q).state = kind.state v →
      w.jobs[i]? = some (.reaction ⟨kind, some f, none⟩ v) → w.Adopts p kind f →
      (∀ x, w.Carries p x ↔ x = .job i) → Adopting w p q

variable {w : World H} {p : PromiseRef} {issued : List (AsyncGeneratorRef × Request)}

/-- What a handler with the duty to adopt is. -/
theorem adopts_of_bears {r : Reaction} (h : w.config.engine.Bears r (some (.adopt p))) :
    ∃ f, r = ⟨r.kind, some f, none⟩ ∧ w.Adopts p r.kind f := by
  obtain ⟨f, hf, he, hlive, hc⟩ := h
  have hcode := Ledger.code_of_engagement he
  refine ⟨f, ?_, hcode, hlive p r.kind hcode⟩
  cases r
  simp_all

theorem carries_iff {x : Place} : w.Carries p x ↔ w.Owes (.adopt p) x := by cases x <;> rfl

/-- An adoption that is owed by the jobs only waits in one of them. -/
theorem adopting_of_job (hs : (w.ledger issued).Sound) (hk : (w.ledger issued).LinkedAt p)
    (hreg : w.config.engine.registered (.adopt p) = 0)
    (hjob : w.config.engine.jobCount (.adopt p) w.jobs = 1) :
    ∃ q, (w.config.engine.promise p).following = some q ∧ w.Adopting p q := by
  obtain ⟨i, j, hi, hduty, hplaces⟩ := owes_job hs hreg hjob
  have hmem : j ∈ (w.ledger issued).jobs := List.mem_of_getElem? hi
  have hfits := hk.jobs j hmem hduty
  simp only [← carries_iff] at hplaces
  cases j with
  | adoption p' q =>
    cases hduty
    exact ⟨q, hfits, .waiting hi hplaces⟩
  | reaction r v =>
    obtain ⟨q, hq, hst⟩ := hfits
    obtain ⟨d, hb⟩ := hs.jobs _ hmem
    obtain rfl : d = some (.adopt p) := hb.reactionDuty?.symm.trans hduty
    obtain ⟨f, hr, ha⟩ := adopts_of_bears hb
    rw [hr] at hi
    exact ⟨q, hq, .settled hst hi ha hplaces⟩
  | callback label code => cases hduty

/-- An adoption that is owed by the promises only waits on one of them. -/
theorem adopting_of_reaction (hl : (w.ledger issued).Lawful) (hk : (w.ledger issued).LinkedAt p)
    (hreg : w.config.engine.registered (.adopt p) = 1)
    (hjob : w.config.engine.jobCount (.adopt p) w.jobs = 0) :
    ∃ q, (w.config.engine.promise p).following = some q ∧ w.Adopting p q := by
  obtain ⟨q, i, r, s, hr, hs, hpair, hduty, hplaces⟩ := owes_reaction hl.sound hreg hjob
  simp only [← carries_iff] at hplaces
  obtain ⟨d, hbr, hbs⟩ := hpair.bears
  obtain rfl : d = some (.adopt p) := hbr.reactionDuty?.symm.trans hduty
  obtain ⟨f, hrf, hf⟩ := adopts_of_bears hbr
  obtain ⟨g, hsg, hg⟩ := adopts_of_bears hbs
  rw [hpair.kind] at hrf hf
  rw [hpair.kind'] at hsg hg
  have hq : (w.config.engine.promise p).following = some q :=
    hk.reactions q .fulfill r (List.mem_of_getElem? hr) hduty
  have hpend := (hl.sane q).pending_of_reaction .fulfill (List.mem_of_getElem? hr)
  exact ⟨q, hq, .attached hpend (hrf ▸ hr) (hsg ▸ hs) hf hg hplaces⟩

end World

/-! ## Balance -/

/-- As many adoptions are owed as are due, and they fit the links. -/
structure Ledger.Balanced (l : Ledger H) : Prop where
  lawful : l.Lawful
  linked : l.Linked
  owed : ∀ p, l.owed (.adopt p) = (l.engine.promise p).adopts

theorem Act.balanced {R : Rights} {l l' : Ledger H} (h : Act R l l') (hl : l.Balanced) :
    l'.Balanced := by
  have hk := h.keeps hl.lawful
  refine ⟨hk.lawful, h.linked hl.lawful hl.linked, fun p => ?_⟩
  have hb := hk.balance p
  rw [hl.owed p] at hb
  omega

theorem Ledger.balanced_start : (({} : World H).ledger []).Balanced := by
  have hl : (({} : World H).ledger []).Lawful := Ledger.lawful_start
  have hnew : ∀ p, (({} : World H).ledger []).engine.promise p = {} :=
    fun p => Engine.promise_of_size_le (Nat.zero_le _)
  have hzero : ∀ p, (({} : World H).ledger []).owed (.adopt p) = 0 := by
    intro p
    have hle := hl.owed p
    rw [hnew, Promise.adopts_of_unresolved rfl] at hle
    omega
  refine ⟨hl, fun p => .of_owed hl.sound (hzero p), fun p => ?_⟩
  rw [hzero, hnew, Promise.adopts_of_unresolved rfl]

theorem Run.balanced {es : List (Event H)} {w : World H} (h : Run es w)
    (hes : ∀ ev ∈ es, ev.move.clears = false) : (w.ledger (requestsIn es)).Balanced := by
  induction h with
  | refl => exact Ledger.balanced_start
  | @step es w₁ w₂ m h hs ih =>
    have hm : m.clears = false := hes ⟨w₁, m⟩ List.mem_cons_self
    have hb := ih fun ev hev => hes ev (List.mem_cons_of_mem _ hev)
    exact (hs.acts hm (Rights.all_covers w₁ m) (Run.backed h) (requestsIn es)).preserve
      (P := Ledger.Balanced) (fun ha => ha.balanced) hb

/-! ## Outstanding adoptions along a run -/

/-- The fate of the promise is decided, but it has not settled. -/
def Promise.Locked (r : Promise) : Prop := r.state = .pending ∧ r.resolved = true

namespace Ledger.Balanced

variable {w : World H} {p : PromiseRef} {issued : List (AsyncGeneratorRef × Request)}
  (h : (w.ledger issued).Balanced)
include h

/-- A promise that is locked waits for one adoption. -/
theorem adopting (hc : w.config.control.called? w.config.engine = none)
    (hp : (w.config.engine.promise p).Locked) :
    ∃ q, (w.config.engine.promise p).following = some q ∧ w.Adopting p q := by
  have hs := h.lawful.sound
  have hdue : (w.config.engine.promise p).adopts = 1 := Promise.adopts_of_locked hp.1 hp.2
  obtain ⟨hreg, hjob⟩ | ⟨hreg, hjob⟩ := World.owed_one ((h.owed p).trans hdue)
    (World.uncalled_of_none hc _)
    (List.count_eq_zero.2 (hs.stack p))
  · exact World.adopting_of_job hs (h.linked p) hreg hjob
  · exact World.adopting_of_reaction h.lawful (h.linked p) hreg hjob

/-- No other promise waits for any. -/
theorem not_carries (hp : ¬ (w.config.engine.promise p).Locked) (x : World.Place) :
    ¬ w.Carries p x := by
  have hzero : (w.config.engine.promise p).adopts = 0 := if_neg hp
  rw [World.carries_iff]
  exact World.not_owes h.lawful.sound ((h.owed p).trans hzero) x

/-- The link of a promise that is locked leads to one that has not settled, when no
job waits. -/
theorem following_pending (hc : w.config.control.called? w.config.engine = none)
    (hj : w.jobs = []) (hp : (w.config.engine.promise p).Locked) {q : PromiseRef}
    (hq : (w.config.engine.promise p).following = some q) :
    (w.config.engine.promise q).state = .pending := by
  obtain ⟨t, ht, ha⟩ := h.adopting hc hp
  obtain rfl : q = t := Option.some.inj (hq.symm.trans ht)
  cases ha with
  | waiting hi => rw [hj] at hi; cases hi
  | attached hpend => exact hpend
  | settled hst hi => rw [hj] at hi; cases hi

/-- A chain that starts at a pending promise ends at one that nobody has resolved,
when no job waits. -/
theorem chain_end (hc : w.config.control.called? w.config.engine = none) (hj : w.jobs = [])
    {ps : List PromiseRef} (hps : w.config.engine.Ends p ps)
    (hp : (w.config.engine.promise p).state = .pending) :
    ∃ t, ps.getLast? = some t ∧ (w.config.engine.promise t).state = .pending ∧
      (w.config.engine.promise t).resolved = false := by
  have hsane : ∀ p, (w.config.engine.promise p).Sane := h.lawful.sane
  induction hps with
  | @stop p hnone =>
    refine ⟨p, rfl, hp, ?_⟩
    by_contra hr
    have hlink := (hsane p).locked hp (by simpa using hr)
    rw [hnone] at hlink
    cases hlink
  | @link p q ps hq hps ih =>
    have hr : (w.config.engine.promise p).resolved = true := by
      by_contra hr
      have hnone := (hsane p).undecided hp (by simpa using hr)
      rw [hnone] at hq
      cases hq
    obtain ⟨t, ht, hpend, hres⟩ := ih (h.following_pending hc hj ⟨hp, hr⟩ hq)
    exact ⟨t, by rw [List.getLast?_cons, ht]; rfl, hpend, hres⟩

end Ledger.Balanced

/-- **No adoption is lost or doubled** on a run that does not drop the jobs that
wait. Unless a callback with a duty is just being called, a promise whose fate is
decided but which has not settled has one outstanding adoption, of the promise that
it is linked to, and every other promise has none. So when no job waits, its chain
ends at a pending promise that nobody has resolved. -/
theorem Run.adoptions {es : List (Event H)} {w : World H} (h : Run es w)
    (hes : ∀ ev ∈ es, ev.move.clears = false)
    (hc : w.config.control.called? w.config.engine = none) (p : PromiseRef) :
    ((w.config.engine.promise p).Locked →
        ∃ q, (w.config.engine.promise p).following = some q ∧ w.Adopting p q) ∧
      (¬ (w.config.engine.promise p).Locked → ∀ x, ¬ w.Carries p x) ∧
      (w.jobs = [] → (w.config.engine.promise p).Locked →
        ∃ ps t, w.config.engine.Ends p ps ∧ ps.getLast? = some t ∧
          (w.config.engine.promise t).state = .pending ∧
          (w.config.engine.promise t).resolved = false) := by
  have hb := h.balanced hes
  refine ⟨hb.adopting hc, hb.not_carries, fun hj hp => ?_⟩
  obtain ⟨ps, hps⟩ := h.grounded p
  obtain ⟨t, ht, hpend, hres⟩ := hb.chain_end hc hj hps hp.1
  exact ⟨ps, t, hps, ht, hpend, hres⟩

/-- A drain that leaves a promise waiting for one that nobody has resolved. -/
theorem Run.adoptions_drained :
    let e : Engine Unit := (({} : Engine Unit).newPromise.2.newPromise.2).resolve ⟨0⟩ (.promise ⟨1⟩)
    let w : World Unit := ⟨(e.runJobs .main).tick.tick, []⟩
    (w.config.engine.promise ⟨0⟩).Locked ∧
      (∃ q, (w.config.engine.promise ⟨0⟩).following = some q ∧ w.Adopting ⟨0⟩ q) ∧
      (∀ x, ¬ w.Carries ⟨1⟩ x) ∧
      ∃ ps t, w.config.engine.Ends ⟨0⟩ ps ∧ ps.getLast? = some t ∧
        (w.config.engine.promise t).state = .pending ∧
        (w.config.engine.promise t).resolved = false := by
  intro e w
  have h₁ : Step ({} : World Unit) (.perform .newPromise) _ := .perform_free _ rfl rfl
  have h₂ := Steps.step (.step .refl h₁) (.perform_free .newPromise rfl rfl)
  have h₃ := h₂.step (.perform_free (.resolve ⟨0⟩ (.promise ⟨1⟩)) rfl rfl)
  have h₄ := h₃.step (.perform_free .runJobs rfl rfl)
  have h₆ := (h₄.step (.tick _ _)).step (.tick _ _)
  have hlocked : (w.config.engine.promise ⟨0⟩).Locked := ⟨rfl, rfl⟩
  have hopen : ¬ (w.config.engine.promise ⟨1⟩).Locked := nofun
  have h := Run.adoptions h₆ (by simp [Move.clears, Op.clears]) rfl
  exact ⟨hlocked, (h ⟨0⟩).1 hlocked, (h ⟨1⟩).2.1 hopen, (h ⟨0⟩).2.2 rfl hlocked⟩

end Microtask
