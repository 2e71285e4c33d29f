import Microtask.Proofs.Generator.Serving
import Microtask.Proofs.Means

/-!
# Requests are served in order

As long as the host does not settle the promise of a request itself, an async
generator answers its requests one after the other, in the order in which they
were made. The host may do so by an operation, or with means of settling the
promise that it has asked the engine for; the engine never hands such means out
unasked (`World.Orderly`).

Main statement: `Run.requests`.
-/

namespace Microtask

variable {H : Type}

/-! ## What the host settles itself -/

/-- The host has asked the engine to make means of settling the promise. -/
def Entrusted (es : List (Event H)) (p : PromiseRef) : Prop := ∃ ev ∈ es, p ∈ ev.move.entrusts

/-- In the course of some events the host settles a promise itself that was
unresolved: by an operation, or with means that it has asked for. -/
inductive HostSettles (p : PromiseRef) : List (Event H) → Prop where
  | operation {ev : Event H} {es : List (Event H)} :
      (ev.before.config.engine.promise p).resolved = false → p ∈ ev.move.settles →
      HostSettles p (ev :: es)
  | means {ev : Event H} {es : List (Event H)} :
      (ev.before.config.engine.promise p).resolved = false → p ∈ ev.before.targets ev.move →
      Entrusted (ev :: es) p → HostSettles p (ev :: es)
  | earlier {ev : Event H} {es : List (Event H)} : HostSettles p es → HostSettles p (ev :: es)

theorem Entrusted.later {es : List (Event H)} {p : PromiseRef} (h : Entrusted es p)
    (ev : Event H) : Entrusted (ev :: es) p := by
  obtain ⟨ev', hmem, hp⟩ := h
  exact ⟨ev', List.mem_cons_of_mem _ hmem, hp⟩

/-- A host that settles a promise itself names it in an operation. -/
theorem HostSettles.named {es : List (Event H)} {p : PromiseRef} (h : HostSettles p es) :
    ∃ ev ∈ es, p ∈ ev.move.settles ∨ p ∈ ev.move.entrusts := by
  induction h with
  | operation hr hp => exact ⟨_, List.mem_cons_self, .inl hp⟩
  | means hr hp he =>
    obtain ⟨ev, hev, hp⟩ := he
    exact ⟨ev, hev, .inr hp⟩
  | earlier _ ih =>
    obtain ⟨ev, hev, hp⟩ := ih
    exact ⟨ev, List.mem_cons_of_mem _ hev, hp⟩

/-- A host that names no promise settles none. -/
theorem not_hostSettles {es : List (Event H)}
    (h : ∀ ev ∈ es, ev.move.settles = [] ∧ ev.move.entrusts = []) (p : PromiseRef) :
    ¬ HostSettles p es := by
  intro hp
  obtain ⟨ev, hev, hnamed⟩ := hp.named
  obtain ⟨hsettles, hentrusts⟩ := h ev hev
  rw [hsettles, hentrusts] at hnamed
  rcases hnamed with hnamed | hnamed <;> cases hnamed

/-! ## Orderly worlds -/

/-- Means of settling are kept only of promises that do not answer a request, and of
those that the host has asked for means of. -/
def Ledger.Guarded (l : Ledger H) (entrusted : PromiseRef → Prop) : Prop :=
  ∀ p, l.Means (fun _ => True) (fun _ => True) p → (p.index < l.engine.promises.size ∧ ¬ l.Issued p) ∨ entrusted p

/-- The accounts of a world are in order after some events. -/
structure World.Orderly (w : World H) (es : List (Event H)) : Prop where
  backed : w.config.engine.Backed
  accounts : (w.ledger (requestsIn es)).Accounts
  guarded : (w.ledger (requestsIn es)).Guarded (Entrusted es)

namespace World.Orderly

variable {w w' : World H} {m : Move H} {es : List (Event H)}

/-- A step that makes a request. -/
theorem request (hw : w.Orderly es) (h : Step w m w') {a : AsyncGeneratorRef} {c : Completion}
    (hm : m.request? = some (a, c)) : w'.Orderly (⟨w, m⟩ :: es) := by
  obtain ⟨hserving, hledger⟩ := h.request hm (requestsIn es)
  have hissued : requestsIn (⟨w, m⟩ :: es) = w.issued (requestsIn es) m := rfl
  let R : Rights := { Rights.all with settle := fun _ => False, entrusted := fun _ => False }
  have hact := Act.request (R := R) a c trivial hserving
  refine ⟨h.backed hw.backed, ?_, fun p hp => ?_⟩
  · rw [hissued, hledger]
    exact hw.accounts.request a c hserving
  · rw [hissued, hledger] at hp ⊢
    rcases hact.means hp with hp | hp
    · refine (hw.guarded p hp).imp (fun hfree => ?_) (·.later _)
      refine ⟨hfree.1.trans_le hact.grows.promises, ?_⟩
      rintro ⟨x, hx, rfl⟩
      rcases List.mem_append.1 hx with hx | hx
      · exact hfree.2 ⟨x, hx, rfl⟩
      · rw [List.mem_singleton.1 hx] at hfree
        exact hfree.1.ne rfl
    · rcases hp with hp | hp
      · exact hp.2.elim
      · exact hp.elim

/-- A step that drops the jobs that wait. -/
theorem clear (hw : w.Orderly es) (h : Step w m w') (hm : m.clears = true) :
    w'.Orderly (⟨w, m⟩ :: es) := by
  obtain ⟨e, hledger, he, hgen, hj⟩ := h.clears hm (requestsIn es)
  have hissued : requestsIn (⟨w, m⟩ :: es) = w.issued (requestsIn es) m := rfl
  have hsub : ({ w.ledger (requestsIn es) with engine := e } : Ledger H).jobs.Sublist
      (w.ledger (requestsIn es)).jobs := by
    simp only [Ledger.jobs, hj, List.nil_append]
    exact List.sublist_append_right _ _
  refine ⟨h.backed hw.backed, ?_, fun p hp => ?_⟩
  · rw [hissued, hledger]
    refine hw.accounts.quiet (hw.accounts.lawful.drop he hj) (fun p => ?_) he.grows
      (.of_jobs he hgen hsub.subperm rfl rfl rfl rfl)
    rw [Engine.promise, Engine.promise, he.promises]
    exact .refl _
  · rw [hissued, hledger] at hp ⊢
    have hp' := hp.of_alike he (fun _ hjob => hsub.subset hjob) fun _ hd hp => .duty hd hp
    exact (hw.guarded p hp').imp (fun hfree => ⟨hfree.1.trans_le he.grows.promises, hfree.2⟩)
      (·.later _)

/-- A step that does neither, and does not settle the promise of a request for the
host. -/
theorem step (hw : w.Orderly es) (h : Step w m w') (hreq : m.request? = none)
    (hclears : m.clears = false)
    (hhost : ∀ x ∈ requestsIn es, ¬ HostSettles x.2.capability (⟨w, m⟩ :: es)) :
    w'.Orderly (⟨w, m⟩ :: es) := by
  have hissued : requestsIn (⟨w, m⟩ :: es) = requestsIn es := World.issued_eq hreq w _
  let l := w.ledger (requestsIn es)
  let R : Rights := { Rights.all with
    settle := fun p => ¬ l.Issued p
    entrusted := Entrusted (⟨w, m⟩ :: es)
    request := False }
  have hcovers : R.Covers w m := by
    refine { Rights.all_covers w m with
      fresh := ⟨fun q hq hiss => ?_, fun _ _ => trivial, fun _ _ => trivial⟩
      targets := fun p hp hres hiss => ?_
      entrusted := fun p hp => ⟨_, List.mem_cons_self, hp⟩
      request := fun hsome => ?_ }
    · exact absurd (hw.accounts.allocated q hiss) (Nat.not_lt_of_le hq)
    · -- whoever settles the promise of a request is the host
      obtain ⟨x, hx, rfl⟩ := hiss
      refine hhost x hx ?_
      by_cases hop : x.2.capability ∈ m.settles
      · exact .operation hres hop
      · rcases hw.guarded _ (w.means_of_target trivial hw.backed hp hop (fun _ => trivial)
          (fun _ _ => trivial) (fun _ _ => trivial) (requestsIn es)) with hfree | hentrusted
        · exact absurd ⟨x, hx, rfl⟩ hfree.2
        · exact .means hres hp (hentrusted.later _)
    · rw [hreq] at hsome
      cases hsome
  have hacts := h.acts hclears hcovers hw.backed (requestsIn es)
  rw [World.issued_eq hreq] at hacts
  have hboth : (w'.ledger (requestsIn es)).Accounts ∧
      (w'.ledger (requestsIn es)).issued = l.issued := by
    refine hacts.preserve (P := fun l' => l'.Accounts ∧ l'.issued = l.issued)
      (fun {l₁ l₂} ha hl₁ => ?_) ⟨hw.accounts, rfl⟩
    have hsame : ∀ p, l₁.Issued p → ¬ R.settle p := by
      intro p hp hnot
      rw [Ledger.Issued, hl₁.2] at hp
      exact hnot hp
    obtain ⟨hl₂, heq⟩ := ha.accounts hsame id hl₁.1
    exact ⟨hl₂, heq.trans hl₁.2⟩
  refine ⟨h.backed hw.backed, hissued ▸ hboth.1, fun p hp => ?_⟩
  rw [hissued] at hp ⊢
  rcases hacts.means hp with hp | hp
  · exact (hw.guarded p hp).imp (fun hfree => ⟨hfree.1.trans_le hacts.grows.promises, hfree.2⟩)
      (·.later _)
  · exact hp

end World.Orderly

/-! ## Runs -/

theorem World.orderly_start : ({} : World H).Orderly [] := by
  refine ⟨Run.backed .refl, ⟨Ledger.lawful_start, nofun, .nil, fun a => ?_⟩, fun p hp => ?_⟩
  · have hnew : (({} : World H).ledger []).engine.asyncGenerator a = {} :=
      Store.get_of_size_le (Nat.zero_le _)
    have hzero : ∀ r, (({} : World H).ledger []).owed (.serve a r) = 0 := fun _ => rfl
    refine ⟨[], [], ?_, nofun, ?_, ?_, fun _ _ => ?_, fun r hr => ?_, fun r => (hzero r).le.trans ?_⟩
    · show [] = ((({} : World H).ledger []).engine.asyncGenerator a).queue
      rw [hnew]
    · show ∀ r ∈ ((({} : World H).ledger []).engine.asyncGenerator a).queue, _
      rw [hnew]
      exact nofun
    · show 0 = if ((({} : World H).ledger []).engine.asyncGenerator a).state.isBusy then 1 else 0
      rw [hnew]
      rfl
    · show ((({} : World H).ledger []).engine.asyncGenerator a).queue = []
      rw [hnew]
    · have hr' : 0 < (({} : World H).ledger []).owed (.serve a r) := hr
      rw [hzero] at hr'
      cases hr'
    · exact Nat.zero_le _
  · exact absurd hp Ledger.not_means_start

theorem Run.orderly {es : List (Event H)} {w : World H} (h : Run es w)
    (hes : ∀ x ∈ requestsIn es, ¬ HostSettles x.2.capability es) : w.Orderly es := by
  induction h with
  | refl => exact World.orderly_start
  | @step es w₁ w₂ m h hs ih =>
    have hsub : ∀ x ∈ requestsIn es, x ∈ requestsIn (⟨w₁, m⟩ :: es) :=
      fun x hx => w₁.subset_issued m (requestsIn es) hx
    have hw := ih fun x hx hhost => hes x (hsub x hx) (.earlier hhost)
    cases hreq : m.request? with
    | some x => exact hw.request hs hreq
    | none =>
      cases hclears : m.clears with
      | true => exact hw.clear hs hclears
      | false => exact hw.step hs hreq hclears fun x hx => hes x (hsub x hx)

/-- **Requests are served in order**, as long as the host does not settle the promise
of one itself. At every point of a run, the requests that have been made of an async
generator are first some whose promises are settled, then one in flight if the
generator is busy, and then those in its queue, and none of these is settled. When
the host has the floor, requests wait in the queue only while the generator is busy. -/
theorem Run.requests {es : List (Event H)} {w : World H} (h : Run es w)
    (hes : ∀ x ∈ requestsIn es, ¬ HostSettles x.2.capability es) (a : AsyncGeneratorRef) :
    ∃ served flight,
      requestsOf a (requestsIn es) =
        served ++ flight ++ (w.config.engine.asyncGenerator a).queue ∧
      ((requestsOf a (requestsIn es)).map (·.capability)).Nodup ∧
      (∀ r ∈ served, (w.config.engine.promise r.capability).state ≠ .pending) ∧
      (∀ r ∈ flight ++ (w.config.engine.asyncGenerator a).queue,
        (w.config.engine.promise r.capability).state = .pending) ∧
      flight.length = (if (w.config.engine.asyncGenerator a).state.isBusy then 1 else 0) ∧
      (w.config.atHost = true → (w.config.engine.asyncGenerator a).state.isBusy = false →
        (w.config.engine.asyncGenerator a).queue = []) := by
  have hw := h.orderly hes
  obtain ⟨served, flight, ha⟩ := hw.accounts.account a
  refine ⟨served, flight, ha.requests, hw.accounts.nodup_capabilities a, ha.settled, fun r hr => ?_,
    ha.single, fun hhost => ha.waiting ?_⟩
  · exact (hw.accounts.lawful.sane r.capability).pending (ha.unresolved r hr)
  · obtain ⟨⟨e, control⟩, held⟩ := w
    cases control with
    | host h prompt => exact nofun
    | _ => cases hhost

/-- The world in which an async generator has been asked for a value, and for another
one from inside its own frame. -/
def reentrantWorld : World Unit :=
  let e : Engine Unit := (({} : Engine Unit).newAsyncGenerator (.host ())).2
  let e := (e.perform .main (.request ⟨0⟩ (.normal .undefined))).tick.tick.engine
  let inside : Activation Unit := .frame (.generator ⟨0⟩
    (.serving ⟨0⟩ ⟨.normal .undefined, ⟨0⟩⟩ (.promise ⟨0⟩) (.host .main)))
  ⟨(e.perform inside (.request ⟨0⟩ (.returning .undefined))).tick.tick, []⟩

theorem reentrantWorld_run :
    ∃ es, Run es reentrantWorld ∧
      requestsOf ⟨0⟩ (requestsIn es) =
        [⟨.normal .undefined, ⟨0⟩⟩, ⟨.returning .undefined, ⟨1⟩⟩] ∧
      ∀ ev ∈ es, ev.move.settles = [] ∧ ev.move.entrusts = [] := by
  let e : Engine Unit := (({} : Engine Unit).newAsyncGenerator (.host ())).2
  let e' := (e.perform .main (.request ⟨0⟩ (.normal .undefined))).tick.tick.engine
  let inside : Activation Unit := .frame (.generator ⟨0⟩
    (.serving ⟨0⟩ ⟨.normal .undefined, ⟨0⟩⟩ (.promise ⟨0⟩) (.host .main)))
  have h₁ : Step ({} : World Unit) (.perform (.newAsyncGenerator (.host ()))) _ :=
    .perform_free _ rfl rfl
  have h₂ := Steps.step (.step .refl h₁)
    (.perform_free (.request ⟨0⟩ (.normal .undefined)) rfl rfl)
  have h₄ := (h₂.step (.tick _ _)).step (.tick _ _)
  have h₅ : Step ⟨⟨e', .host inside (.resumed () (.normal .undefined))⟩, []⟩
      (.perform (.request ⟨0⟩ (.returning .undefined))) _ := .perform_free _ rfl rfl
  have h₇ := ((h₄.step h₅).step (.tick _ _)).step (.tick _ _)
  refine ⟨_, h₇, ?_, ?_⟩
  · decide +kernel
  · simp [Move.settles, Op.targets, Move.entrusts, Op.entrusts]

theorem Run.requests_reentrant :
    ∃ served flight,
      [⟨.normal .undefined, ⟨0⟩⟩, ⟨.returning .undefined, ⟨1⟩⟩] =
        served ++ flight ++ (reentrantWorld.config.engine.asyncGenerator ⟨0⟩).queue ∧
      (∀ r ∈ flight ++ (reentrantWorld.config.engine.asyncGenerator ⟨0⟩).queue,
        (reentrantWorld.config.engine.promise r.capability).state = .pending) ∧
      flight.length = 1 := by
  obtain ⟨es, hrun, hissued, hes⟩ := reentrantWorld_run
  obtain ⟨served, flight, hall, -, -, hpend, hsingle, -⟩ :=
    Run.requests hrun (fun x _ => not_hostSettles hes x.2.capability) ⟨0⟩
  have hbusy : (reentrantWorld.config.engine.asyncGenerator ⟨0⟩).state.isBusy = true := by
    decide +kernel
  rw [hissued] at hall
  rw [hbusy] at hsingle
  exact ⟨served, flight, hall, hpend, hsingle⟩

end Microtask
