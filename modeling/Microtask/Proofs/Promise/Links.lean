import Microtask.Proofs.Promise.Chain
import Microtask.Proofs.Promise.Lifecycle

/-!
# Adoptions fit the links

A job or a callback of an adoption is about the promise that the link names: the
job of the adoption itself attaches to it, the callbacks are registered on it, and
the job of a callback passes its settlement on (`Ledger.Linked`). Every act keeps
it so. A link that is new comes with a job of its own, and is only made where
nothing is left of an adoption before.

Main statement: `Act.linked`.
-/

namespace Microtask

variable {H : Type}

/-! ## Adoptions fit the links -/

namespace Ledger

/-- A job fits the link of a promise. -/
def Fits (e : Engine H) (p : PromiseRef) : Job H → Prop
  | .adoption _ q => (e.promise p).following = some q
  | .reaction r v => ∃ q, (e.promise p).following = some q ∧ (e.promise q).state = r.kind.state v
  | .callback _ _ => True

/-- The adoptions of a promise are about the promise that it is linked to. -/
structure LinkedAt (l : Ledger H) (p : PromiseRef) : Prop where
  jobs : ∀ j ∈ l.jobs, l.engine.jobDuty? j = some (.adopt p) → Fits l.engine p j
  reactions : ∀ q kind, ∀ r ∈ (l.engine.promise q).reactions kind,
    l.engine.reactionDuty? r = some (.adopt p) → (l.engine.promise p).following = some q

def Linked (l : Ledger H) : Prop := ∀ p, l.LinkedAt p

variable {l l' : Ledger H} {p : PromiseRef}

/-- Where nothing is owed, there is nothing to fit. -/
theorem LinkedAt.of_owed (hs : l.Sound) (h : l.owed (.adopt p) = 0) : l.LinkedAt p :=
  ⟨fun j hj hd => absurd hd ((hs.not_owed h).1 j hj),
    fun q kind r hr hd => absurd hd ((hs.not_owed h).2 q kind r hr)⟩

/-- A change that keeps the link of the promise, and where what is new fits. -/
theorem LinkedAt.mono (h : l.LinkedAt p) (hs : l.Sound) (hg : l.engine.Grows l'.engine)
    (hf : (l'.engine.promise p).following = (l.engine.promise p).following)
    (hst : ∀ q, (l.engine.promise q).state ≠ .pending →
      (l'.engine.promise q).state = (l.engine.promise q).state)
    (hj : ∀ j ∈ l'.jobs, j ∈ l.jobs ∨
      (l'.engine.jobDuty? j = some (.adopt p) → Fits l'.engine p j))
    (hr : ∀ q kind, ∀ r ∈ (l'.engine.promise q).reactions kind,
      r ∈ (l.engine.promise q).reactions kind ∨
        (l'.engine.reactionDuty? r = some (.adopt p) →
          (l'.engine.promise p).following = some q)) : l'.LinkedAt p := by
  refine ⟨fun j hjob hd => ?_, fun q kind r hmem hd => ?_⟩
  · rcases hj j hjob with hold | hnew
    · have hsound := hs.jobs j hold
      cases j with
      | reaction r v =>
        obtain ⟨d, hb⟩ := hsound
        have hd' : l.engine.jobDuty? (.reaction r v) = some (.adopt p) :=
          (hb.reactionDuty?_eq hg).symm.trans hd
        obtain ⟨q, hq, hv⟩ := h.jobs _ hold hd'
        refine ⟨q, hf.trans hq, (hst q ?_).trans hv⟩
        rw [hv]
        cases r.kind <;> simp [Settling.state]
      | adoption p' q => exact hf.trans (h.jobs _ hold hd)
      | callback label code => trivial
    · exact hnew hd
  · rcases hr q kind r hmem with hold | hnew
    · obtain ⟨-, d, hb⟩ := hs.paired.bears hold
      exact hf.trans (h.reactions q kind r hold ((hb.reactionDuty?_eq hg).symm.trans hd))
    · exact hnew hd

/-- Jobs and duties move. -/
theorem Linked.of_promises (h : l.Linked) (hs : l.Sound) (hg : l.engine.Grows l'.engine)
    (hp : ∀ p, l'.engine.promise p = l.engine.promise p) (hj : ∀ j ∈ l'.jobs, j ∈ l.jobs) :
    l'.Linked :=
  fun p => (h p).mono hs hg (by rw [hp]) (fun q _ => by rw [hp]) (fun j hjob => .inl (hj j hjob))
    fun q kind r hr => .inl (by rw [hp] at hr; exact hr)

/-- A promise settles to which no adoption is owed any more. The reactions that
become jobs now were attached to it. -/
theorem Linked.settleNow (h : l.Linked) (hs : l.Sound)
    (hpend : (l.engine.promise p).state = .pending) (hzero : l.owed (.adopt p) = 0)
    (kind : Settling) (v : Value) :
    ({ l with engine := l.engine.settleNow p kind v } : Ledger H).Linked := by
  intro q
  have hg := Engine.grows_settleNow l.engine p kind v
  have hprom := Engine.promise_settleNow hpend kind v
  by_cases hq : q = p
  · obtain ⟨hs', ho⟩ := hs.settleNow p kind v
    exact .of_owed hs' (by rw [ho, hq, hzero])
  · have hlink : ((l.engine.settleNow p kind v).promise q).following =
        (l.engine.promise q).following := by
      rw [hprom, if_neg hq]
    refine (h q).mono hs hg hlink (fun t ht => ?_) (fun j hj => ?_)
      fun t kind' r hr => .inl (Engine.mem_reactions_settleNow hpend hr)
    · show ((l.engine.settleNow p kind v).promise t).state = _
      rw [hprom, if_neg]
      rintro rfl
      exact ht hpend
    · rcases mem_jobs_append (Engine.waitingJobs_settleNow hpend kind v) hj with hj | hj
      · exact .inl hj
      · obtain ⟨r, hr, rfl⟩ := List.mem_map.1 hj
        obtain ⟨hkind, d, hb⟩ := hs.paired.bears hr
        refine .inr fun hd => ⟨p, ?_, ?_⟩
        · have hd' : l.engine.reactionDuty? r = some (.adopt q) :=
            (hb.reactionDuty?_eq hg).symm.trans hd
          exact hlink.trans ((h q).reactions p kind r hr hd')
        · show ((l.engine.settleNow p kind v).promise p).state = _
          rw [hprom, if_pos rfl, hkind]
          rfl

/-- A promise is linked to which no adoption is owed. -/
theorem Linked.link (h : l.Linked) (hs : l.Sound) (hzero : l.owed (.adopt p) = 0)
    (t : PromiseRef) : ({ l with engine := l.engine.link p t } : Ledger H).Linked := by
  intro q
  have hprom := Engine.promise_link l.engine p t
  have hjobs : ∀ j ∈ ({ l with engine := l.engine.link p t } : Ledger H).jobs,
      j ∈ l.jobs ∨ j = .adoption p t :=
    fun j hj => (mem_jobs_append (Engine.waitingJobs_link l.engine p t) hj).imp id
      List.mem_singleton.1
  have hreact := Engine.reactions_link l.engine p t
  by_cases hq : q = p
  · subst hq
    obtain ⟨hnojob, hnoreact⟩ := hs.not_owed hzero
    refine ⟨fun j hj hd => ?_, fun s kind r hr hd => ?_⟩
    · rcases hjobs j hj with hold | rfl
      · exact absurd hd (hnojob j hold)
      · show ((l.engine.link q t).promise q).following = some t
        rw [hprom, if_pos rfl]
    · exact absurd hd (hnoreact s kind r (hreact s kind ▸ hr))
  · refine (h q).mono hs (Engine.grows_link _ p t) ?_ (fun s _ => ?_) (fun j hj => ?_)
      fun s kind r hr => .inl (hreact s kind ▸ hr)
    · show ((l.engine.link p t).promise q).following = _
      rw [hprom, if_neg hq]
    · show ((l.engine.link p t).promise s).state = _
      rw [hprom]
      split
      · next hsp => rw [hsp]
      · rfl
    · rcases hjobs j hj with hold | rfl
      · exact .inl hold
      · refine .inr fun hd => absurd hd ?_
        simpa [Engine.jobDuty?] using Ne.symm hq

/-- The fate of a promise is decided to which no adoption is owed any more. -/
theorem Linked.fate (h : l.Linked) (hs : l.Sound) (hpend : (l.engine.promise p).state = .pending)
    (hzero : l.owed (.adopt p) = 0) {e' : Engine H} (hf : l.engine.Fate p e') :
    ({ l with engine := e' } : Ledger H).Linked := by
  cases hf with
  | settled kind v => exact h.settleNow hs hpend hzero kind v
  | @adopts t ht => exact h.link hs hzero t

/-- Attaching two reactions with the same duty to a promise, or with none. -/
theorem Linked.performThen (h : l.Linked) (hs : l.Sound) (q : PromiseRef)
    {f g : Option FunctionRef} {capability : Option PromiseRef} {d : Option Duty}
    (hf : l.engine.Bears ⟨.fulfill, f, capability⟩ d)
    (hg : l.engine.Bears ⟨.reject, g, capability⟩ d)
    (hd : ∀ p, d = some (.adopt p) → (l.engine.promise p).following = some q) :
    ({ l with engine := l.engine.performThen q f g capability } : Ledger H).Linked := by
  have hgrow := Engine.grows_performThen l.engine q f g capability
  let e' := l.engine.performThen q f g capability
  have hfields : ∀ s, (e'.promise s).following = (l.engine.promise s).following ∧
      (e'.promise s).state = (l.engine.promise s).state := by
    intro s
    rw [Engine.promise_performThen]
    split
    · next hs =>
      obtain ⟨h₁, -, h₂, -⟩ := Promise.attach_fields (r := l.engine.promise q) f g capability
      rw [hs]
      exact ⟨h₂, h₁⟩
    · exact ⟨rfl, rfl⟩
  have hnew : ∀ p, (e'.reactionDuty? ⟨.fulfill, f, capability⟩ = some (.adopt p) ∨
      e'.reactionDuty? ⟨.reject, g, capability⟩ = some (.adopt p)) →
      (e'.promise p).following = some q := by
    intro p hp
    rw [hf.reactionDuty?_eq hgrow, hg.reactionDuty?_eq hgrow, hf.reactionDuty?,
      hg.reactionDuty?] at hp
    rw [(hfields p).1]
    exact hd p (by tauto)
  intro p
  refine (h p).mono hs hgrow (hfields p).1 (fun s _ => (hfields s).2) (fun j hj => ?_)
    fun s kind r hr => ?_
  · rcases mem_jobs_append (Engine.waitingJobs_performThen _ q f g capability) hj with hj | hj
    · exact .inl hj
    · -- the promise has settled, and the matching reaction is queued at once
      refine .inr fun hdj => ?_
      obtain ⟨v, hv, rfl⟩ | ⟨v, hv, rfl⟩ := Promise.mem_attachJobs hj
      · exact ⟨q, hnew p (.inl hdj), (hfields q).2.trans hv⟩
      · exact ⟨q, hnew p (.inr hdj), (hfields q).2.trans hv⟩
  · obtain hold | ⟨rfl, rfl | rfl⟩ := Engine.mem_reactions_performThen hr
    · exact .inl hold
    · exact .inr fun hdr => hnew p (.inl hdr)
    · exact .inr fun hdr => hnew p (.inr hdr)

/-- Waiting for a promise. -/
theorem Linked.engage (h : l.Linked) (hs : l.Sound) (q : PromiseRef) {d : Duty} {c c' : Callable H}
    (hd : d.Engages c c') (hq : ∀ p, d = .adopt p → (l.engine.promise p).following = some q) :
    ({ l with engine := l.engine.engage q c c' } : Ledger H).Linked := by
  obtain ⟨h₁, -⟩ := hs.newFunction (c := c) fun _ _ _ => hd.once
  obtain ⟨h₂, -⟩ := h₁.newFunction (c := c') fun _ _ _ => hd.once'
  have hl₂ : ({ l with engine := ((l.engine.newFunction c).2.newFunction c').2 } :
      Ledger H).Linked :=
    h.of_promises hs ((Engine.grows_newFunction _ c).trans (Engine.grows_newFunction _ c'))
      (fun _ => rfl) fun _ hj => hj
  obtain ⟨hf, hg, -⟩ := engages_bears l.engine hd
  refine hl₂.performThen h₂ q hf hg fun p hp => ?_
  cases hp
  exact hq p rfl

theorem Linked.newPromise (h : l.Linked) (hs : l.Sound) :
    ({ l with engine := l.engine.newPromise.2 } : Ledger H).Linked := by
  have hp := Engine.promise_newPromise l.engine
  have hnew : l.engine.promise ⟨l.engine.promises.size⟩ = {} :=
    Engine.promise_of_size_le le_rfl
  refine fun p => (h p).mono hs (Engine.grows_newPromise _) ?_ (fun q hq => ?_)
    (fun j hj => .inl hj) fun q kind r hr =>
      .inl (Engine.reactions_newPromise l.engine q kind ▸ hr)
  · show (l.engine.newPromise.2.promise p).following = _
    rw [hp]
    split
    · next heq => rw [heq, hnew]
    · rfl
  · show (l.engine.newPromise.2.promise q).state = _
    rw [hp, if_neg]
    rintro rfl
    rw [hnew] at hq
    exact hq rfl

theorem Linked.lock (h : l.Linked) (hs : l.Sound) (p : PromiseRef) :
    ({ l with engine := l.engine.lock p } : Ledger H).Linked := by
  have hp := Engine.promise_lock l.engine p
  refine fun q => (h q).mono hs (Engine.grows_lock _ p) ?_ (fun s _ => ?_)
    (fun j hj => .inl hj) fun s kind r hr =>
      .inl (Engine.reactions_lock l.engine p s kind ▸ hr)
  · show ((l.engine.lock p).promise q).following = _
    rw [hp]
    split
    · next hq => rw [hq]
    · rfl
  · show ((l.engine.lock p).promise s).state = _
    rw [hp]
    split
    · next hs => rw [hs]
    · rfl

theorem Linked.callback (h : l.Linked) (hs : l.Sound) (label : String) (code : H) :
    ({ l with engine := l.engine.enqueue (.callback label code) } : Ledger H).Linked := by
  refine fun p => (h p).mono hs (.of_eq rfl rfl rfl) rfl (fun _ _ => rfl) (fun j hj => ?_)
    fun _ _ _ hr => .inl hr
  rcases mem_jobs_append (Engine.waitingJobs_enqueue _ _) hj with hj | hj
  · exact .inl hj
  · refine .inr fun _ => ?_
    rw [List.mem_singleton.1 hj]
    trivial

theorem Linked.effect {R : Rights} (h : l.Linked) (hl : l.Lawful) {e' : Engine H}
    (he : l.engine.Effect R e') : ({ l with engine := e' } : Ledger H).Linked := by
  cases he with
  | aside ha =>
    refine h.of_promises hl.sound ha.grows ha.promise fun j hj => ?_
    rw [Ledger.jobs, ha.waitingJobs] at hj
    exact hj
  | newPromise => exact h.newPromise hl.sound
  | newFunction hc =>
    exact h.of_promises hl.sound (Engine.grows_newFunction _ _) (fun _ => rfl) fun _ hj => hj
  | spend hf =>
    exact h.of_promises hl.sound (Engine.grows_spend _ _) (fun _ => rfl) fun _ hj => hj
  | @decide _ p hr hR hfate =>
    obtain ⟨hs, ho⟩ := hl.sound.lock p
    have hzero : ({ l with engine := l.engine.lock p } : Ledger H).owed (.adopt p) = 0 := by
      have hle := hl.owed p
      rw [Promise.adopts_of_unresolved hr] at hle
      rw [ho]
      omega
    have hpend : ((l.engine.lock p).promise p).state = .pending := by
      rw [Engine.promise_lock, if_pos rfl]
      exact (hl.sane p).pending hr
    exact (h.lock hl.sound p).fate hs hpend hzero hfate
  | @performThen p f g capability hf hg hc =>
    exact h.performThen hl.sound p (d := none) hf hg fun _ hd => by cases hd
  | callback label code => exact h.callback hl.sound label code

theorem Linked.effects {R : Rights} (h : l.Linked) (hl : l.Lawful) {e' : Engine H}
    (he : l.engine.Effects R e') : ({ l with engine := e' } : Ledger H).Linked := by
  have hboth : ({ l with engine := e' } : Ledger H).Linked ∧
      ({ l with engine := e' } : Ledger H).Lawful := by
    induction he with
    | refl => exact ⟨h, hl⟩
    | tail _ he ih => exact ⟨ih.1.effect ih.2 he, (Keeps.effect ih.2 he).lawful⟩
  exact hboth.1

end Ledger

open Ledger in
/-- Every act keeps adoptions fitting the links. -/
theorem Act.linked {R : Rights} {l l' : Ledger H} (h : Act R l l') (hlaw : l.Lawful)
    (hl : l.Linked) : l'.Linked := by
  have hs := hlaw.sound
  cases h with
  | effect he => exact hl.effect hlaw he
  | @pop id j jobs hpop hj hc =>
    refine hl.of_promises hs (.of_eq rfl rfl rfl) (fun _ => rfl) fun k hk => ?_
    rw [jobs_pop hpop]
    exact List.mem_cons_of_mem _ hk
  | @attach id p q jobs hpop =>
    have hjobs := jobs_pop hpop
    have hp : (l.engine.promise p).following = some q :=
      (hl p).jobs (.adoption p q) (hjobs ▸ List.mem_cons_self) rfl
    have he : l.engine.Alike { l.engine with jobs } := ⟨rfl, rfl, rfl⟩
    have hsub : ∀ k ∈ ({ l with engine := { l.engine with jobs } } : Ledger H).jobs, k ∈ l.jobs :=
      fun k hk => hjobs ▸ List.mem_cons_of_mem _ hk
    have hl₁ : ({ l with engine := { l.engine with jobs } } : Ledger H).Linked :=
      hl.of_promises hs he.grows (fun _ => rfl) hsub
    refine hl₁.engage (hs.rearrange he hsub hs.called hs.stack) q (Engine.engages_adopt p)
      fun s heq => ?_
    cases heq
    exact hp
  | @adopt f p kind e e' hf hcode hu ha hfate =>
    obtain ⟨hpend, hres⟩ := hlaw.due hf hcode
    have hdue : (l.engine.promise p).adopts = 1 := Promise.adopts_of_locked hpend hres
    have hle := (hlaw.owed p).trans hdue.le
    obtain ⟨hs₁, ho⟩ := hs.adopt hf hcode hle ha
    have hself := ho (.adopt p)
    rw [if_pos rfl] at hself
    have hp : ∀ q, e.promise q = l.engine.promise q := fun q =>
      (ha.promise q).trans (Engine.promise_used _ f q)
    have hl₁ : ({ l with engine := e, called := none } : Ledger H).Linked := by
      refine hl.of_promises hs ((Engine.grows_used _ f).trans ha.grows) hp fun j hj => ?_
      rw [Ledger.jobs, ha.waitingJobs, Engine.waitingJobs_used] at hj
      exact hj
    refine hl₁.fate hs₁ ?_ (by omega) hfate
    rw [hp]
    exact hpend
  | lapse hf hu => exact hl.of_promises hs (.refl _) (fun _ => rfl) fun _ hj => hj
  | @wake f d kind hf hen hd hu =>
    refine hl.of_promises hs (Engine.grows_used _ _) (Engine.promise_used _ f) fun j hj => ?_
    rw [Ledger.jobs, Engine.waitingJobs_used] at hj
    exact hj
  | @engage d rest q c c' hstack hd =>
    have hrest : l.Keeps { l with stack := rest } :=
      .restack hlaw ⟨rfl, rfl, rfl⟩ rfl rfl fun p hp =>
        hs.stack p (hstack ▸ List.mem_cons_of_mem _ hp)
    have hl₁ : ({ l with stack := rest } : Ledger H).Linked :=
      hl.of_promises hs (.refl _) (fun _ => rfl) fun _ hj => hj
    refine hl₁.engage hrest.lawful.sound q hd fun p heq => ?_
    exact absurd (heq ▸ hstack ▸ List.mem_cons_self) (hs.stack p)
  | request a c hr hserving =>
    have hnew := hl.effect (R := R) hlaw (.newPromise l.engine)
    have hlaw' := (Keeps.effect (R := R) hlaw (.newPromise l.engine)).lawful
    exact hnew.of_promises hlaw'.sound (.of_eq rfl rfl rfl) (fun _ => rfl) fun _ hj => hj
  | @answer a r rest s kind v hstack ha hb hv =>
    have hrest : l.Keeps { l with engine := l.engine.setAsyncState a s, stack := rest } :=
      .restack hlaw ⟨rfl, rfl, rfl⟩ rfl rfl fun p hp =>
        hs.stack p (hstack ▸ List.mem_cons_of_mem _ hp)
    have hl₁ : ({ l with engine := l.engine.setAsyncState a s, stack := rest } : Ledger H).Linked :=
      hl.of_promises hs (.of_eq rfl rfl rfl) (fun _ => rfl) fun _ hj => hj
    exact hl₁.effects hrest.lawful (Engine.settle_effects (R := Rights.all) (fun _ => trivial) kind v)
  | takeOff hpop =>
    exact hl.of_promises hs (.of_eq rfl rfl rfl) (fun _ => rfl) fun _ hj =>
      (jobs_takeOff hpop).mem_iff.1 hj
  | putBack hh =>
    exact hl.of_promises hs (.of_eq rfl rfl rfl) (fun _ => rfl) fun _ hj =>
      (jobs_putBack hh).mem_iff.1 hj
  | _ => exact hl.of_promises hs (.of_eq rfl rfl rfl) (fun _ => rfl) fun _ hj => hj

end Microtask
