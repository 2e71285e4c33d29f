import Microtask.Proofs.Stepwise

/-!
# Histories

What a run does to promises, to the job queue and to the records of rejections, one
thing at a time. An `Entry` is one such thing with the jobs that it queued, and
`Engine.Recounts` tells the change of an engine as a list of entries. A `Chronicle`
tells a run: each move does its chore first, and entries tell the rest of the step.

All lists of entries have the latest one first. Every run has a chronicle
(`Run.chronicle`), and what every entry and every chore preserves holds at the end of
it (`Chronicle.preserve`).
-/

namespace Microtask

variable {H : Type}

/-! ## Entries -/

/-- A pair of reactions that is attached to a promise. -/
structure Registration where
  onFulfilled : Option FunctionRef
  onRejected : Option FunctionRef
  capability : Option PromiseRef
  deriving DecidableEq

/-- One thing that happens. -/
inductive Happening where
  | created (p : PromiseRef)
  | registered (p : PromiseRef) (r : Registration)
  | settled (p : PromiseRef) (kind : Settling) (v : Value)
  | adopted (p q : PromiseRef)
  /-- The host puts a job on the queue. -/
  | queued
  /-- A drain ends, and rejections are reported as the policy says. -/
  | reported (policy : RejectionPolicy)
  /-- The host takes the reasons that were reported. -/
  | handedOver

/-- Something that happened, and the jobs that it put on the queue. -/
structure Entry (H : Type) where
  happening : Happening
  jobs : List (Job H)

/-- The registrations on a promise, in order. -/
def registrationsOf (p : PromiseRef) : List (Entry H) → List Registration
  | [] => []
  | en :: hs =>
    match en.happening with
    | .registered q r => if q = p then registrationsOf p hs ++ [r] else registrationsOf p hs
    | _ => registrationsOf p hs

namespace Engine

/-- Something happens to a promise. -/
inductive Happens : Engine H → Happening → Engine H → Prop where
  | created (e : Engine H) : Happens e (.created e.newPromise.1) e.newPromise.2
  | registered (e : Engine H) (p : PromiseRef) (r : Registration) :
      Happens e (.registered p r) (e.performThen p r.onFulfilled r.onRejected r.capability)
  | settled {e : Engine H} {p : PromiseRef} (kind : Settling) (v : Value) :
      (e.promise p).state = .pending → Happens e (.settled p kind v) (e.settleNow p kind v)
  | adopted (e : Engine H) (p q : PromiseRef) : Happens e (.adopted p q) (e.link p q)

/-- Nothing of what a history is about changes. -/
structure Still (e e' : Engine H) : Prop where
  promises : e.promises.size ≤ e'.promises.size
  nextId : e.nextId ≤ e'.nextId
  id : ∀ p, (e'.promise p).id = (e.promise p).id
  state : ∀ p, (e'.promise p).state = (e.promise p).state
  handled : ∀ p, (e'.promise p).handled = (e.promise p).handled
  reactions : ∀ p kind, (e'.promise p).reactions kind = (e.promise p).reactions kind
  waitingJobs : e'.waitingJobs = e.waitingJobs
  unhandled : e'.unhandled = e.unhandled
  reported : e'.reported = e.reported

namespace Still

theorem refl (e : Engine H) : e.Still e :=
  ⟨le_rfl, le_rfl, fun _ => rfl, fun _ => rfl, fun _ => rfl, fun _ _ => rfl, rfl, rfl, rfl⟩

/-- Changes that concern neither promises nor jobs. -/
theorem of_eq {e e' : Engine H} (hp : e'.promises = e.promises) (hj : e'.jobs = e.jobs)
    (hu : e'.unhandled = e.unhandled) (hr : e'.reported = e.reported)
    (hn : e.nextId ≤ e'.nextId) : e.Still e' := by
  have hpromise : ∀ p, e'.promise p = e.promise p := fun p => by rw [promise, promise, hp]
  refine ⟨hp ▸ le_rfl, hn, ?_, ?_, ?_, ?_, ?_, hu, hr⟩
  · exact fun p => congrArg Promise.id (hpromise p)
  · exact fun p => congrArg Promise.state (hpromise p)
  · exact fun p => congrArg Promise.handled (hpromise p)
  · exact fun p kind => congrArg (Promise.reactions · kind) (hpromise p)
  · rw [Engine.waitingJobs, Engine.waitingJobs, hj]

end Still

theorem still_lock (e : Engine H) (p : PromiseRef) : e.Still (e.lock p) := by
  refine ⟨(grows_lock e p).promises, le_rfl, ?_, ?_, ?_, e.reactions_lock p, rfl, rfl, rfl⟩
  · exact read_lock Promise.id (fun _ => rfl) e p
  · exact read_lock Promise.state (fun _ => rfl) e p
  · exact read_lock Promise.handled (fun _ => rfl) e p

theorem still_used (e : Engine H) (f : FunctionRef) : e.Still (e.used f) := by
  unfold used
  split
  · exact .of_eq rfl rfl rfl rfl le_rfl
  · exact .refl e
  · exact .refl e

theorem Happens.grows {e e' : Engine H} {h : Happening} (hh : e.Happens h e') : e.Grows e' := by
  cases hh with
  | created => exact grows_newPromise e
  | registered p r => exact grows_performThen e p _ _ _
  | settled kind v hs => exact grows_settleNow e _ kind v
  | adopted p q => exact grows_link e p q

/-- What happens only ever appends to the queue. -/
theorem Happens.queues {e e' : Engine H} {h : Happening} (hh : e.Happens h e') :
    ∃ jobs, e'.waitingJobs = e.waitingJobs ++ jobs := by
  cases hh with
  | created => exact ⟨[], (List.append_nil _).symm⟩
  | registered p r => exact ⟨_, waitingJobs_performThen e p _ _ _⟩
  | settled kind v hs => exact ⟨_, waitingJobs_settleNow hs kind v⟩
  | adopted p q => exact ⟨_, waitingJobs_link e p q⟩

/-! ## Recounts -/

/-- The entries tell how the first engine has become the second one. -/
inductive Recounts (e : Engine H) : List (Entry H) → Engine H → Prop where
  | refl : Recounts e [] e
  | still {new : List (Entry H)} {e₁ e₂ : Engine H} :
      Recounts e new e₁ → e₁.Still e₂ → Recounts e new e₂
  | happens {new : List (Entry H)} {e₁ e₂ : Engine H} {h : Happening} {jobs : List (Job H)} :
      Recounts e new e₁ → e₁.Happens h e₂ → e₂.waitingJobs = e₁.waitingJobs ++ jobs →
      Recounts e (⟨h, jobs⟩ :: new) e₂

/-- There is a recount. -/
def Recounted (e e' : Engine H) : Prop := ∃ new, e.Recounts new e'

namespace Recounted

variable {e e' e'' : Engine H}

theorem refl (e : Engine H) : e.Recounted e := ⟨[], .refl⟩

theorem of_still (h : e.Still e') : e.Recounted e' := ⟨[], Recounts.refl.still h⟩

theorem of_happens {h : Happening} (hh : e.Happens h e') : e.Recounted e' := by
  obtain ⟨jobs, hj⟩ := hh.queues
  exact ⟨[⟨h, jobs⟩], Recounts.refl.happens hh hj⟩

theorem trans (h : e.Recounted e') (h' : e'.Recounted e'') : e.Recounted e'' := by
  obtain ⟨new, h⟩ := h
  obtain ⟨new', h'⟩ := h'
  induction h' with
  | refl => exact ⟨new, h⟩
  | still _ hs ih => exact ih.imp fun _ hr => hr.still hs
  | happens _ hh hj ih =>
    obtain ⟨_, hr⟩ := ih
    exact ⟨_, hr.happens hh hj⟩

end Recounted

section Effects

variable {R : Rights} (hR : ¬ R.manage) {e e' : Engine H}
include hR

theorem Aside.still (h : Aside R e e') : e.Still e' := by
  cases h with
  | newGenerator f => exact .of_eq rfl rfl rfl rfl (Nat.le_succ _)
  | newAsyncGenerator f => exact .of_eq rfl rfl rfl rfl (Nat.le_add_right _ 2)
  | reportUnhandled hm => exact absurd hm hR
  | takeReported hm => exact absurd hm hR
  | _ => exact .of_eq rfl rfl rfl rfl le_rfl

omit hR in
theorem Fate.recounted {p : PromiseRef} (h : Fate p e e') : e.Recounted e' := by
  cases h with
  | settled kind v =>
    by_cases hs : (e.promise p).state = .pending
    · exact .of_happens (.settled kind v hs)
    · rw [settleNow_of_settled hs]
      exact .refl e
  | @adopts q hc => exact .of_happens (.adopted e p q)

theorem Effect.recounted (h : Effect R e e') : e.Recounted e' := by
  cases h with
  | aside h => exact .of_still (h.still hR)
  | newPromise => exact .of_happens (.created e)
  | newFunction h => exact .of_still (.of_eq rfl rfl rfl rfl le_rfl)
  | spend h => exact .of_still (.of_eq rfl rfl rfl rfl le_rfl)
  | @decide _ p hr hs hf => exact (Recounted.of_still (e.still_lock p)).trans hf.recounted
  | @performThen p f g capability hf hg hc => exact .of_happens (.registered e p ⟨f, g, capability⟩)
  | callback label code hm => exact absurd hm hR

theorem Effects.recounted (h : Effects R e e') : e.Recounted e' := by
  induction h with
  | refl => exact .refl e
  | tail _ h ih => exact ih.trans (h.recounted hR)

end Effects

theorem engage_recounted (e : Engine H) (q : PromiseRef) (c d : Callable H) :
    e.Recounted (e.engage q c d) := by
  have hnew : e.Still ((e.newFunction c).2.newFunction d).2 := .of_eq rfl rfl rfl rfl le_rfl
  exact (Recounted.of_still hnew).trans (.of_happens (.registered _ q ⟨_, _, none⟩))

theorem addRequest_recounted (e : Engine H) (a : AsyncGeneratorRef) (c : Completion) :
    e.Recounted (e.addRequest a c).2 := by
  have hadd : e.newPromise.2.Still (e.addRequest a c).2 := .of_eq rfl rfl rfl rfl le_rfl
  exact (Recounted.of_happens (.created e)).trans (.of_still hadd)

end Engine

/-! ## Steps -/

/-- The rights of a step that has no chore. -/
def Rights.busy : Rights := { Rights.all with manage := False }

open Engine

theorem Act.recounted {l l' : Ledger H} (h : Act Rights.busy l l') :
    l.engine.Recounted l'.engine := by
  have hstill : ∀ {e : Engine H}, l.engine.Still e → l.engine.Recounted e := .of_still
  cases h with
  | effect h => exact h.recounted id
  | pop hpop hj hc hm => exact hm.elim
  | attach hpop hm => exact hm.elim
  | adopt hf hc hu ha h =>
    exact (hstill (still_used _ _)).trans ((Recounted.of_still (ha.still id)).trans h.recounted)
  | wake hf he hd hu => exact hstill (still_used _ _)
  | engage hs hd => exact engage_recounted _ _ _ _
  | request a c hr hs => exact addRequest_recounted _ a c
  | take ha hb hq hs => exact hstill (.of_eq rfl rfl rfl rfl le_rfl)
  | hold hs => exact hstill (.of_eq rfl rfl rfl rfl le_rfl)
  | @answer a r rest s kind v hs ha hb hv =>
    have hset : l.engine.Still (l.engine.setAsyncState a s) := .of_eq rfl rfl rfl rfl le_rfl
    have hsettle : Effects Rights.busy (l.engine.setAsyncState a s)
        ((l.engine.setAsyncState a s).settle r.capability kind v) :=
      settle_effects (fun _ => trivial) kind v
    exact (hstill hset).trans (hsettle.recounted id)
  | takeOff hpop hm => exact hm.elim
  | putBack hh hm => exact hm.elim
  | _ => exact .refl _

theorem Acts.recounted {l l' : Ledger H} (h : Acts Rights.busy l l') :
    l.engine.Recounted l'.engine := by
  induction h with
  | refl => exact .refl _
  | tail _ h ih => exact ih.trans h.recounted

/-- A job that runs does so within the engine without it. -/
theorem Engine.runJob_recounted (e : Engine H) (id : Nat) (d : Drain H) (j : Job H) :
    e.Recounted (e.runJob id d j).engine := by
  cases j with
  | reaction r v =>
    obtain ⟨kind, handler, capability⟩ := r
    cases handler with
    | some f => exact .refl e
    | none =>
      cases capability with
      | none => exact .refl e
      | some p =>
        have hsettle : Effects Rights.busy e (e.settle p kind v) :=
          settle_effects (fun _ => trivial) kind v
        exact hsettle.recounted not_false
  | adoption p q => exact engage_recounted e q _ _
  | callback label code => exact .refl e

/-- A round of a drain stops at the limit, or it ends with a report, or it runs a job. -/
theorem World.round {w : World H} {d : Drain H} (hd : w.config.control = .drain d) :
    let e := w.config.engine
    (w.chore .tick = .nothing ∧ ∃ a n, w.config.tick = ⟨{ e with draining := false },
        .host a (.answered (.drained (.error (.infiniteLoop n))))⟩) ∨
      (w.chore .tick = .report ∧ ∃ a n, w.config.tick =
        ⟨{ e with draining := false }.reportUnhandled, .host a (.answered (.drained (.ok n)))⟩) ∨
      (w.chore .tick = .next ∧ ∃ id j jobs d', e.jobs.pop? = some ((id, j), jobs) ∧
        w.config.tick = ({ e with jobs } : Engine H).runJob id d' j) := by
  obtain ⟨⟨e, control⟩, held⟩ := w
  obtain ⟨limit, executed, a⟩ := d
  cases hd
  simp only [chore, Config.tick, drainRound]
  split
  · exact .inl ⟨rfl, a, executed, rfl⟩
  · cases hpop : e.jobs.pop? with
    | none => exact .inr (.inl ⟨rfl, a, executed, rfl⟩)
    | some next => exact .inr (.inr ⟨rfl, _, _, _, _, rfl, rfl⟩)

theorem Chore.promises_apply (e : Engine H) (c : Chore H) : (c.apply e).promises = e.promises := by
  cases c with
  | next => simp only [apply]; split <;> rfl
  | _ => rfl

/-- Taking the first job. -/
theorem Chore.apply_next {e : Engine H} {id : Nat} {j : Job H} {jobs : JobQueue (Job H)}
    (h : e.jobs.pop? = some ((id, j), jobs)) : Chore.next.apply e = { e with jobs } := by
  simp only [apply, h]

/-- **A step without a chore** is a chain of acts that do not act on the job queue. -/
theorem Step.acts_of_nothing {w w' : World H} {m : Move H} (h : Step w m w')
    (hm : w.chore m = .nothing) (hbacked : w.config.engine.Backed)
    (issued : List (AsyncGeneratorRef × Request)) :
    Acts Rights.busy (w.ledger issued) (w'.ledger (w.issued issued m)) := by
  have hclears : m.clears = false := by
    cases m with
    | perform op => cases op <;> first | rfl | cases hm
    | _ => rfl
  have hcovers : Rights.busy.Covers w m := { Rights.all_covers w m with
    fresh := ⟨fun _ _ => trivial, fun _ _ => trivial, fun _ _ => trivial⟩
    manage := fun hne => absurd hm hne }
  exact h.acts hclears hcovers hbacked issued

/-- **A step with a chore** runs the job that it has taken, or it does nothing else but
hand control back to the host. -/
theorem Step.chore_cases {w w' : World H} {m : Move H} (h : Step w m w')
    (hm : w.chore m ≠ .nothing) :
    (m = .tick ∧ w.chore m = .next ∧ w'.held = w.held ∧ ∃ d id j jobs d',
        w.config.control = .drain d ∧ w.config.engine.jobs.pop? = some ((id, j), jobs) ∧
        w'.config = ({ w.config.engine with jobs } : Engine H).runJob id d' j) ∨
      (∃ draining, w'.config.engine = (w.chore m).apply { w.config.engine with draining }) ∧
        w'.config.atHost = true := by
  cases h with
  | tick c held =>
    cases hd : c.control with
    | drain d =>
      obtain ⟨hc, a, n, ht⟩ | ⟨hc, a, n, ht⟩ | ⟨hc, id, j, jobs, d', hpop, ht⟩ :=
        World.round (w := ⟨c, held⟩) hd
      · exact absurd hc hm
      · rw [hc]
        exact .inr ⟨⟨false, congrArg Config.engine ht⟩, congrArg Config.atHost ht⟩
      · exact .inl ⟨rfl, hc, rfl, d, id, j, jobs, d', rfl, hpop, ht⟩
    | _ => exact absurd (by simp only [World.chore, hd]) hm
  | @perform e h prompt held op hop =>
    cases op with
    | takeReported | enqueue j | clearJobs | reset => exact .inr ⟨⟨e.draining, rfl⟩, rfl⟩
    | popJob =>
      refine .inr ⟨⟨e.draining, ?_⟩, ?_⟩
      · rw [Engine.perform]
        simp only [World.chore, Op.chore, Chore.apply]
        cases e.jobs.pop? <;> rfl
      · rw [Engine.perform]
        cases e.jobs.pop? <;> rfl
    | _ => exact absurd rfl hm
  | @putBack e => exact .inr ⟨⟨e.draining, rfl⟩, rfl⟩
  | _ => exact absurd rfl hm

/-- Whether a drain is in progress makes no difference to a chore. -/
theorem Chore.still_draining {e : Engine H} {draining : Bool} (c : Chore H) :
    (c.apply e).Still (c.apply { e with draining }) := by
  cases c with
  | next =>
    simp only [apply]
    cases e.jobs.pop? <;> exact .of_eq rfl rfl rfl rfl le_rfl
  | _ => exact .of_eq rfl rfl rfl rfl le_rfl

/-- What holds of every chain of acts without a chore and of every job that runs, holds of
a step after its chore. -/
theorem Step.after_chore {Q : Engine H → Engine H → Prop}
    (hacts : ∀ {l l' : Ledger H}, Acts Rights.busy l l' → Q l.engine l'.engine)
    (hjob : ∀ e id d j, Q e (e.runJob id d j).engine)
    (hstop : ∀ (e : Engine H) draining c, Q (Chore.apply e c) (c.apply { e with draining }))
    {w w' : World H} {m : Move H} (h : Step w m w') (hbacked : w.config.engine.Backed) :
    Q ((w.chore m).apply w.config.engine) w'.config.engine := by
  by_cases hm : w.chore m = .nothing
  · rw [hm]
    exact hacts (h.acts_of_nothing hm hbacked [])
  · obtain ⟨-, hc, -, -, id, j, jobs, d, -, hpop, hj⟩ | ⟨⟨draining, he⟩, -⟩ := h.chore_cases hm
    · rw [hc, hj, Chore.apply_next hpop]
      exact hjob _ id d j
    · rw [he]
      exact hstop _ draining _

/-- **A step does its chore, and the rest of it can be told by entries.** -/
theorem Step.recounted {w w' : World H} {m : Move H} (h : Step w m w')
    (hbacked : w.config.engine.Backed) :
    ((w.chore m).apply w.config.engine).Recounted w'.config.engine :=
  h.after_chore Acts.recounted Engine.runJob_recounted (fun _ _ c => .of_still c.still_draining)
    hbacked

/-! ## Runs -/

/-- The entries that a chore makes. -/
def Chore.entries (e : Engine H) : Chore H → List (Entry H)
  | report => [⟨.reported e.policy, []⟩]
  | handOver => [⟨.handedOver, []⟩]
  | put j => [⟨.queued, [j]⟩]
  | _ => []

/-- The entries tell the run of the events. -/
inductive Chronicle : List (Event H) → World H → List (Entry H) → Prop where
  | start : Chronicle [] {} []
  | step {es : List (Event H)} {w w' : World H} {m : Move H} {hs new : List (Entry H)} :
      Chronicle es w hs → Step w m w' →
      ((w.chore m).apply w.config.engine).Recounts new w'.config.engine →
      Chronicle (⟨w, m⟩ :: es) w' (new ++ ((w.chore m).entries w.config.engine ++ hs))

/-- Every run has a chronicle. -/
theorem Run.chronicle {es : List (Event H)} {w : World H} (h : Run es w) :
    ∃ hs, Chronicle es w hs := by
  have hbacked : ∀ {es : List (Event H)} {w : World H}, Run es w → w.config.engine.Backed :=
    Run.backed
  induction h with
  | refl => exact ⟨[], .start⟩
  | step h hs ih =>
    obtain ⟨entries, hc⟩ := ih
    obtain ⟨new, hr⟩ := hs.recounted (hbacked h)
    exact ⟨_, hc.step hs hr⟩

/-- What every change, every entry and every chore of a kind preserves, runs with such
chores only preserve. -/
theorem Chronicle.preserve {P : Engine H → List (Entry H) → Prop} {C : Chore H → Prop}
    (hstill : ∀ {e e' hs}, e.Still e' → P e hs → P e' hs)
    (hhappens : ∀ {e e' : Engine H} {h jobs hs}, e.Happens h e' →
      e'.waitingJobs = e.waitingJobs ++ jobs → P e hs → P e' (⟨h, jobs⟩ :: hs))
    (hchore : ∀ {e hs c}, C c → P e hs → P (c.apply e) (c.entries e ++ hs))
    (hstart : P {} []) {es : List (Event H)} {w : World H} {hs : List (Entry H)}
    (h : Chronicle es w hs) (hes : ∀ ev ∈ es, C (ev.before.chore ev.move)) :
    P w.config.engine hs := by
  induction h with
  | start => exact hstart
  | @step es w w' m hs new _ _ hr ih =>
    obtain ⟨hm, hes⟩ := List.forall_mem_cons.1 hes
    have hbegun := hchore hm (ih hes)
    generalize Chore.apply w.config.engine (w.chore m) = e at hr hbegun
    generalize w'.config.engine = e' at hr
    induction hr with
    | refl => exact hbegun
    | still _ hs ih => exact hstill hs ih
    | happens _ hh hj ih => exact hhappens hh hj ih

end Microtask
