import Microtask.Proofs.Generator.Resuming

/-!
# Waiting for a value

A callback that has a duty stays with the promise that is awaited. It is on the lists of
that promise only, and the job that calls it hands over what the promise has been settled
with (`Ledger.On`). So as long as a duty stays where it is, whatever can go on with it waits
for the same promise (`Step.waitsFor`), which stands for the value of the wait that it comes
from (`Ledger.expects_await`).

A job that calls such a callback gives the settlement of the value
(`World.settlement_of_called`).
-/

namespace Microtask

variable {H : Type}

/-! ## Values that are waited for -/

namespace Engine

/-- The completion that waiting for a value ends with, or none while it is a promise that
is pending. -/
def settlement? (e : Engine H) : Value → Option Completion
  | .promise q =>
    match (e.promise q).state with
    | .pending => none
    | .fulfilled v => some (.normal v)
    | .rejected reason => some (.throwing reason)
  | v => some (.normal v)

/-- Waiting for the value is waiting for the promise. -/
inductive StandsFor (e : Engine H) (q : PromiseRef) : Value → Prop where
  | itself : StandsFor e q (.promise q)
  | plain {v : Value} : (∀ p, v ≠ .promise p) → (e.promise q).state = .fulfilled v → StandsFor e q v

variable {e e' : Engine H} {q : PromiseRef} {v : Value}

theorem settlement?_promise {kind : Settling} {x : Value}
    (h : (e.promise q).state = kind.state x) :
    e.settlement? (.promise q) = some (kind.completion x) := by
  cases kind <;> simp only [settlement?, h, Settling.state, Settling.completion]

theorem settlement?_plain (h : ∀ p, v ≠ .promise p) : e.settlement? v = some (.normal v) := by
  cases v with
  | promise p => exact absurd rfl (h p)
  | _ => rfl

/-- What a value has been settled with does not change. -/
theorem settlement?_persists (h : ∀ p, (e.promise p).Persists (e'.promise p)) {c : Completion}
    (hc : e.settlement? v = some c) : e'.settlement? v = some c := by
  cases v with
  | promise p =>
    have hsame : (e.promise p).state ≠ .pending → (e'.promise p).state = (e.promise p).state :=
      (h p).settled
    cases hs : (e.promise p).state with
    | pending => simp [settlement?, hs] at hc
    | fulfilled x | rejected x =>
      rw [hs] at hsame
      simp only [settlement?, hs, hsame nofun] at hc ⊢
      exact hc
  | _ => exact hc

namespace StandsFor

theorem persists (h : e.StandsFor q v) (hp : (e.promise q).Persists (e'.promise q)) :
    e'.StandsFor q v := by
  cases h with
  | itself => exact .itself
  | plain hv hs => exact .plain hv ((hp.settled (by rw [hs]; exact nofun)).trans hs)

/-- The promise has been settled, and the value with it. -/
theorem settlement (h : e.StandsFor q v) {kind : Settling} {x : Value}
    (hs : (e.promise q).state = kind.state x) : e.settlement? v = some (kind.completion x) := by
  cases h with
  | itself => exact settlement?_promise hs
  | plain hv hs' =>
    obtain ⟨rfl, rfl⟩ := Settling.eq_of_fulfilled (hs.symm.trans hs')
    exact settlement?_plain hv

/-- The promise is pending. Then it is the value itself. -/
theorem eq_of_pending (h : e.StandsFor q v) (hs : (e.promise q).state = .pending) :
    v = .promise q := by
  cases h with
  | itself => rfl
  | plain hv hs' => cases hs.symm.trans hs'

end StandsFor

theorem standsFor_promiseOf (e : Engine H) (v : Value) :
    (e.promiseOf v).2.StandsFor (e.promiseOf v).1 v := by
  have hnew : (∀ q, v ≠ .promise q) →
      (e.newPromise.2.resolve e.newPromise.1 v).StandsFor e.newPromise.1 v := by
    intro hv
    have hfresh : e.newPromise.2.promise e.newPromise.1 = _ :=
      (promise_newPromise e _).trans (if_pos rfl)
    have hres : (e.newPromise.2.promise e.newPromise.1).resolved = false := by rw [hfresh]
    have hpend : ((e.newPromise.2.lock e.newPromise.1).promise e.newPromise.1).state = .pending := by
      rw [read_lock (·.state) (fun _ => rfl), hfresh]
    refine .plain hv ?_
    have hsettle := settle_of_unresolved hres fun (_ : Settling.fulfill = .fulfill) => hv
    rw [show e.newPromise.2.resolve e.newPromise.1 v = _ from hsettle, promise_settleNow hpend,
      if_pos rfl]
    rfl
  cases v with
  | promise q => exact .itself
  | _ => exact hnew nofun

end Engine

/-! ## Callbacks on a promise -/

namespace Ledger

/-- Wherever the function is kept, it waits for the promise. -/
structure On (l : Ledger H) (q : PromiseRef) (f : FunctionRef) : Prop where
  reaction : ∀ p kind, ∀ r ∈ (l.engine.promise p).reactions kind, r.handler = some f → p = q
  job : ∀ r v, .reaction r v ∈ l.jobs → r.handler = some f →
    (l.engine.promise q).state = r.kind.state v

/-- Whatever can go on with the duty waits for the promise. -/
def WaitsFor (l : Ledger H) (d : Duty) (q : PromiseRef) : Prop :=
  ∀ f kind, l.engine.engagement? f = some (d, kind) → l.Has f → l.On q f

/-- Whatever can go on with the duty waits for the value. -/
def Expects (l : Ledger H) (d : Duty) (v : Value) : Prop :=
  ∃ q, l.engine.StandsFor q v ∧ l.WaitsFor d q

variable {l l' : Ledger H} {q : PromiseRef} {f : FunctionRef} {d : Duty} {R : Rights}

theorem On.trace (h : l.On q f) (ht : Traces f l l') (hs : l.Sound) : l'.On q f where
  reaction p kind r hr hf := h.reaction p kind r (ht.reaction p kind r hr hf) hf
  job r v hj hf := by
    rcases ht.job r v hj hf with hj | ⟨p, kind, hr, hstate⟩
    · have hstate := h.job r v hj hf
      exact (ht.settled q (hstate ▸ r.kind.state_ne_pending v)).trans hstate
    · obtain rfl := h.reaction p kind r hr hf
      rw [(hs.paired.bears hr).1]
      exact hstate

/-- A function that is new is on the promise that it is attached to. -/
theorem On.engage (hs : l.Sound) (q : PromiseRef) (c c' : Callable H)
    (hf : l.engine.callables.size ≤ f.index) :
    ({ l with engine := l.engine.engage q c c' } : Ledger H).On q f := by
  have hold : ∀ {r : Reaction} {d : Option Duty}, l.engine.Bears r d → r.handler ≠ some f :=
    fun hb hr => absurd (hb.allocated hr) (Nat.not_lt_of_le hf)
  have hjob : ∀ r v, .reaction r v ∈ l.jobs → r.handler ≠ some f := fun r v hj => by
    obtain ⟨d, hb⟩ := hs.jobs _ hj
    exact hold hb
  let e := ((l.engine.newFunction c).2.newFunction c').2
  refine ⟨fun p kind r hr hh => ?_, fun r v hj hh => ?_⟩
  · obtain hr | ⟨hp, -⟩ := Engine.mem_reactions_performThen (e := e) hr
    · obtain ⟨-, d, hb⟩ := hs.paired.bears hr
      exact absurd hh (hold hb)
    · exact hp
  · have hkeep := Engine.read_performThen e q (some (l.engine.newFunction c).1)
      (some ((l.engine.newFunction c).2.newFunction c').1) none (·.state) (fun _ _ _ => rfl) q
    rcases mem_jobs_append (l := { l with engine := e }) (Engine.waitingJobs_performThen e q _ _ _)
      hj with hj | hj
    · exact absurd hh (hjob r v hj)
    · obtain ⟨v', hstate, heq⟩ | ⟨v', hstate, heq⟩ := Promise.mem_attachJobs hj
      · cases heq
        exact hkeep.trans hstate
      · cases heq
        exact hkeep.trans hstate

end Ledger

/-! ## Acts and steps -/

open Ledger

section Acts

variable {R : Rights} {l l' : Ledger H} {d : Duty} {q : PromiseRef}

/-- **A duty that stays where it is** waits for the same promise as before. -/
theorem Act.waitsFor (h : Act R l l') (hs : l.Sound) (hd : ¬ R.Drives d) (hw : l.WaitsFor d q) :
    l'.WaitsFor d q := by
  intro f kind hen hf
  obtain ⟨hf, hcode⟩ := h.had hs hd hen hf
  have hen₀ : l.engine.engagement? f = some (d, kind) := by
    rw [Engine.engagement?, ← hcode]
    exact hen
  exact (hw f kind hen₀ hf).trace (h.traces (.of_engagement hen₀)) hs

theorem Acts.waitsFor (h : Acts R l l') (hl : l.Lawful) (hd : ¬ R.Drives d)
    (hw : l.WaitsFor d q) : l'.WaitsFor d q := by
  induction h with
  | refl => exact hw
  | tail h₀ h ih => exact h.waitsFor (Acts.keeps h₀ hl).lawful.sound hd ih

end Acts

/-- **A wait begins**: whatever can go on with its duty waits for the value. -/
theorem Ledger.expects_await {l : Ledger H} {d : Duty} {rest : List Duty} (hl : l.Lawful)
    {waiter : Waiter H} (hd : waiter.duty? = some d) (hstack : l.stack = d :: rest)
    (hle : l.owed d ≤ l.stack.count d) (v : Value) :
    ({ l with engine := l.engine.await v waiter, stack := rest } : Ledger H).Expects d v := by
  have hdrives : Rights.all.Drives d := by cases d <;> trivial
  have hpromise : l.engine.Effects Rights.all (l.engine.promiseOf v).2 :=
    Engine.promiseOf_effects ⟨fun _ _ => trivial, fun _ _ => trivial, fun _ _ => trivial⟩ v
  let q := (l.engine.promiseOf v).1
  let l₁ : Ledger H := { l with engine := (l.engine.promiseOf v).2 }
  have h₁ : l₁.Lawful := (Keeps.effects hl hpromise).lawful
  have hact : Act Rights.all l₁ { l with engine := l.engine.await v waiter, stack := rest } :=
    .engage hstack (Engine.engages_wake hd) hdrives
  refine ⟨q, (Engine.standsFor_promiseOf l.engine v).persists ((hact.keeps h₁).persists q),
    fun f kind hen hf => ?_⟩
  by_cases hold : f.index < l₁.engine.callables.size
  · -- nothing that exists has the duty, since it is on the stack
    have hen₁ := (hact.grows.engagement? hold).symm.trans hen
    have hold' : f.index < l.engine.callables.size := Engine.callables_promiseOf l.engine v ▸ hold
    have hen₀ := (hpromise.grows.engagement? hold').symm.trans hen₁
    exact absurd ((Acts.effects hpromise).has hen₀ (hact.has hen₁ hf)) (hl.sound.not_has hle hen₀)
  · exact On.engage (l := { l₁ with stack := rest }) (h₁.sound.drop hstack).1 q _ _
      (Nat.le_of_not_lt hold)

/-- Waiting has nothing to do with the requests that have been made. -/
theorem World.expects_issued {w : World H} {d : Duty} {v : Value}
    {issued : List (AsyncGeneratorRef × Request)} (h : (w.ledger issued).Expects d v)
    (issued' : List (AsyncGeneratorRef × Request)) : (w.ledger issued').Expects d v := by
  obtain ⟨q, hq, hw⟩ := h
  exact ⟨q, hq, fun f kind hen hf => ⟨(hw f kind hen hf).reaction, (hw f kind hen hf).job⟩⟩

section Steps

variable {w w' : World H} {m : Move H} {d : Duty} {q : PromiseRef} {v : Value}
  {issued : List (AsyncGeneratorRef × Request)}

/-- A duty that a step is not about waits for the same promise as before, whatever is lost. -/
theorem Step.waitsFor (h : Step w m w') (hbacked : w.config.engine.Backed)
    (hl : (w.ledger issued).Lawful) (hd : d.OfStep) (hnot : ∀ x ∈ w.drives m, x.2 ≠ some d)
    (hw : (w.ledger issued).WaitsFor d q) :
    (w'.ledger (w.issued issued m)).WaitsFor d q := by
  cases hm : m.clears with
  | true =>
    obtain ⟨e, hledger, he, -, hj⟩ := h.clears hm issued
    have hsub : ∀ j ∈ ({ w.ledger issued with engine := e } : Ledger H).jobs,
        j ∈ (w.ledger issued).jobs := fun j hmem => by
      simp only [Ledger.jobs, hj, List.nil_append] at hmem
      exact List.mem_append_right _ hmem
    rw [hledger]
    intro f kind hen hf
    have hen₀ := (he.engagement? f).symm.trans hen
    have ht : Traces f (w.ledger issued) { w.ledger issued with engine := e } :=
      .of_alike he hsub
    exact (hw f kind hen₀ (hf.imp ht.refers id)).trace ht hl.sound
  | false =>
    let R : Rights := { Rights.all with move := (· ≠ d) }
    have hcovers : R.Covers w m := by
      refine { Rights.all_covers w m with
        fresh := ⟨fun _ _ => trivial, fun _ _ => trivial, fun _ _ => trivial⟩
        drive := fun x hx => ⟨trivial, ?_⟩ }
      rintro d' hd' rfl
      exact hnot x hx hd'
    exact (h.acts hm hcovers hbacked issued).waitsFor hl
      (Rights.not_drives hd fun hne => hne rfl) hw

/-- A duty that a step is not about goes on to wait for the value. -/
theorem Step.expects (h : Step w m w') (hw : w.Lawful) (hl : (w.ledger issued).Lawful)
    (hd : d.OfStep) (hnot : ∀ x ∈ w.drives m, x.2 ≠ some d)
    (hv : (w.ledger issued).Expects d v) : (w'.ledger (w.issued issued m)).Expects d v := by
  obtain ⟨q, hq, hwaits⟩ := hv
  exact ⟨q, hq.persists ((h.lawful hw).2 q), h.waitsFor hw.1 hl hd hnot hwaits⟩

end Steps

/-! ## Waits that are over -/

section Called

variable {w w' : World H} {m : Move H} {d : Duty} {v : Value}
  {issued : List (AsyncGeneratorRef × Request)}

/-- A job with the duty hands over what the value has been settled with. -/
theorem Ledger.Expects.job {l : Ledger H} (h : l.Expects d v) (hs : l.Sound) {r : Reaction}
    {x : Value} (hj : .reaction r x ∈ l.jobs) (hr : l.engine.reactionDuty? r = some d) :
    l.engine.settlement? v = some (r.kind.completion x) := by
  obtain ⟨q, hq, hwaits⟩ := h
  obtain ⟨d', hb⟩ := hs.jobs _ hj
  obtain rfl : d' = some d := hb.reactionDuty?.symm.trans hr
  obtain ⟨f, hf, hen, -, -⟩ := hb
  exact hq.settlement ((hwaits f r.kind hen (.inl (.inr ⟨r, x, hj, hf⟩))).job r x hj hf)

/-- A promise that has a reaction with the duty is what is waited for. -/
theorem Ledger.Expects.reaction {l : Ledger H} (h : l.Expects d v) (hs : l.Sound)
    {p : PromiseRef} {kind : Settling} {r : Reaction}
    (hmem : r ∈ (l.engine.promise p).reactions kind) (hr : l.engine.reactionDuty? r = some d)
    (hpend : (l.engine.promise p).state = .pending) : v = .promise p := by
  obtain ⟨q, hq, hwaits⟩ := h
  obtain ⟨-, d', hb⟩ := hs.paired.bears hmem
  obtain rfl : d' = some d := hb.reactionDuty?.symm.trans hr
  obtain ⟨f, hf, hen, -, -⟩ := hb
  obtain rfl := (hwaits f r.kind hen (.inl (.inl ⟨p, kind, r, hmem, hf⟩))).reaction p kind r hmem hf
  exact hq.eq_of_pending hpend

end Called

end Microtask
