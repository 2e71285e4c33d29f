import Microtask.Proofs.Generator.Passing
import Microtask.Proofs.Calls

/-!
# What a step settles

Of the promises that exist, a step settles those only that it is about (`World.settling`): the
one that its code or its caller names, the one that an adoption is for, and the one that answers
a request. These are never two at once (`Step.settles_one`), so that it is clear in which order
the promises of a run are settled.
-/

namespace Microtask

variable {H : Type}

/-! ## Effects and acts -/

section Acts

variable {R : Rights} {p : PromiseRef}

namespace Engine

variable {e e' : Engine H}

/-- Only the promise whose fate it is changes its state. -/
theorem Fate.state_of_ne {q : PromiseRef} (h : Fate q e e') (hp : p ≠ q) :
    (e'.promise p).state = (e.promise p).state := by
  cases h with
  | settled kind v =>
    by_cases hs : (e.promise q).state = .pending
    · rw [promise_settleNow hs, if_neg hp]
    · rw [settleNow_of_settled hs]
  | adopts hc => exact read_link Promise.state (fun _ _ => rfl) e q _ p

/-- A promise that may not be settled keeps its state. -/
theorem Effect.state (h : Effect R e e') (hR : ¬ R.settle p) :
    (e'.promise p).state = (e.promise p).state := by
  cases h with
  | aside ha => rw [ha.promise]
  | newPromise => exact read_newPromise Promise.state (fun _ => rfl) e p
  | @decide _ q hr hq hf =>
    have hne : p ≠ q := by
      rintro rfl
      exact hR hq
    exact (hf.state_of_ne hne).trans (read_lock Promise.state (fun _ => rfl) e q p)
  | performThen q => exact read_performThen e q _ _ _ Promise.state (fun _ _ _ => rfl) p
  | _ => rfl

theorem Effects.state (h : Effects R e e') (hR : ¬ R.settle p) :
    (e'.promise p).state = (e.promise p).state := by
  induction h with
  | refl => rfl
  | tail _ he ih => exact (he.state hR).trans ih

theorem state_engage (e : Engine H) (q : PromiseRef) (c c' : Callable H) (p : PromiseRef) :
    ((e.engage q c c').promise p).state = (e.promise p).state :=
  read_performThen _ q _ _ _ Promise.state (fun _ _ _ => rfl) p

end Engine

/-- The function that is being called does not pass on a settlement to the promise. -/
def Ledger.AdoptsNot (l : Ledger H) (p : PromiseRef) : Prop :=
  ∀ f ∈ l.called, f.index < l.engine.callables.size ∧
    ∀ kind, (l.engine.callable f).code ≠ .adopt p kind

variable {l l' : Ledger H}

/-- **A promise keeps its state** in an act that is not about it. -/
theorem Act.state (h : Act R l l') (hmanage : ¬ R.manage)
    (hR : ¬ R.settle p) (hserve : ∀ a r, R.move (.serve a r) → r.capability ≠ p)
    (hcalled : l.AdoptsNot p) :
    (l'.engine.promise p).state = (l.engine.promise p).state ∧ l'.AdoptsNot p := by
  have hkeep : l'.called = l.called → l'.AdoptsNot p := by
    intro hsame f hf
    obtain ⟨hlt, hcode⟩ := hcalled f (hsame ▸ hf)
    exact ⟨hlt.trans_le h.grows.callables, fun kind => h.grows.code f hlt ▸ hcode kind⟩
  have hnone : l'.called = none → l'.AdoptsNot p := by
    intro hnone f hf
    rw [hnone] at hf
    cases hf
  cases h with
  | effect he => exact ⟨he.state hR, hkeep rfl⟩
  | pop _ _ _ hR' => exact absurd hR' hmanage
  | attach _ hR' => exact absurd hR' hmanage
  | takeOff _ hR' => exact absurd hR' hmanage
  | putBack _ hR' => exact absurd hR' hmanage
  | @adopt f q kind e e' hf hc hu ha hfate =>
    have hne : p ≠ q := by
      rintro rfl
      exact (hcalled f hf).2 kind hc
    refine ⟨(hfate.state_of_ne hne).trans ?_, hnone rfl⟩
    rw [ha.promise, Engine.promise_used]
  | lapse => exact ⟨rfl, hnone rfl⟩
  | wake => exact ⟨by rw [Engine.promise_used], hnone rfl⟩
  | engage => exact ⟨Engine.state_engage .., hkeep rfl⟩
  | request => exact ⟨Engine.read_newPromise Promise.state (fun _ => rfl) l.engine p, hkeep rfl⟩
  | @answer a r rest s kind v hs ha hb hv hmove =>
    refine ⟨?_, hkeep rfl⟩
    let R' : Rights := { Rights.all with settle := (· ≠ p) }
    have hset : ((l.engine.setAsyncState a s).Effects R'
        ((l.engine.setAsyncState a s).settle r.capability kind v)) :=
      Engine.settle_effects (fun _ => hserve a r hmove) kind v
    exact hset.state fun hne => hne rfl
  | _ => exact ⟨rfl, hkeep rfl⟩

theorem Acts.state (h : Acts R l l') (hmanage : ¬ R.manage)
    (hR : ¬ R.settle p) (hserve : ∀ a r, R.move (.serve a r) → r.capability ≠ p)
    (hcalled : l.AdoptsNot p) : (l'.engine.promise p).state = (l.engine.promise p).state := by
  suffices hboth : (l'.engine.promise p).state = (l.engine.promise p).state ∧ l'.AdoptsNot p from
    hboth.1
  induction h with
  | refl => exact ⟨rfl, hcalled⟩
  | tail _ ha ih =>
    obtain ⟨hstate, hcalled'⟩ := ih
    obtain ⟨hstate', hcalled''⟩ := ha.state hmanage hR hserve hcalled'
    exact ⟨hstate'.trans hstate, hcalled''⟩

end Acts

/-! ## Steps -/

/-- The promise that answers the request of a duty. -/
def Duty.answers : Duty → List PromiseRef
  | .serve _ r => [r.capability]
  | .adopt _ | .result _ | .construct _ | .body _ _ => []

/-- The promise that a function passes a settlement on to. -/
def Control.adopts (e : Engine H) : Control H → List PromiseRef
  | .call f _ _ =>
    match (e.callable f).code with
    | .adopt p _ => [p]
    | _ => []
  | _ => []

/-- The promises that a move may settle, among those that exist, also those that an adoption is
for and those that answer requests. -/
def World.settling (w : World H) (m : Move H) : List PromiseRef :=
  w.targets m ++ (w.drives m).flatMap (fun x => x.2.toList.flatMap Duty.answers) ++
    match m with
    | .tick => w.config.control.adopts w.config.engine
    | _ => []

section Steps

variable {w w' : World H} {m : Move H} {p q : PromiseRef}

/-- The steps that an operation begins answer no requests. -/
theorem Op.drives_answers (op : Op H) (e : Engine H) :
    (op.drives e).flatMap (fun x => x.2.toList.flatMap Duty.answers) = [] := by
  unfold Op.drives
  split <;> rfl

theorem Op.length_targets (op : Op H) : op.targets.length ≤ 1 := by
  cases op <;> first | exact le_rfl | exact Nat.zero_le 1

theorem Job.length_targets (j : Job H) : j.targets.length ≤ 1 := by
  cases j with
  | reaction r v =>
    obtain ⟨kind, handler, capability⟩ := r
    cases handler with
    | some f => exact Nat.zero_le 1
    | none => cases capability <;> first | exact le_rfl | exact Nat.zero_le 1
  | _ => exact Nat.zero_le 1

/-- A step of a generator settles a promise, or it answers a request. -/
theorem Stepper.length_settling (s : Stepper H) :
    (s.targets ++ s.drives.flatMap (fun x => x.2.toList.flatMap Duty.answers)).length ≤ 1 := by
  cases s with
  | host h => exact Nat.zero_le 1
  | generator g purpose => cases purpose <;> first | exact le_rfl | exact Nat.zero_le 1

/-- A piece of code settles a promise, goes on with a step, or passes a settlement on. -/
theorem Code.length_settling (c : Code H) (e : Engine H) :
    (c.targets e ++ (c.drives e).flatMap (fun x => x.2.toList.flatMap Duty.answers) ++
      match c with
      | .adopt p _ => [p]
      | _ => []).length ≤ 1 := by
  cases c with
  | report t i kind =>
    rw [Code.targets]
    split <;> first | exact le_rfl | exact Nat.zero_le 1
  | wake w kind => cases w <;> first | exact le_rfl | exact Nat.zero_le 1
  | _ => first | exact le_rfl | exact Nat.zero_le 1

/-- They are never two at once. -/
theorem World.length_settling (w : World H) (m : Move H) : (w.settling m).length ≤ 1 := by
  cases m with
  | tick =>
    obtain ⟨⟨e, control⟩, held⟩ := w
    simp only [settling, targets, drives]
    cases control with
    | call f args k =>
      have hcode := (e.callable f).code.length_settling e
      simp only [Control.targets, Control.drives, Control.adopts]
      split
      · refine le_trans ?_ hcode
        simp
      · exact hcode
    | deliver result k =>
      cases k with
      | reaction capability d => cases capability <;> first | exact le_rfl | exact Nat.zero_le 1
      | executor p h => exact le_rfl
      | _ => exact Nat.zero_le 1
    | resume _ _ s | run _ s =>
      exact (congrArg List.length (List.append_nil _)).trans_le s.length_settling
    | serve a reply k =>
      simp only [Control.targets, Control.drives, Control.adopts, AsyncGenerator.drives]
      cases (e.asyncGenerator a).queue with
      | nil => exact Nat.zero_le 1
      | cons r rest => exact le_rfl
    | drain d =>
      obtain ⟨limit, executed, h⟩ := d
      simp only [Control.targets, Control.drives, Control.adopts, List.flatMap_nil, List.append_nil]
      split
      · exact Nat.zero_le 1
      · cases e.jobs.pop? with
        | none => exact Nat.zero_le 1
        | some next => exact next.1.2.length_targets
    | host h prompt => exact Nat.zero_le 1
  | perform op =>
    refine (congrArg List.length (List.append_nil _)).trans_le ?_
    rw [drives, op.drives_answers, List.append_nil]
    exact op.length_targets
  | finishFrame o code =>
    refine (congrArg List.length (List.append_nil _)).trans_le ?_
    rw [targets, drives]
    split
    · next s _ _ => exact s.length_settling
    · exact Nat.zero_le 1
  | _ => exact Nat.zero_le 1

/-- A job leaves alone what it does not settle. -/
theorem Engine.state_runJob (e : Engine H) (id : Nat) (d : Drain H) {j : Job H}
    (hj : p ∉ j.targets) :
    (((e.runJob id d j).engine).promise p).state = (e.promise p).state := by
  cases j with
  | reaction r v =>
    obtain ⟨kind, handler, capability⟩ := r
    cases handler with
    | some f => rfl
    | none =>
      cases capability with
      | none => rfl
      | some c =>
        let R : Rights := { Rights.all with settle := (· ≠ p) }
        have hne : c ≠ p := fun heq => hj (heq ▸ List.mem_singleton.2 rfl)
        have hset : e.Effects R (e.settle c kind v) := Engine.settle_effects (fun _ => hne) kind v
        exact hset.state fun hne => hne rfl
  | adoption c thenable => exact Engine.state_engage ..
  | callback label code => rfl

/-- **A promise keeps its state** in a step that is not about it. -/
theorem Step.state (h : Step w m w') (hm : m.clears = false) (hbacked : w.config.engine.Backed)
    (hp : p.index < w.config.engine.promises.size) (hnot : p ∉ w.settling m) :
    (w'.config.engine.promise p).state = (w.config.engine.promise p).state := by
  have hnot : p ∉ w.targets m ∧ (∀ x ∈ w.drives m, ∀ d ∈ x.2, p ∉ d.answers) ∧
      (m = .tick → p ∉ w.config.control.adopts w.config.engine) := by
    simp only [World.settling, List.mem_append, not_or, List.mem_flatMap, Option.mem_toList] at hnot
    refine ⟨hnot.1.1, fun x hx d hd hmem => hnot.1.2 ⟨x, hx, d, hd, hmem⟩, ?_⟩
    rintro rfl
    exact hnot.2
  obtain ⟨htargets, hdrives, hadopts⟩ := hnot
  by_cases hc : w.chore m = .nothing
  · let R : Rights := { Rights.all with
      settle := (· ≠ p)
      manage := False
      move := fun d => p ∉ d.answers }
    have hcovers : R.Covers w m := { Rights.all_covers w m with
      fresh := ⟨fun r hr => by rintro rfl; exact Nat.not_lt_of_le hr hp, fun _ _ => trivial,
        fun _ _ => trivial⟩
      targets := fun r hr _ heq => htargets (heq ▸ hr)
      manage := fun hne => hne hc
      drive := fun x hx => ⟨trivial, fun d hd => hdrives x hx d hd⟩ }
    refine (h.acts hm hcovers hbacked []).state id (fun hne => hne rfl)
      (fun a r hmove heq => hmove (heq ▸ List.mem_singleton.2 rfl)) ?_
    rintro f hf
    obtain ⟨args, k, x, hcall, hen⟩ := Control.exists_call hf
    refine ⟨?_, fun kind hcode => ?_⟩
    · -- an unused cell of the store holds a function without a duty
      by_contra hle
      have hle : ¬ f.index < w.config.engine.callables.size := hle
      rw [Engine.engagement?, Engine.callable, Store.get_of_size_le (Nat.le_of_not_lt hle)] at hen
      cases hen
    · have hcode : (w.config.engine.callable f).code = .adopt p kind := hcode
      cases h with
      | tick =>
        refine hadopts rfl ?_
        rw [hcall, Control.adopts, hcode]
        exact List.mem_singleton.2 rfl
      | _ => cases hcall
  · obtain ⟨rfl, hnext, -, d, id, j, jobs, d', hd, hpop, hw'⟩ | ⟨⟨draining, hw'⟩, -⟩ :=
      h.chore_cases hc
    · rw [hw']
      refine Engine.state_runJob ({ w.config.engine with jobs }) id d' fun hmem => htargets ?_
      obtain ⟨limit, executed, a⟩ := d
      simp only [World.chore, hd] at hnext
      split at hnext
      · cases hnext
      · next hlimit =>
        simpa [World.targets, hd, Control.targets, hlimit, hpop] using hmem
    · -- a chore by itself leaves all promises alone
      rw [hw', Engine.promise, Chore.promises_apply]
      rfl

/-- **A step settles at most one promise that exists.** -/
theorem Step.settles_one (h : Step w m w') (hm : m.clears = false)
    (hbacked : w.config.engine.Backed) (hp : p.index < w.config.engine.promises.size)
    (hq : q.index < w.config.engine.promises.size)
    (hp' : (w'.config.engine.promise p).state ≠ (w.config.engine.promise p).state)
    (hq' : (w'.config.engine.promise q).state ≠ (w.config.engine.promise q).state) : p = q := by
  have hmem : ∀ {r : PromiseRef}, r.index < w.config.engine.promises.size →
      (w'.config.engine.promise r).state ≠ (w.config.engine.promise r).state →
        r ∈ w.settling m := by
    intro r hr hne
    by_contra hnot
    exact hne (h.state hm hbacked hr hnot)
  have hlen := w.length_settling m
  have hpm := hmem hp hp'
  have hqm := hmem hq hq'
  match hs : w.settling m with
  | [] =>
    rw [hs] at hpm
    cases hpm
  | [r] =>
    rw [hs] at hpm hqm
    exact (List.mem_singleton.1 hpm).trans (List.mem_singleton.1 hqm).symm
  | _ :: _ :: _ =>
    rw [hs] at hlen
    simp at hlen

end Steps

end Microtask
