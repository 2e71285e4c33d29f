import Microtask.Proofs.Moves
import Microtask.Proofs.Outstanding

/-!
# Places

A duty that is not on its way waits in a job or in the reactions of a promise
(`World.Owes`). If it is owed once, then it is the one job that waits for it, or the
two reactions that were attached together to one promise.
-/

namespace Microtask

variable {H : Type}

/-! ## Counting to one -/

/-- The index of the only element that satisfies a predicate. -/
theorem exists_index_of_countP_eq_one {α : Type} {P : α → Bool} {xs : List α}
    (h : xs.countP P = 1) :
    ∃ (i : Nat) (a : α), xs[i]? = some a ∧ P a = true ∧
      ∀ (j : Nat) (b : α), xs[j]? = some b → P b = true → j = i := by
  induction xs with
  | nil => cases h
  | cons x xs ih =>
    rw [List.countP_cons] at h
    cases hx : P x with
    | true =>
      rw [hx, if_pos rfl] at h
      have hnone : xs.countP P = 0 := by omega
      rw [List.countP_eq_zero] at hnone
      refine ⟨0, x, rfl, hx, fun j b hj hb => ?_⟩
      cases j with
      | zero => rfl
      | succ j => exact absurd hb (hnone b (List.mem_of_getElem? hj))
    | false =>
      rw [hx] at h
      obtain ⟨i, a, hi, ha, honly⟩ := ih h
      refine ⟨i + 1, a, hi, ha, fun j b hj hb => ?_⟩
      cases j with
      | zero =>
        cases hj
        rw [hx] at hb
        cases hb
      | succ j => rw [honly j b hj hb]

/-- The cell that a sum of one comes from. -/
theorem Store.exists_of_total_eq_one {α : Type} [Inhabited α] {s : Store α} {f : α → Nat}
    (hf : f default = 0) (h : s.total f = 1) :
    ∃ i, f (s.get i) = 1 ∧ ∀ j, j ≠ i → f (s.get j) = 0 := by
  have hne : s.total f ≠ 0 := by omega
  obtain ⟨i, hi, hpos⟩ := Finset.exists_ne_zero_of_sum_ne_zero hne
  have hle : f (s.get i) ≤ s.total f := Store.le_total hf i
  have hsum := Finset.add_sum_erase (Finset.range s.size) (fun i => f (s.get i)) hi
  have hrest : ∑ j ∈ (Finset.range s.size).erase i, f (s.get j) = 0 := by
    rw [Store.total] at h hle
    omega
  refine ⟨i, by omega, fun j hj => ?_⟩
  by_cases hlt : j < s.size
  · exact Finset.sum_eq_zero_iff.1 hrest j (Finset.mem_erase.2 ⟨hj, Finset.mem_range.2 hlt⟩)
  · rw [Store.get_of_size_le (Nat.le_of_not_lt hlt), hf]

/-! ## Jobs and reactions -/

namespace World

/-- The jobs that are still to be run: those that wait in the queue, and those that
the host has taken off it. -/
def jobs (w : World H) : List (Job H) := w.config.engine.waitingJobs ++ w.held

theorem mem_jobs_of_pop {w : World H} {id : Nat} {j : Job H} {jobs : JobQueue (Job H)}
    (hpop : w.config.engine.jobs.pop? = some ((id, j), jobs)) : j ∈ w.jobs :=
  List.mem_append_left _ (Engine.waitingJobs_pop hpop ▸ List.mem_cons_self)

/-- Where a duty can wait. -/
inductive Place where
  /-- The job with the given number. -/
  | job (i : Nat)
  /-- The reaction of a promise with the given number. -/
  | reaction (q : PromiseRef) (kind : Settling) (i : Nat)

/-- The job or the reaction at a place has the duty. -/
def Owes (w : World H) (d : Duty) : Place → Prop
  | .job i => ∃ j, w.jobs[i]? = some j ∧ w.config.engine.jobDuty? j = some d
  | .reaction q kind i => ∃ r, ((w.config.engine.promise q).reactions kind)[i]? = some r ∧
      w.config.engine.reactionDuty? r = some d

/-- No function with the duty is being called. -/
def Uncalled (w : World H) (d : Duty) : Prop :=
  ∀ f kind, w.config.control.called? w.config.engine = some f →
    w.config.engine.engagement? f ≠ some (d, kind)

theorem uncalled_of_none {w : World H} (h : w.config.control.called? w.config.engine = none)
    (d : Duty) : w.Uncalled d := by
  intro f kind hf
  rw [h] at hf
  cases hf

variable {w : World H} {d : Duty} {issued : List (AsyncGeneratorRef × Request)}
  (hs : (w.ledger issued).Sound)
include hs

/-- A promise with a reaction that has the duty owes it. -/
theorem Owes.registered {q : PromiseRef} {kind : Settling} {i : Nat}
    (h : w.Owes d (.reaction q kind i)) :
    0 < w.config.engine.dutyCount d (w.config.engine.promise q).onFulfilled := by
  obtain ⟨r, hr, hd⟩ := h
  have hpos : 0 < w.config.engine.dutyCount d ((w.config.engine.promise q).reactions kind) :=
    List.countP_pos_iff.2 ⟨r, List.mem_of_getElem? hr, decide_eq_true hd⟩
  exact hpos.trans_eq (hs.dutyCount_reactions d q kind)

/-- A duty that waits somewhere is owed, and not only on the stack. -/
theorem Owes.count_lt {x : Place} (h : w.Owes d x) :
    (w.ledger issued).stack.count d < (w.ledger issued).owed d := by
  have hpos : 0 < w.config.engine.registered d + w.config.engine.jobCount d w.jobs := by
    cases x with
    | job i =>
      obtain ⟨j, hj, hd⟩ := h
      have hjob : 0 < w.config.engine.jobCount d w.jobs :=
        List.countP_pos_iff.2 ⟨j, List.mem_of_getElem? hj, decide_eq_true hd⟩
      omega
    | reaction q kind i =>
      have hreg := h.registered hs
      have hle := Engine.dutyCount_le_registered w.config.engine q d
      omega
  have hsame : (w.ledger issued).owed d = w.config.engine.registered d +
      w.config.engine.jobCount d w.jobs + _ + (w.ledger issued).stack.count d := rfl
  omega

/-- A duty that is not owed waits nowhere. -/
theorem not_owes (h : (w.ledger issued).owed d = 0) (x : Place) : ¬ w.Owes d x := by
  intro hx
  have hlt := hx.count_lt hs
  omega

omit hs in
/-- A duty that is owed once, and not on its way, waits in a job or in reactions. -/
theorem owed_one (hone : (w.ledger issued).owed d = 1)
    (hcalled : w.Uncalled d) (hstack : w.config.control.duties.count d = 0) :
    w.config.engine.registered d = 0 ∧ w.config.engine.jobCount d w.jobs = 1 ∨
      w.config.engine.registered d = 1 ∧ w.config.engine.jobCount d w.jobs = 0 := by
  have hsum : w.config.engine.registered d + w.config.engine.jobCount d w.jobs = 1 := by
    have hcalled' : ((w.ledger issued).called.toList.countP fun f =>
        (w.ledger issued).engine.duty? f = some d) = 0 := by
      refine List.countP_eq_zero.2 fun f hf hduty => ?_
      obtain ⟨⟨d', kind⟩, hen, rfl⟩ := Option.map_eq_some_iff.1 (of_decide_eq_true hduty)
      exact hcalled f kind (Option.mem_toList.1 hf) hen
    have hstack' : (w.ledger issued).stack.count d = 0 := hstack
    rw [Ledger.owed, hcalled', hstack'] at hone
    exact hone
  omega

/-- A duty that is owed by the jobs only waits in one of them. -/
theorem owes_job (hreg : w.config.engine.registered d = 0)
    (hjob : w.config.engine.jobCount d w.jobs = 1) :
    ∃ i j, w.jobs[i]? = some j ∧ w.config.engine.jobDuty? j = some d ∧
      ∀ x, w.Owes d x ↔ x = .job i := by
  obtain ⟨i, j, hi, hd, honly⟩ := exists_index_of_countP_eq_one hjob
  refine ⟨i, j, hi, of_decide_eq_true hd, fun x => ⟨fun hx => ?_, ?_⟩⟩
  · cases x with
    | job k =>
      obtain ⟨j', hk, hd'⟩ := hx
      rw [honly k j' hk (decide_eq_true hd')]
    | reaction q kind k =>
      have hle := Engine.dutyCount_le_registered w.config.engine q d
      exact absurd ((hx.registered hs).trans_le hle) (by omega)
  · rintro rfl
    exact ⟨j, hi, of_decide_eq_true hd⟩

/-- A duty that is owed by the promises only waits in a pair of reactions of one of
them. -/
theorem owes_reaction (hreg : w.config.engine.registered d = 1)
    (hjob : w.config.engine.jobCount d w.jobs = 0) :
    ∃ q i r s, (w.config.engine.promise q).onFulfilled[i]? = some r ∧
      (w.config.engine.promise q).onRejected[i]? = some s ∧ w.config.engine.Pair r s ∧
      w.config.engine.reactionDuty? r = some d ∧
      ∀ x, w.Owes d x ↔ ∃ kind, x = .reaction q kind i := by
  have hnone : w.config.engine.carried d default = 0 := rfl
  obtain ⟨n, hn, hothers⟩ := Store.exists_of_total_eq_one hnone hreg
  let q : PromiseRef := ⟨n⟩
  have hcount : ∀ kind, w.config.engine.dutyCount d
      ((w.config.engine.promise q).reactions kind) = 1 :=
    fun kind => (hs.dutyCount_reactions d q kind).trans hn
  obtain ⟨i, r, hr, hd, -⟩ := exists_index_of_countP_eq_one (hcount .fulfill)
  have hduty : w.config.engine.reactionDuty? r = some d := of_decide_eq_true hd
  -- the other callback has the same number
  have hpairs := hs.paired q
  obtain ⟨hi, hget⟩ := List.getElem?_eq_some_iff.1 hr
  have hi' : i < (w.config.engine.promise q).onRejected.length := hpairs.length_eq ▸ hi
  let s := (w.config.engine.promise q).onRejected[i]
  have hs' : (w.config.engine.promise q).onRejected[i]? = some s := List.getElem?_eq_getElem hi'
  have hpair : w.config.engine.Pair r s := hget ▸ hpairs.get hi hi'
  have hsame : w.config.engine.reactionDuty? s = some d := by
    obtain ⟨d', hbr, hbs⟩ := hpair.bears
    rw [hbs.reactionDuty?, ← hbr.reactionDuty?, hduty]
  have hcarries : ∀ kind, w.Owes d (.reaction q kind i) := by
    intro kind
    cases kind with
    | fulfill => exact ⟨r, hr, hduty⟩
    | reject => exact ⟨s, hs', hsame⟩
  refine ⟨q, i, r, s, hr, hs', hpair, hduty, fun x => ⟨fun hx => ?_, ?_⟩⟩
  · cases x with
    | job k =>
      obtain ⟨j, hj, hd'⟩ := hx
      rw [Engine.jobCount, List.countP_eq_zero] at hjob
      exact absurd (decide_eq_true hd') (hjob j (List.mem_of_getElem? hj))
    | reaction t kind k =>
      have ht : t = q := by
        by_contra hne
        have hzero := hothers t.index fun hi => hne (PromiseRef.index_inj.1 hi)
        exact absurd hzero (hx.registered hs).ne'
      subst ht
      obtain ⟨m, -, -, -, honly⟩ := exists_index_of_countP_eq_one (hcount kind)
      obtain ⟨r₁, hr₁, hd₁⟩ := hx
      obtain ⟨r₂, hr₂, hd₂⟩ := hcarries kind
      have hkm := honly k r₁ hr₁ (decide_eq_true hd₁)
      have him := honly i r₂ hr₂ (decide_eq_true hd₂)
      exact ⟨kind, by rw [hkm, him]⟩
  · rintro ⟨kind, rfl⟩
    exact hcarries kind

end World

end Microtask
