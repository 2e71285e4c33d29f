import Mathlib.Data.List.Nodup
import Microtask.Proofs.History

/-!
# Unhandled rejections

Three pieces of state say which rejections nobody has handled: the mark of a promise
that a reaction was ever attached, the list of recorded promises, and the state of each
promise. They change at different moments. `Engine.Tracked` says that together they
always tell the same as the history: the recorded promises are those that are `due`,
rejected without a reaction and not yet reported.

A promise is taken off the list by its id. That takes off nothing else because no two
promises have the same id (`Engine.Numbered`), provided that all promises were created
by the engine (`Engine.Genuine`).

Main statement: `Run.rejections_tracked`.
-/

namespace Microtask

variable {H : Type}

/-! ## What entries tell -/

/-- The promises that were rejected, in order. -/
def rejectionsIn : List (Entry H) → List PromiseRef
  | [] => []
  | en :: hs =>
    match en.happening with
    | .settled p .reject _ => rejectionsIn hs ++ [p]
    | _ => rejectionsIn hs

/-- The rejected promises, less those with a reaction and those that are listed. -/
def untended (hs : List (Entry H)) (passed : List PromiseRef) : List PromiseRef :=
  (rejectionsIn hs).filter fun p => registrationsOf p hs = [] ∧ p ∉ passed

/-- The promises that have been through a report, in order. A report goes through every
rejected promise that has no reaction by then and has not been through one before. -/
def passedIn : List (Entry H) → List PromiseRef
  | [] => []
  | en :: hs =>
    match en.happening with
    | .reported _ => passedIn hs ++ untended hs (passedIn hs)
    | _ => passedIn hs

/-- The promises that the next report will go through, if nothing else happens. -/
def due (hs : List (Entry H)) : List PromiseRef := untended hs (passedIn hs)

/-- Whether the reasons that are reported are kept. -/
def RejectionPolicy.keeps : RejectionPolicy → Bool
  | .ignore => false
  | .warn | .collect => true

/-- The promises whose reasons were kept by a report and not handed over since, in order. -/
def keptIn : List (Entry H) → List PromiseRef
  | [] => []
  | en :: hs =>
    match en.happening with
    | .reported policy => keptIn hs ++ if policy.keeps then due hs else []
    | .handedOver => []
    | _ => keptIn hs

section Entries

variable {p : PromiseRef} {hs : List (Entry H)}

theorem mem_untended {passed : List PromiseRef} :
    p ∈ untended hs passed ↔ p ∈ rejectionsIn hs ∧ registrationsOf p hs = [] ∧ p ∉ passed := by
  simp [untended, List.mem_filter]

theorem mem_due : p ∈ due hs ↔ p ∈ rejectionsIn hs ∧ registrationsOf p hs = [] ∧ p ∉ passedIn hs :=
  mem_untended

/-- What happens adds to the rejections only. -/
theorem mem_rejectionsIn_cons (en : Entry H) (h : p ∈ rejectionsIn hs) :
    p ∈ rejectionsIn (en :: hs) := by
  rw [rejectionsIn]
  split
  · exact List.mem_append_left _ h
  · exact h

theorem mem_rejectionsIn_of_passedIn (h : p ∈ passedIn hs) : p ∈ rejectionsIn hs := by
  induction hs with
  | nil => cases h
  | cons en hs ih =>
    refine mem_rejectionsIn_cons en ?_
    rw [passedIn] at h
    split at h
    · rcases List.mem_append.1 h with h | h
      · exact ih h
      · exact (mem_untended.1 h).1
    · exact ih h

theorem mem_rejectionsIn_of_keptIn (h : p ∈ keptIn hs) : p ∈ rejectionsIn hs := by
  induction hs with
  | nil => cases h
  | cons en hs ih =>
    refine mem_rejectionsIn_cons en ?_
    rw [keptIn] at h
    split at h
    · rcases List.mem_append.1 h with h | h
      · exact ih h
      · split at h
        · exact (mem_due.1 h).1
        · cases h
    · cases h
    · exact ih h

/-- **A promise has been through a report exactly if there was a report at which it was
rejected and had no reaction.** -/
theorem mem_passedIn :
    p ∈ passedIn hs ↔ ∃ newer policy jobs older, hs = newer ++ ⟨.reported policy, jobs⟩ :: older ∧
      p ∈ rejectionsIn older ∧ registrationsOf p older = [] := by
  constructor
  · intro h
    induction hs with
    | nil => cases h
    | cons en hs ih =>
      have hlater : p ∈ passedIn hs → ∃ newer policy jobs older,
          en :: hs = newer ++ ⟨.reported policy, jobs⟩ :: older ∧
            p ∈ rejectionsIn older ∧ registrationsOf p older = [] := fun h => by
        obtain ⟨newer, policy, jobs, older, rfl, hp⟩ := ih h
        exact ⟨en :: newer, policy, jobs, older, rfl, hp⟩
      rw [passedIn] at h
      split at h
      · next policy heq =>
        rcases List.mem_append.1 h with h | h
        · exact hlater h
        · obtain ⟨happening, jobs⟩ := en
          cases heq
          exact ⟨[], policy, jobs, hs, rfl, (mem_untended.1 h).1, (mem_untended.1 h).2.1⟩
      · exact hlater h
  · rintro ⟨newer, policy, jobs, older, rfl, hrej, hreg⟩
    induction newer with
    | nil =>
      rw [List.nil_append, passedIn]
      by_cases hp : p ∈ passedIn older
      · exact List.mem_append_left _ hp
      · exact List.mem_append_right _ (mem_untended.2 ⟨hrej, hreg, hp⟩)
    | cons en newer ih =>
      rw [List.cons_append, passedIn]
      split
      · exact List.mem_append_left _ ih
      · exact ih

theorem nodup_passedIn (h : (rejectionsIn hs).Nodup) : (passedIn hs).Nodup := by
  induction hs with
  | nil => exact List.nodup_nil
  | cons en hs ih =>
    have hrest : (rejectionsIn hs).Nodup := by
      rw [rejectionsIn] at h
      split at h
      · exact (List.nodup_append.1 h).1
      · exact h
    rw [passedIn]
    split
    · refine List.nodup_append.2 ⟨ih hrest, hrest.filter _, ?_⟩
      rintro p hp q hq rfl
      exact (mem_untended.1 hq).2.2 hp
    · exact ih hrest

end Entries

/-! ## Ids -/

namespace Engine

/-- No two promises that the engine has created have the same id. -/
structure Numbered (e : Engine H) : Prop where
  lt : ∀ p, (e.promise p).id < e.nextId
  inj : ∀ p q, (e.promise p).id = (e.promise q).id → (e.promise p).id ≠ 0 → p = q

/-- Every promise of the store was created by the engine, which numbers promises from 1.
Others get there only if the host makes up a reference that it was never given. -/
def Genuine (e : Engine H) : Prop := ∀ p, p.index < e.promises.size → (e.promise p).id ≠ 0

variable {e e' : Engine H}

theorem Numbered.of_ids (h : e.Numbered) (hid : ∀ p, (e'.promise p).id = (e.promise p).id)
    (hn : e.nextId ≤ e'.nextId) : e'.Numbered := by
  refine ⟨fun p => ?_, fun p q => ?_⟩
  · rw [hid]
    exact (h.lt p).trans_le hn
  · rw [hid, hid]
    exact h.inj p q

theorem Numbered.newPromise (h : e.Numbered) : e.newPromise.2.Numbered := by
  refine ⟨fun p => ?_, fun p q hpq hp => ?_⟩
  · rw [promise_newPromise]
    split
    · exact Nat.lt_succ_self e.nextId
    · exact (h.lt p).trans (Nat.lt_succ_self _)
  · have hlp := h.lt p
    have hlq := h.lt q
    rw [promise_newPromise] at hpq hp
    rw [promise_newPromise e q] at hpq
    split at hpq <;> split at hpq
    · next hp hq => exact hp.trans hq.symm
    · exact absurd hpq hlq.ne'
    · exact absurd hpq hlp.ne
    · next hne _ =>
      rw [if_neg hne] at hp
      exact h.inj p q hpq hp

theorem Happens.numbered {x : Happening} (hx : e.Happens x e') (h : e.Numbered) : e'.Numbered := by
  cases hx with
  | created => exact h.newPromise
  | registered q r =>
    exact h.of_ids (read_performThen e q _ _ _ Promise.id fun _ _ _ => rfl)
      (frame_performThen e q _ _ _ nextId fun _ _ _ _ => rfl).ge
  | @settled q kind v hq =>
    exact h.of_ids (read_settleNow hq Promise.id (fun _ _ _ => rfl) kind v)
      (frame_settleNow nextId (fun _ _ _ _ => rfl) e q kind v).ge
  | adopted q s => exact h.of_ids (read_link Promise.id (fun _ _ => rfl) e q s) le_rfl

theorem Still.genuine (hs : e.Still e') (h : e'.Genuine) : e.Genuine :=
  fun p hp => hs.id p ▸ h p (hp.trans_le hs.promises)

/-- An engine with a promise that it has not created never loses it. -/
theorem Happens.genuine {x : Happening} (hx : e.Happens x e') (h : e'.Genuine) : e.Genuine := by
  intro p hp
  have hid := h p (hp.trans_le hx.grows.promises)
  cases hx with
  | created => rwa [promise_newPromise, if_neg (by rintro rfl; exact hp.ne rfl)] at hid
  | registered q r => rwa [read_performThen e q _ _ _ Promise.id fun _ _ _ => rfl] at hid
  | settled kind v hq => rwa [read_settleNow hq Promise.id fun _ _ _ => rfl] at hid
  | adopted q s => rwa [read_link Promise.id fun _ _ => rfl] at hid

/-! ## Reading after writing -/

theorem unhandled_fulfillNow (e : Engine H) (p : PromiseRef) (v : Value) :
    (e.settleNow p .fulfill v).unhandled = e.unhandled := by
  rw [settleNow, fulfillNow]
  split <;> rfl

theorem unhandled_rejectNow {p : PromiseRef} (hp : (e.promise p).state = .pending) (v : Value) :
    (e.settleNow p .reject v).unhandled =
      if (e.promise p).handled = true then e.unhandled else e.unhandled ++ [p] := by
  rw [settleNow, rejectNow]
  simp only [hp]
  cases (e.promise p).handled <;> rfl

section Attaching

variable (p : PromiseRef) (f g : Option FunctionRef) (capability : Option PromiseRef)

/-- Attaching to a recorded promise takes it off the list, by its id. -/
theorem unhandled_performThen {v : Value} (hs : (e.promise p).state = .rejected v)
    (hh : (e.promise p).handled = false) :
    (e.performThen p f g capability).unhandled =
      e.unhandled.filter fun q => (e.promise q).id ≠ (e.promise p).id := by
  have hid := read_modifyPromise Promise.id ({ · with handled := true }) (fun _ => rfl) e p
  rw [performThen]
  simp only [hs, hh]
  refine List.filter_congr fun q _ => ?_
  rw [hid]

theorem unhandled_performThen_of_not
    (h : ¬ ((∃ v, (e.promise p).state = .rejected v) ∧ (e.promise p).handled = false)) :
    (e.performThen p f g capability).unhandled = e.unhandled := by
  rw [performThen]
  cases hs : (e.promise p).state with
  | pending | fulfilled v => rfl
  | rejected v =>
    cases hh : (e.promise p).handled with
    | true => rfl
    | false => exact absurd ⟨⟨v, hs⟩, hh⟩ h

end Attaching

/-! ## Tracking -/

/-- The reason of a rejected promise. -/
def reason (e : Engine H) (p : PromiseRef) : Value :=
  match (e.promise p).state with
  | .rejected reason => reason
  | _ => .undefined

theorem reason_congr (h : ∀ p, (e'.promise p).state = (e.promise p).state) :
    e'.reason = e.reason :=
  funext fun p => by rw [reason, reason, h]

/-- The records of rejections tell the same as the history. -/
structure Tracked (e : Engine H) (hs : List (Entry H)) : Prop where
  numbered : e.Numbered
  rejected : ∀ p, p ∈ rejectionsIn hs ↔ ∃ v, (e.promise p).state = .rejected v
  nodup : (rejectionsIn hs).Nodup
  handled : ∀ p, (e.promise p).handled = true ↔ registrationsOf p hs ≠ []
  unhandled : e.unhandled = due hs
  reported : e.reported = (keptIn hs).map e.reason

namespace Tracked

variable {hs hs' : List (Entry H)}

/-- The recorded promises are rejected and have no reaction. -/
theorem mem_unhandled (h : e.Tracked hs) {p : PromiseRef} (hp : p ∈ e.unhandled) :
    (∃ v, (e.promise p).state = .rejected v) ∧ (e.promise p).handled = false := by
  rw [h.unhandled, mem_due] at hp
  refine ⟨(h.rejected p).1 hp.1, ?_⟩
  cases hh : (e.promise p).handled with
  | false => rfl
  | true => exact absurd hp.2.1 ((h.handled p).1 hh)

/-- Nothing that matters happens. -/
theorem of_same (h : e.Tracked hs) (hn : e'.Numbered)
    (hstate : ∀ p, (e'.promise p).state = (e.promise p).state)
    (hhandled : ∀ p, (e'.promise p).handled = (e.promise p).handled)
    (hu : e'.unhandled = e.unhandled) (hr : e'.reported = e.reported)
    (hregs : ∀ p, registrationsOf p hs' = registrationsOf p hs)
    (hrej : rejectionsIn hs' = rejectionsIn hs) (hpassed : passedIn hs' = passedIn hs)
    (hkept : keptIn hs' = keptIn hs) : e'.Tracked hs' := by
  refine ⟨hn, fun p => ?_, hrej ▸ h.nodup, fun p => ?_, ?_, ?_⟩
  · rw [hrej, hstate]
    exact h.rejected p
  · rw [hhandled, hregs]
    exact h.handled p
  · rw [hu, h.unhandled]
    simp only [due, untended, hrej, hregs, hpassed]
  · rw [hr, h.reported, hkept, reason_congr hstate]

theorem still (h : e.Tracked hs) (he : e.Still e') : e'.Tracked hs :=
  h.of_same (h.numbered.of_ids he.id he.nextId) he.state he.handled he.unhandled he.reported
    (fun _ => rfl) rfl rfl rfl

/-- A promise that has a reaction by now is not due. -/
theorem due_registered (q : PromiseRef) (r : Registration) (jobs : List (Job H)) :
    due (⟨.registered q r, jobs⟩ :: hs) = (due hs).filter (· ≠ q) := by
  simp only [due, untended, List.filter_filter]
  refine List.filter_congr fun p _ => ?_
  simp only [registrationsOf, passedIn]
  by_cases hp : q = p
  · subst hp
    simp
  · simp [hp, Ne.symm hp]

theorem registered (h : e.Tracked hs) {q : PromiseRef} (hq : (e.promise q).id ≠ 0)
    (r : Registration) (jobs : List (Job H)) :
    (e.performThen q r.onFulfilled r.onRejected r.capability).Tracked
      (⟨.registered q r, jobs⟩ :: hs) := by
  have hx := Happens.registered e q r
  have hstate : ∀ p, ((e.performThen q r.onFulfilled r.onRejected r.capability).promise p).state =
      (e.promise p).state := read_performThen e q _ _ _ Promise.state fun _ _ _ => rfl
  refine ⟨hx.numbered h.numbered, fun p => ?_, h.nodup, fun p => ?_, ?_, ?_⟩
  · rw [hstate]
    exact h.rejected p
  · rw [promise_performThen]
    simp only [registrationsOf]
    split
    · next hp =>
      subst hp
      simp [Promise.handled_attach]
    · next hp =>
      rw [if_neg (Ne.symm hp)]
      exact h.handled p
  · rw [due_registered, ← h.unhandled]
    by_cases hdue : (∃ v, (e.promise q).state = .rejected v) ∧ (e.promise q).handled = false
    · obtain ⟨⟨v, hv⟩, hh⟩ := hdue
      rw [unhandled_performThen q _ _ _ hv hh]
      -- the id tells the promise from all others
      refine List.filter_congr fun p _ => decide_eq_decide.2 (not_congr ⟨fun hid => ?_, ?_⟩)
      · exact (h.numbered.inj q p hid.symm hq).symm
      · rintro rfl
        rfl
    · rw [unhandled_performThen_of_not q _ _ _ hdue]
      refine (List.filter_eq_self.2 fun p hp => ?_).symm
      refine decide_eq_true ?_
      rintro rfl
      exact hdue (h.mem_unhandled hp)
  · rw [reason_congr hstate]
    exact (frame_performThen e q _ _ _ Engine.reported fun _ _ _ _ => rfl).trans h.reported

/-- A promise that settles has not been rejected before. -/
theorem not_mem_rejectionsIn (h : e.Tracked hs) {q : PromiseRef}
    (hq : (e.promise q).state = .pending) : q ∉ rejectionsIn hs := by
  intro hmem
  obtain ⟨v, hv⟩ := (h.rejected q).1 hmem
  rw [hq] at hv
  cases hv

section Settling

variable {q : PromiseRef} (hq : (e.promise q).state = .pending) (v : Value)
include hq

/-- Settling a promise keeps the reasons of those that were rejected before. -/
theorem reported_settled (h : e.Tracked hs) (kind : Settling) :
    (e.settleNow q kind v).reported = (keptIn hs).map (e.settleNow q kind v).reason := by
  rw [frame_settleNow Engine.reported fun _ _ _ _ => rfl, h.reported]
  refine List.map_congr_left fun p hp => ?_
  have hne : p ≠ q := by
    rintro rfl
    exact h.not_mem_rejectionsIn hq (mem_rejectionsIn_of_keptIn hp)
  rw [reason, reason, promise_settleNow hq, if_neg hne]

theorem fulfilled (h : e.Tracked hs) (jobs : List (Job H)) :
    (e.settleNow q .fulfill v).Tracked (⟨.settled q .fulfill v, jobs⟩ :: hs) := by
  refine ⟨(Happens.settled .fulfill v hq).numbered h.numbered, fun p => ?_, h.nodup, fun p => ?_, ?_,
    h.reported_settled hq v .fulfill⟩
  · rw [promise_settleNow hq]
    split
    · next hp =>
      subst hp
      exact iff_of_false (h.not_mem_rejectionsIn hq) (by rintro ⟨w, hw⟩; cases hw)
    · exact h.rejected p
  · rw [read_settleNow hq Promise.handled fun _ _ _ => rfl]
    exact h.handled p
  · rw [unhandled_fulfillNow]
    exact h.unhandled

theorem rejectedNow (h : e.Tracked hs) (jobs : List (Job H)) :
    (e.settleNow q .reject v).Tracked (⟨.settled q .reject v, jobs⟩ :: hs) := by
  have hnew := h.not_mem_rejectionsIn hq
  have hpassed : q ∉ passedIn hs := fun hmem => hnew (mem_rejectionsIn_of_passedIn hmem)
  refine ⟨(Happens.settled .reject v hq).numbered h.numbered, fun p => ?_, ?_, fun p => ?_, ?_,
    h.reported_settled hq v .reject⟩
  · rw [promise_settleNow hq]
    simp only [rejectionsIn, List.mem_append, List.mem_singleton]
    split
    · next hp => exact iff_of_true (.inr hp) ⟨v, rfl⟩
    · next hp =>
      rw [h.rejected p]
      exact or_iff_left hp
  · exact List.nodup_append.2 ⟨h.nodup, List.nodup_singleton q, by
      rintro p hp _ (_ | ⟨_, ⟨⟩⟩) rfl
      exact hnew hp⟩
  · rw [read_settleNow hq Promise.handled fun _ _ _ => rfl]
    exact h.handled p
  · have hdue : due (⟨.settled q .reject v, jobs⟩ :: hs) =
        due hs ++ if registrationsOf q hs = [] then [q] else [] := by
      simp only [due, untended, rejectionsIn, registrationsOf, passedIn, List.filter_append,
        List.filter_cons, List.filter_nil, hpassed, not_false_eq_true, and_true, decide_eq_true_eq]
      rfl
    rw [unhandled_rejectNow hq, hdue, h.unhandled]
    by_cases hh : (e.promise q).handled = true
    · rw [if_pos hh, if_neg ((h.handled q).1 hh), List.append_nil]
    · rw [if_neg hh, if_pos (not_not.1 (mt (h.handled q).2 hh))]

end Settling

/-- Whatever happens, the records of rejections follow. -/
theorem happens (h : e.Tracked hs) {x : Happening} (hx : e.Happens x e') (he : e'.Genuine)
    (jobs : List (Job H)) : e'.Tracked (⟨x, jobs⟩ :: hs) := by
  have hn := hx.numbered h.numbered
  cases hx with
  | created =>
    exact h.of_same hn (read_newPromise Promise.state (fun _ => rfl) e)
      (read_newPromise Promise.handled (fun _ => rfl) e) rfl rfl (fun _ => rfl) rfl rfl rfl
  | registered q r =>
    refine h.registered ?_ r jobs
    have hid := he q (by rw [size_performThen]; omega)
    rwa [read_performThen e q _ _ _ Promise.id fun _ _ _ => rfl] at hid
  | @settled q kind v hq =>
    cases kind with
    | fulfill => exact h.fulfilled hq v jobs
    | reject => exact h.rejectedNow hq v jobs
  | adopted q s =>
    exact h.of_same hn (read_link Promise.state (fun _ _ => rfl) e q s)
      (read_link Promise.handled (fun _ _ => rfl) e q s) rfl rfl (fun _ => rfl) rfl rfl rfl

/-! ## Reports -/

/-- A report finds the reasons of all recorded promises. -/
theorem unhandledReasons (h : e.Tracked hs) :
    e.unhandledReasons.map (·.2) = e.unhandled.map e.reason := by
  calc e.unhandledReasons.map (·.2)
      = (e.unhandled.filterMap fun p => some (p, e.reason p)).map (·.2) := by
        refine congrArg (List.map _) (List.filterMap_congr fun p hp => ?_)
        obtain ⟨⟨v, hv⟩, hh⟩ := h.mem_unhandled hp
        simp only [reason, hv, hh]
    _ = e.unhandled.map e.reason := by
        rw [List.filterMap_eq_map', List.map_map]
        rfl

/-- A report empties the list and appends the reasons to those that were reported, unless
the policy is to drop them. -/
theorem reportUnhandled (h : e.Tracked hs) :
    e.reportUnhandled.unhandled = [] ∧
      e.reportUnhandled.reported =
        e.reported ++ if e.policy.keeps then e.unhandled.map e.reason else [] := by
  refine ⟨rfl, ?_⟩
  rw [Engine.reportUnhandled, ← h.unhandledReasons]
  cases e.policy with
  | ignore => exact (List.append_nil _).symm
  | warn | collect => rfl

theorem report (h : e.Tracked hs) :
    e.reportUnhandled.Tracked (⟨.reported e.policy, []⟩ :: hs) := by
  obtain ⟨hu, hr⟩ := h.reportUnhandled
  refine ⟨h.numbered.of_ids (fun _ => rfl) le_rfl, h.rejected, h.nodup, h.handled, ?_, ?_⟩
  · rw [hu]
    refine (List.filter_eq_nil_iff.2 fun p hp hdue => ?_).symm
    obtain ⟨hregs, hpassed⟩ := of_decide_eq_true hdue
    rw [passedIn, List.mem_append, not_or] at hpassed
    exact hpassed.2 (mem_untended.2 ⟨hp, hregs, hpassed.1⟩)
  · have hreason : e.reportUnhandled.reason = e.reason := reason_congr fun _ => rfl
    rw [hr, h.reported, hreason, h.unhandled, keptIn, List.map_append]
    split <;> rfl

/-- Chores keep the records in order, a reset apart. -/
theorem chore (h : e.Tracked hs) {c : Chore H} (hc : c ≠ .reset) :
    (c.apply e).Tracked (c.entries e ++ hs) := by
  have hn : ∀ {e' : Engine H}, e'.promises = e.promises → e'.nextId = e.nextId → e'.Numbered :=
    fun hp hid => h.numbered.of_ids (fun p => by rw [promise, promise, hp]) hid.ge
  cases c with
  | nothing => exact h
  | next =>
    simp only [Chore.apply]
    split
    · exact h.of_same (hn rfl rfl) (fun _ => rfl) (fun _ => rfl) rfl rfl (fun _ => rfl) rfl rfl rfl
    · exact h
  | report => exact h.report
  | handOver =>
    exact ⟨hn rfl rfl, h.rejected, h.nodup, h.handled, h.unhandled, rfl⟩
  | put j =>
    exact h.of_same (hn rfl rfl) (fun _ => rfl) (fun _ => rfl) rfl rfl (fun _ => rfl) rfl rfl rfl
  | clear =>
    exact h.of_same (hn rfl rfl) (fun _ => rfl) (fun _ => rfl) rfl rfl (fun _ => rfl) rfl rfl rfl
  | reset => exact absurd rfl hc

end Tracked

end Engine

/-- Without a reset, and with genuine promises only, the records of rejections tell the
same as the history. -/
theorem Chronicle.tracked {es : List (Event H)} {w : World H} {hs : List (Entry H)}
    (h : Chronicle es w hs) (hreset : ∀ ev ∈ es, ev.move ≠ .perform .reset)
    (hgenuine : w.config.engine.Genuine) : w.config.engine.Tracked hs := by
  refine h.preserve (P := fun e hs => e.Genuine → e.Tracked hs) (C := (· ≠ .reset))
    (fun hs h he => (h (hs.genuine he)).still hs)
    (fun hx _ h he => (h (hx.genuine he)).happens hx he _) (fun {e hs c} hc h he => ?_) (fun _ => ?_)
    (fun ev hev => World.chore_ne_reset (hreset ev hev)) hgenuine
  · refine (h fun p => ?_).chore hc
    rw [Engine.promise, ← c.promises_apply e]
    exact he p
  · have hnone : ∀ p, (({} : World H).config.engine.promise p) = {} :=
      fun _ => Engine.promise_of_size_le (Nat.zero_le _)
    refine ⟨⟨fun p => ?_, fun p q _ hp => ?_⟩, fun p => ?_, List.nodup_nil, fun p => ?_, rfl, rfl⟩
    · rw [hnone]
      exact Nat.one_pos
    · rw [hnone] at hp
      exact absurd rfl hp
    · rw [hnone]
      exact iff_of_false List.not_mem_nil (by rintro ⟨v, hv⟩; cases hv)
    · rw [hnone]
      exact iff_of_false Bool.false_ne_true (not_not.2 rfl)

/-! ## Drains -/

/-- A job that begins does not end the drain. -/
theorem Engine.runJob_control_ne (e : Engine H) (id : Nat) (d : Drain H) (j : Job H)
    (a : Activation H) (answer : Answer H) : (e.runJob id d j).control ≠ .host a (.answered answer) := by
  cases j with
  | reaction r v =>
    simp only [runJob]
    split
    · rintro ⟨⟩
    · split <;> rintro ⟨⟩
  | adoption p q => rintro ⟨⟩
  | callback label code => rintro ⟨⟩

/-- A drain that answers with a number of jobs has reported everything that is due. -/
theorem World.drained {w : World H} {d : Drain H} (hd : w.config.control = .drain d)
    {a : Activation H} {n : Nat}
    (ht : w.config.tick.control = .host a (.answered (.drained (.ok n)))) :
    w.chore .tick = .report ∧
      w.config.tick.engine = { w.config.engine with draining := false }.reportUnhandled := by
  obtain ⟨hc, a', n', hr⟩ | ⟨hc, a', n', hr⟩ | ⟨hc, id, j, jobs, d', hpop, hr⟩ := w.round hd
  · rw [hr] at ht
    cases ht
  · exact ⟨hc, by rw [hr]⟩
  · rw [hr] at ht
    exact absurd ht (Engine.runJob_control_ne _ id d' j a _)

/-- A drain that answers with an error has reported nothing. -/
theorem World.drain_failed {w : World H} {d : Drain H} (hd : w.config.control = .drain d)
    {a : Activation H} {error : EngineError}
    (ht : w.config.tick.control = .host a (.answered (.drained (.error error)))) :
    w.config.tick.engine = { w.config.engine with draining := false } := by
  obtain ⟨hc, a', n', hr⟩ | ⟨hc, a', n', hr⟩ | ⟨hc, id, j, jobs, d', hpop, hr⟩ := w.round hd
  · rw [hr]
  · rw [hr] at ht
    cases ht
  · rw [hr] at ht
    exact absurd ht (Engine.runJob_control_ne _ id d' j a _)

/-! ## Runs -/

/-- The records of rejections are exact. -/
structure World.TracksRejections (w : World H) (hs : List (Entry H)) : Prop where
  /-- What is recorded is what is due, in the order of the rejections. -/
  pending : w.config.engine.unhandled = due hs
  nodup : w.config.engine.unhandled.Nodup
  mem_pending : ∀ p, p ∈ w.config.engine.unhandled ↔
    (∃ v, (w.config.engine.promise p).state = .rejected v) ∧ registrationsOf p hs = [] ∧
      p ∉ passedIn hs
  /-- What was reported and not handed over are the reasons that reports kept, in order. -/
  kept : w.config.engine.reported = (keptIn hs).map w.config.engine.reason
  /-- No promise goes through two reports. -/
  once : (passedIn hs).Nodup
  /-- A promise goes through a report if it is rejected and has no reaction by then, and
  not otherwise. -/
  passed : ∀ p, p ∈ passedIn hs ↔ ∃ newer policy jobs older,
    hs = newer ++ ⟨.reported policy, jobs⟩ :: older ∧ p ∈ rejectionsIn older ∧
      registrationsOf p older = []
  /-- The end of a drain reports everything that is due. -/
  drained : ∀ d a n, w.config.control = .drain d →
    w.config.tick.control = .host a (.answered (.drained (.ok n))) →
    w.chore .tick = .report ∧ w.config.tick.engine.unhandled = [] ∧
      w.config.tick.engine.reported = w.config.engine.reported ++
        if w.config.engine.policy.keeps then w.config.engine.unhandled.map w.config.engine.reason
        else []
  /-- A drain that fails reports nothing. -/
  failed : ∀ d a error, w.config.control = .drain d →
    w.config.tick.control = .host a (.answered (.drained (.error error))) →
    w.config.tick.engine.unhandled = w.config.engine.unhandled ∧
      w.config.tick.engine.reported = w.config.engine.reported
  /-- A drain inside another does nothing. -/
  nested : w.config.engine.draining = true → ∀ a,
    w.config.engine.runJobs a = ⟨w.config.engine, .host a (.answered (.drained (.ok 0)))⟩

/-- **Unhandled rejections are tracked exactly**, in every run without a reset all of
whose promises the engine has created, however the run is told. -/
theorem Run.rejections_tracked {es : List (Event H)} {w : World H} (h : Run es w)
    (hreset : ∀ ev ∈ es, ev.move ≠ .perform .reset) (hgenuine : w.config.engine.Genuine) :
    (∃ hs, Chronicle es w hs) ∧ ∀ hs, Chronicle es w hs → w.TracksRejections hs := by
  refine ⟨h.chronicle, fun hs hc => ?_⟩
  have ht := hc.tracked hreset hgenuine
  refine
    { pending := ht.unhandled
      nodup := ht.unhandled ▸ ht.nodup.filter _
      mem_pending := fun p => by rw [ht.unhandled, mem_due, ht.rejected p]
      kept := ht.reported
      once := nodup_passedIn ht.nodup
      passed := fun p => mem_passedIn
      drained := fun d a n hd hn => ?_
      failed := fun d a error hd herror => ?_
      nested := fun hdraining a => by rw [Engine.runJobs, if_pos hdraining] }
  · obtain ⟨hreport, he⟩ := World.drained hd hn
    have hstop : w.config.engine.Still { w.config.engine with draining := false } :=
      .of_eq rfl rfl rfl rfl le_rfl
    rw [he]
    exact ⟨hreport, (ht.still hstop).reportUnhandled⟩
  · rw [World.drain_failed hd herror]
    exact ⟨rfl, rfl⟩

/-- A rejection that is due when a drain ends. -/
theorem Run.rejections_tracked_drain :
    ∃ (es : List (Event Unit)) (w : World Unit), Run es w ∧
      (∀ ev ∈ es, ev.move ≠ .perform .reset) ∧ w.config.engine.Genuine ∧
      w.config.engine.unhandled = [⟨0⟩] ∧ w.config.tick.engine.unhandled = [] ∧
      w.config.tick.engine.reported = [.null] := by
  have h₁ : Step ({} : World Unit) (.perform .newPromise) _ := .perform_free _ rfl rfl
  have h₂ := Steps.step (.step .refl h₁) (.perform_free (.reject ⟨0⟩ .null) rfl rfl)
  have h₃ := h₂.step (.perform_free .runJobs rfl rfl)
  refine ⟨_, _, h₃, (fun hreset hgenuine => ⟨hreset, hgenuine, rfl, ?drained⟩) (by simp) ?genuine⟩
  case drained =>
    obtain ⟨⟨hs, hc⟩, hall⟩ := Run.rejections_tracked h₃ hreset hgenuine
    exact ((hall hs hc).drained _ _ _ rfl rfl).2
  case genuine =>
    -- the only promise has the first id
    rintro ⟨index⟩ hindex
    obtain rfl : index = 0 := Nat.lt_one_iff.1 hindex
    exact Nat.one_ne_zero

end Microtask
