import Microtask.Proofs.History
import Mathlib.Data.List.Range

/-!
# The numbers of jobs

Whatever the engine does, it only appends to the job queue (`Engine.Queues`), and a job
leaves the queue only by a chore of a step, from the front. So the numbers that were
given out are those that have left the queue followed by those that wait, in order
(`Run.numbers`).
-/

namespace Microtask

variable {H : Type}

/-! ## Queues -/

namespace JobQueue

variable {J : Type}

@[simp] theorem enqueueAll_nil (q : JobQueue J) : q.enqueueAll [] = q := rfl

theorem enqueueAll_append (q : JobQueue J) (js js' : List J) :
    q.enqueueAll (js ++ js') = (q.enqueueAll js).enqueueAll js' := List.foldl_append

/-- The numbers of the jobs that wait, in order. -/
def numbers (q : JobQueue J) : List Nat := q.waiting.map (·.1)

/-- The numbers that were given out are those that have left the queue, followed by those
that wait. -/
def Numbered (left : List Nat) (q : JobQueue J) : Prop := List.range q.nextId = left ++ q.numbers

namespace Numbered

variable {left : List Nat} {q q' : JobQueue J}

theorem enqueue (h : q.Numbered left) (j : J) : (q.enqueue j).Numbered left := by
  simp only [Numbered, numbers, JobQueue.enqueue, List.map_append, List.range_succ] at h ⊢
  rw [h, List.append_assoc]
  rfl

theorem enqueueAll (h : q.Numbered left) (js : List J) : (q.enqueueAll js).Numbered left := by
  induction js generalizing q with
  | nil => exact h
  | cons j js ih => exact ih (h.enqueue j)

/-- The first job that waits has the number of those that have left. -/
theorem pop (h : q.Numbered left) {id : Nat} {j : J} (hpop : q.pop? = some ((id, j), q')) :
    id = left.length ∧ q'.Numbered (left ++ [id]) := by
  obtain ⟨waiting, nextId⟩ := q
  cases waiting with
  | nil => cases hpop
  | cons first rest =>
    cases hpop
    have hrange : List.range nextId = left ++ id :: rest.map (·.1) := h
    refine ⟨?_, ?_⟩
    · have hget : (List.range nextId)[left.length]? = some id := by
        rw [hrange, List.getElem?_append_right (Nat.le_refl _), Nat.sub_self]
        rfl
      obtain ⟨hlt, heq⟩ := List.getElem?_eq_some_iff.1 hget
      rw [← heq, List.getElem_range]
    · show List.range nextId = left ++ [id] ++ rest.map (·.1)
      rw [hrange, List.append_assoc, List.singleton_append]

end Numbered

end JobQueue

/-! ## Appending -/

namespace Engine

/-- Jobs are appended to the queue, and nothing else becomes of it. -/
def Queues (e e' : Engine H) : Prop := ∃ new, e'.jobs = e.jobs.enqueueAll new

namespace Queues

variable {e e' e'' : Engine H}

theorem of_eq (h : e'.jobs = e.jobs) : e.Queues e' := ⟨[], h⟩

theorem refl (e : Engine H) : e.Queues e := .of_eq rfl

theorem trans (h : e.Queues e') (h' : e'.Queues e'') : e.Queues e'' := by
  obtain ⟨new, h⟩ := h
  obtain ⟨new', h'⟩ := h'
  exact ⟨new ++ new', by rw [h', h, JobQueue.enqueueAll_append]⟩

end Queues

theorem queues_enqueue (e : Engine H) (j : Job H) : e.Queues (e.enqueue j) := ⟨[j], rfl⟩

theorem queues_settleNow (e : Engine H) (p : PromiseRef) (kind : Settling) (v : Value) :
    e.Queues (e.settleNow p kind v) := by
  cases kind with
  | fulfill =>
    rw [settleNow, fulfillNow]
    split
    · exact ⟨_, rfl⟩
    · exact .refl e
  | reject =>
    rw [settleNow, rejectNow]
    split
    · cases (e.promise p).handled <;> exact ⟨_, rfl⟩
    · exact .refl e

theorem queues_performThen (e : Engine H) (p : PromiseRef) (f g : Option FunctionRef)
    (capability : Option PromiseRef) : e.Queues (e.performThen p f g capability) := by
  rw [performThen]
  cases (e.promise p).state with
  | pending => exact .of_eq rfl
  | fulfilled v => exact ⟨[_], rfl⟩
  | rejected v => cases (e.promise p).handled <;> exact ⟨[_], rfl⟩

theorem queues_used (e : Engine H) (f : FunctionRef) : e.Queues (e.used f) := by
  unfold used
  split <;> exact .of_eq rfl

theorem queues_engage (e : Engine H) (q : PromiseRef) (c d : Callable H) :
    e.Queues (e.engage q c d) := by
  obtain ⟨new, h⟩ := queues_performThen ((e.newFunction c).2.newFunction d).2 q
    (some (e.newFunction c).1) (some ((e.newFunction c).2.newFunction d).1) none
  exact ⟨new, h⟩

variable {R : Rights} {e e' : Engine H}

theorem Fate.queues {p : PromiseRef} (h : Fate p e e') : e.Queues e' := by
  cases h with
  | settled kind v => exact queues_settleNow e p kind v
  | adopts hc => exact ⟨[_], rfl⟩

theorem Effect.queues (h : Effect R e e') : e.Queues e' := by
  cases h with
  | aside h => exact .of_eq h.jobs
  | newPromise | newFunction | spend => exact .of_eq rfl
  | @decide _ p hr hs hf =>
    have hlock : e.Queues (e.lock p) := .of_eq rfl
    exact hlock.trans hf.queues
  | performThen p hf hg hc => exact queues_performThen e p _ _ _
  | callback label code hm => exact queues_enqueue e _

theorem Effects.queues (h : Effects R e e') : e.Queues e' := by
  induction h with
  | refl => exact .refl e
  | tail _ h ih => exact ih.trans h.queues

theorem queues_settle (e : Engine H) (p : PromiseRef) (kind : Settling) (v : Value) :
    e.Queues (e.settle p kind v) :=
  (settle_effects (R := Rights.all) (fun _ => trivial) kind v).queues

theorem queues_runJob (e : Engine H) (id : Nat) (d : Drain H) (j : Job H) :
    e.Queues (e.runJob id d j).engine := by
  cases j with
  | reaction r v =>
    obtain ⟨kind, handler, capability⟩ := r
    cases handler with
    | some f => exact .refl e
    | none =>
      cases capability with
      | none => exact .refl e
      | some p => exact queues_settle e p kind v
  | adoption p q => exact queues_engage e q _ _
  | callback label code => exact .refl e

end Engine

open Engine

theorem Act.queues {l l' : Ledger H} (h : Act Rights.busy l l') : l.engine.Queues l'.engine := by
  cases h with
  | effect h => exact h.queues
  | pop hpop hj hc hm => exact hm.elim
  | attach hpop hm => exact hm.elim
  | adopt hf hc hu ha h =>
    have haside := Queues.of_eq ha.jobs
    exact (queues_used _ _).trans (haside.trans h.queues)
  | wake hf he hd hu => exact queues_used _ _
  | engage hs hd => exact queues_engage _ _ _ _
  | @answer a r rest s kind v hs ha hb hv =>
    have hset : l.engine.Queues (l.engine.setAsyncState a s) := .of_eq rfl
    exact hset.trans (queues_settle _ r.capability kind v)
  | takeOff hpop hm => exact hm.elim
  | putBack hh hm => exact hm.elim
  | _ => exact .of_eq rfl

theorem Acts.queues {l l' : Ledger H} (h : Acts Rights.busy l l') : l.engine.Queues l'.engine := by
  induction h with
  | refl => exact .refl _
  | tail _ h ih => exact ih.trans h.queues

theorem Chore.jobs_draining {e : Engine H} {draining : Bool} (c : Chore H) :
    (c.apply { e with draining }).jobs = (c.apply e).jobs := by
  cases c with
  | next =>
    simp only [apply]
    cases e.jobs.pop? <;> rfl
  | _ => rfl

/-- **A step does its chore, and the rest of it appends to the queue.** -/
theorem Step.queues {w w' : World H} {m : Move H} (h : Step w m w')
    (hbacked : w.config.engine.Backed) :
    ((w.chore m).apply w.config.engine).Queues w'.config.engine :=
  h.after_chore Acts.queues Engine.queues_runJob
    (fun _ _ c => .of_eq c.jobs_draining) hbacked

/-! ## Numbers that have left the queue -/

/-- The numbers of the jobs that a chore takes off the queue. -/
def Chore.numbers (e : Engine H) : Chore H → List Nat
  | next => (e.jobs.pop?.map (·.1.1)).toList
  | _ => []

/-- The numbers of the jobs that a move takes off the queue. -/
def World.leaves (w : World H) (m : Move H) : List Nat := (w.chore m).numbers w.config.engine

/-- The numbers of the jobs that have left the queue, in order. -/
def leftIn : List (Event H) → List Nat
  | [] => []
  | ev :: es => leftIn es ++ ev.before.leaves ev.move

theorem Chore.numbered {e : Engine H} {c : Chore H} {left : List Nat} (h : e.jobs.Numbered left)
    (hc : c ≠ .clear) (hr : c ≠ .reset) :
    (c.apply e).jobs.Numbered (left ++ c.numbers e) := by
  cases c with
  | next =>
    simp only [numbers, apply]
    cases hpop : e.jobs.pop? with
    | none => exact (List.append_nil left).symm ▸ h
    | some first => exact (h.pop hpop).2
  | put j => exact (List.append_nil left).symm ▸ h.enqueue j
  | clear => exact absurd rfl hc
  | reset => exact absurd rfl hr
  | _ => exact (List.append_nil left).symm ▸ h

theorem Step.numbered {w w' : World H} {m : Move H} (h : Step w m w')
    (hbacked : w.config.engine.Backed) (hm : m.clears = false) {left : List Nat}
    (hn : w.config.engine.jobs.Numbered left) :
    w'.config.engine.jobs.Numbered (left ++ w.leaves m) := by
  have hclear : w.chore m ≠ .clear := World.chore_ne_clear (by rintro rfl; cases hm)
  have hreset : w.chore m ≠ .reset := World.chore_ne_reset (by rintro rfl; cases hm)
  obtain ⟨new, hnew⟩ := h.queues hbacked
  rw [hnew]
  exact (Chore.numbered hn hclear hreset).enqueueAll new

/-- **Numbers are given out and leave the queue in order**, as long as no jobs are
dropped. -/
theorem Run.numbered {es : List (Event H)} {w : World H} (h : Run es w)
    (hclears : ∀ ev ∈ es, ev.move.clears = false) :
    w.config.engine.jobs.Numbered (leftIn es) := by
  have hbacked : ∀ {es : List (Event H)} {w : World H}, Run es w → w.config.engine.Backed :=
    Run.backed
  induction h with
  | refl => rfl
  | step h hs ih =>
    obtain ⟨hm, hes⟩ := List.forall_mem_cons.1 hclears
    exact hs.numbered (hbacked h) hm (ih hes)

end Microtask
