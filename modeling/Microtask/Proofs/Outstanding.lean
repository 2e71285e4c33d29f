import Mathlib.Algebra.Order.BigOperators.Group.Finset
import Microtask.Proofs.Act

/-!
# Outstanding duties

How often a duty is owed: by the callbacks that are registered on promises, by
the jobs that wait, by the function that is being called, and by the control
stack (`Ledger.owed`). The number of times a duty is owed does not change while
the duty moves between these places; what every act does to it is stated here.

Callbacks with a duty are registered in pairs, one for each way of settling, so
it is enough to count the ones for a fulfillment (`Ledger.Sound`).
-/

namespace Microtask

variable {H : Type}

/-! ## Sums over a store -/

namespace Store

variable {α : Type} [Inhabited α]

/-- The sum of a number for each cell. -/
def total (s : Store α) (f : α → Nat) : Nat := ∑ i ∈ Finset.range s.size, f (s.get i)

theorem total_of_size_le {s : Store α} {f : α → Nat} (hf : f default = 0) {n : Nat}
    (h : s.size ≤ n) : s.total f = ∑ i ∈ Finset.range n, f (s.get i) := by
  refine Finset.sum_subset (Finset.range_subset_range.2 h) fun i _ hi => ?_
  rw [get_of_size_le (by simpa using hi), hf]

/-- Two sums that differ in one cell at most. -/
theorem total_change {s s' : Store α} {f f' : α → Nat} (hf : f default = 0) (hf' : f' default = 0)
    (i : Nat) (h : ∀ j, j ≠ i → f' (s'.get j) = f (s.get j)) :
    s'.total f' + f (s.get i) = s.total f + f' (s'.get i) := by
  let n := max (max s.size s'.size) (i + 1)
  have hi : i ∈ Finset.range n := by
    rw [Finset.mem_range]
    exact lt_of_lt_of_le (Nat.lt_succ_self i) (le_max_right _ _)
  have hrest : ∑ j ∈ (Finset.range n).erase i, f' (s'.get j) =
      ∑ j ∈ (Finset.range n).erase i, f (s.get j) :=
    Finset.sum_congr rfl fun j hj => h j (Finset.ne_of_mem_erase hj)
  rw [total_of_size_le hf ((le_max_left _ _).trans (le_max_left _ (i + 1))),
    total_of_size_le hf' ((le_max_right _ _).trans (le_max_left _ (i + 1))),
    ← Finset.add_sum_erase _ _ hi, ← Finset.add_sum_erase _ (fun j => f (s.get j)) hi, hrest]
  omega

theorem le_total {s : Store α} {f : α → Nat} (hf : f default = 0) (i : Nat) :
    f (s.get i) ≤ s.total f := by
  by_cases hi : i < s.size
  · exact Finset.single_le_sum (f := fun i => f (s.get i)) (fun _ _ => Nat.zero_le _)
      (Finset.mem_range.2 hi)
  · rw [get_of_size_le (Nat.le_of_not_lt hi), hf]
    exact Nat.zero_le _

end Store

/-! ## Sound handlers -/

namespace Engine

/-- The duty of a function. -/
def duty? (e : Engine H) (f : FunctionRef) : Option Duty := (e.engagement? f).map (·.1)

/-- A callback of an adoption has not been used up. -/
def Live (e : Engine H) (f : FunctionRef) : Prop :=
  ∀ p kind, (e.callable f).code = .adopt p kind → (e.callable f).usage = .once

/-- A reaction with the given duty, or with a handler that has none. -/
def Bears (e : Engine H) (r : Reaction) : Option Duty → Prop
  | none => e.PlainHandler r.handler
  | some d => ∃ f, r.handler = some f ∧ e.engagement? f = some (d, r.kind) ∧ e.Live f ∧
      r.capability = none

/-- If the first handler wakes somebody who has a duty, then so does the second. -/
def Twins (e : Engine H) (f g : Option FunctionRef) : Prop :=
  ∀ x w d, f = some x → (e.callable x).code = .wake w .fulfill → w.duty? = some d →
    ∃ y, g = some y ∧ (e.callable y).code = .wake w .reject

/-- Two reactions that were attached together. -/
structure Pair (e : Engine H) (r s : Reaction) : Prop where
  kind : r.kind = .fulfill
  kind' : s.kind = .reject
  capability : r.capability = s.capability
  bears : ∃ d, e.Bears r d ∧ e.Bears s d
  twins : e.Twins r.handler s.handler

/-- A job with a handler that fits the way of settling. -/
def JobSound (e : Engine H) : Job H → Prop
  | .reaction r _ => ∃ d, e.Bears r d
  | .adoption _ _ | .callback _ _ => True

/-- The number of reactions in a list with the duty. -/
def dutyCount (e : Engine H) (d : Duty) (rs : List Reaction) : Nat :=
  rs.countP fun r => e.reactionDuty? r = some d

/-- The number of jobs in a list with the duty. -/
def jobCount (e : Engine H) (d : Duty) (js : List (Job H)) : Nat :=
  js.countP fun j => e.jobDuty? j = some d

variable {e e' : Engine H} {r s : Reaction}

theorem exists_of_engagement {f : FunctionRef} {x : Duty × Settling}
    (h : e.engagement? f = some x) : f.index < e.callables.size := by
  refine Nat.lt_of_not_le fun hle => ?_
  rw [engagement?, callable, Store.get_of_size_le hle] at h
  cases h

theorem Bears.reactionDuty? {d : Option Duty} (h : e.Bears r d) : e.reactionDuty? r = d := by
  cases d with
  | none =>
    unfold Engine.reactionDuty?
    cases hr : r.handler with
    | none => rfl
    | some f => simp [(h f hr).free]
  | some d =>
    obtain ⟨f, hf, he, -, -⟩ := h
    simp [Engine.reactionDuty?, hf, he]

/-- A handler stays what it is as long as it is not used up. -/
theorem Bears.mono {d : Option Duty} (h : e.Bears r d) (hg : e.Grows e')
    (hl : ∀ f ∈ r.handler, e.Live f → e'.Live f) : e'.Bears r d := by
  cases d with
  | none => exact hg.plainHandler h
  | some d =>
    obtain ⟨f, hf, he, hlive, hc⟩ := h
    exact ⟨f, hf, (hg.engagement? (exists_of_engagement he)).trans he, hl f hf hlive, hc⟩

/-- The handler of a reaction that bears something exists. -/
theorem Bears.allocated {d : Option Duty} (h : e.Bears r d) {f : FunctionRef}
    (hf : r.handler = some f) : f.index < e.callables.size := by
  cases d with
  | none => exact (h f hf).allocated
  | some d =>
    obtain ⟨g, hg, he, -, -⟩ := h
    obtain rfl : g = f := Option.some.inj (hg.symm.trans hf)
    exact exists_of_engagement he

/-- A handler without a duty wakes nobody who has one. -/
theorem PlainHandler.twins {f : Option FunctionRef} (h : e.PlainHandler f)
    (g : Option FunctionRef) : e.Twins f g := by
  intro x w d hx hc hd
  have hfree := (h x hx).free
  simp [engagement?, hc, Code.engagement?, hd] at hfree

theorem Bears.reactionDuty?_eq {d : Option Duty} (h : e.Bears r d) (hg : e.Grows e') :
    e'.reactionDuty? r = e.reactionDuty? r := by
  rw [h.reactionDuty?]
  cases d with
  | none => exact Bears.reactionDuty? (d := none) (hg.plainHandler h)
  | some d =>
    obtain ⟨f, hf, he, -, -⟩ := h
    simp [Engine.reactionDuty?, hf, hg.engagement? (exists_of_engagement he), he]

theorem JobSound.mono {j : Job H} (h : e.JobSound j) (hg : e.Grows e')
    (hl : ∀ r v, j = .reaction r v → ∀ f ∈ r.handler, e.Live f → e'.Live f) : e'.JobSound j := by
  cases j with
  | reaction r v => exact h.imp fun d hb => hb.mono hg (hl r v rfl)
  | adoption p q => trivial
  | callback label code => trivial

theorem dutyCount_append (e : Engine H) (d : Duty) (rs ss : List Reaction) :
    e.dutyCount d (rs ++ ss) = e.dutyCount d rs + e.dutyCount d ss :=
  List.countP_append

theorem jobCount_append (e : Engine H) (d : Duty) (js ks : List (Job H)) :
    e.jobCount d (js ++ ks) = e.jobCount d js + e.jobCount d ks :=
  List.countP_append

theorem jobCount_cons (e : Engine H) (d : Duty) (j : Job H) (js : List (Job H)) :
    e.jobCount d (j :: js) = e.jobCount d js + if e.jobDuty? j = some d then 1 else 0 := by
  simp [jobCount, List.countP_cons]

theorem jobCount_reactions (e : Engine H) (d : Duty) (rs : List Reaction) (v : Value) :
    e.jobCount d (rs.map (.reaction · v)) = e.dutyCount d rs := by
  rw [jobCount, dutyCount, List.countP_map]
  rfl

theorem dutyCount_eq (hg : e.Grows e') {rs : List Reaction} (h : ∀ r ∈ rs, ∃ d, e.Bears r d)
    (d : Duty) : e'.dutyCount d rs = e.dutyCount d rs := by
  refine List.countP_congr fun r hr => ?_
  obtain ⟨d', hb⟩ := h r hr
  rw [hb.reactionDuty?_eq hg]

theorem jobCount_eq (hg : e.Grows e') {js : List (Job H)} (h : ∀ j ∈ js, e.JobSound j) (d : Duty) :
    e'.jobCount d js = e.jobCount d js := by
  refine List.countP_congr fun j hj => ?_
  have hs := h j hj
  cases j with
  | reaction r v =>
    obtain ⟨d', hb⟩ := hs
    have hr : e'.jobDuty? (.reaction r v) = e.jobDuty? (.reaction r v) := hb.reactionDuty?_eq hg
    rw [hr]
  | adoption p q => rfl
  | callback label code => rfl

/-- Both lists of reactions owe the same. -/
theorem dutyCount_pairs {rs ss : List Reaction} (h : List.Forall₂ e.Pair rs ss) (d : Duty) :
    e.dutyCount d ss = e.dutyCount d rs := by
  induction h with
  | nil => rfl
  | @cons r s rs ss hp h ih =>
    obtain ⟨d', hr, hs⟩ := hp.bears
    simp only [dutyCount, List.countP_cons] at ih ⊢
    rw [ih, hr.reactionDuty?, hs.reactionDuty?]

end Engine

/-! ## Using functions up -/

namespace Engine

variable {e e' : Engine H} {f : FunctionRef}

theorem Live.of_callables (h : e.Live f) (hc : e'.callables = e.callables) : e'.Live f := by
  intro p kind hcode
  rw [callable, hc] at hcode ⊢
  exact h p kind hcode

theorem Live.newFunction (h : e.Live f) {c : Callable H}
    (hc : ∀ p kind, c.code = .adopt p kind → c.usage = .once) : (e.newFunction c).2.Live f := by
  intro p kind hcode
  rw [callable_newFunction] at hcode ⊢
  by_cases hf : f = ⟨e.callables.size⟩
  · rw [if_pos hf] at hcode ⊢
    exact hc p kind hcode
  · rw [if_neg hf] at hcode ⊢
    exact h p kind hcode

theorem Live.spend (h : e.Live f) {g : FunctionRef}
    (hg : f = g → ∀ p kind, (e.callable g).code ≠ .adopt p kind) : (e.spend g).Live f := by
  intro p kind hcode
  rw [callable_spend] at hcode ⊢
  by_cases hf : f = g
  · rw [if_pos hf] at hcode
    exact absurd hcode (hg hf p kind)
  · rw [if_neg hf] at hcode ⊢
    exact h p kind hcode

/-! ## Duties on promises -/

/-- The number of times that a duty is owed by the callbacks on a promise. -/
def carried (e : Engine H) (d : Duty) (r : Promise) : Nat := e.dutyCount d r.onFulfilled

/-- The number of times that a duty is owed by the callbacks on promises. -/
def registered (e : Engine H) (d : Duty) : Nat := e.promises.total (e.carried d)

/-- Every promise has its reactions in pairs. -/
def Paired (e : Engine H) : Prop :=
  ∀ p, List.Forall₂ e.Pair (e.promise p).onFulfilled (e.promise p).onRejected

theorem Paired.bears (h : e.Paired) {p : PromiseRef} {kind : Settling} {r : Reaction}
    (hr : r ∈ (e.promise p).reactions kind) : r.kind = kind ∧ ∃ d, e.Bears r d := by
  have hlength := (h p).length_eq
  obtain ⟨⟨i, hi⟩, rfl⟩ := List.mem_iff_get.1 hr
  cases kind with
  | fulfill =>
    have hs := (h p).get hi (hlength ▸ hi)
    exact ⟨hs.kind, hs.bears.imp fun _ hb => hb.1⟩
  | reject =>
    have hs := (h p).get (hlength.symm ▸ hi) hi
    exact ⟨hs.kind', hs.bears.imp fun _ hb => hb.2⟩

/-- What a promise owes does not change when the engine grows. -/
theorem Paired.dutyCount_eq (h : e.Paired) (hg : e.Grows e') (p : PromiseRef) (d : Duty) :
    e'.dutyCount d (e.promise p).onFulfilled = e.dutyCount d (e.promise p).onFulfilled := by
  refine Engine.dutyCount_eq hg (fun r hr => ?_) d
  have hr' : r ∈ (e.promise p).reactions .fulfill := hr
  exact (h.bears hr').2

theorem Twins.mono {f g : Option FunctionRef} (h : e.Twins f g) (hg : e.Grows e')
    (hf : ∀ x, f = some x → x.index < e.callables.size)
    (hf' : ∀ x, g = some x → x.index < e.callables.size) : e'.Twins f g := by
  intro x w d hx hc hd
  rw [hg.code x (hf x hx)] at hc
  obtain ⟨y, hy, hcode⟩ := h x w d hx hc hd
  exact ⟨y, hy, (hg.code y (hf' y hy)).trans hcode⟩

theorem Pair.mono {r s : Reaction} (h : e.Pair r s) (hg : e.Grows e')
    (hr : ∀ f ∈ r.handler, e.Live f → e'.Live f) (hs : ∀ f ∈ s.handler, e.Live f → e'.Live f) :
    e'.Pair r s := by
  obtain ⟨d, hbr, hbs⟩ := h.bears
  refine ⟨h.kind, h.kind', h.capability, ⟨d, hbr.mono hg hr, hbs.mono hg hs⟩,
    h.twins.mono hg (fun x => hbr.allocated) fun x => hbs.allocated⟩

/-- What is owed by the callbacks on promises, when one promise changes. -/
theorem registered_change (h : e.Paired) (hg : e.Grows e') (p : PromiseRef)
    (hother : ∀ q, q ≠ p → (e'.promise q).onFulfilled = (e.promise q).onFulfilled) (d : Duty) :
    e'.registered d + e.dutyCount d (e.promise p).onFulfilled =
      e.registered d + e'.dutyCount d (e'.promise p).onFulfilled := by
  have hnone : e.carried d default = 0 := rfl
  have hnone' : e'.carried d default = 0 := rfl
  refine Store.total_change hnone hnone' p.index fun j hj => ?_
  have hne : (⟨j⟩ : PromiseRef) ≠ p := fun heq => hj (by rw [← heq])
  have hsame := hother ⟨j⟩ hne
  have hcount : e'.dutyCount d (e.promise ⟨j⟩).onFulfilled =
      e.dutyCount d (e.promise ⟨j⟩).onFulfilled :=
    h.dutyCount_eq hg ⟨j⟩ d
  show e'.dutyCount d (e'.promise ⟨j⟩).onFulfilled = e.dutyCount d (e.promise ⟨j⟩).onFulfilled
  rw [← hcount, hsame]

namespace Alike

variable (h : e.Alike e')
include h

theorem engagement? (f : FunctionRef) : e'.engagement? f = e.engagement? f := by
  rw [Engine.engagement?, Engine.engagement?, callable, callable, h.callables]

theorem duty? (f : FunctionRef) : e'.duty? f = e.duty? f := by
  rw [Engine.duty?, Engine.duty?, h.engagement?]

theorem reactionDuty? (r : Reaction) : e'.reactionDuty? r = e.reactionDuty? r := by
  simp only [Engine.reactionDuty?, h.engagement?]

theorem jobCount (d : Duty) (js : List (Job H)) : e'.jobCount d js = e.jobCount d js := by
  refine List.countP_congr fun j _ => ?_
  have hj : e'.jobDuty? j = e.jobDuty? j := by
    cases j <;> simp only [jobDuty?, h.reactionDuty?]
  rw [hj]

theorem registered (d : Duty) : e'.registered d = e.registered d := by
  have hcarried : e'.carried d = e.carried d := by
    funext r
    simp only [carried, dutyCount, h.reactionDuty?]
  rw [Engine.registered, Engine.registered, hcarried, h.promises]

end Alike

theorem dutyCount_le_registered (e : Engine H) (p : PromiseRef) (d : Duty) :
    e.dutyCount d (e.promise p).onFulfilled ≤ e.registered d := by
  have hnone : e.carried d default = 0 := rfl
  exact Store.le_total hnone p.index

end Engine

/-! ## Ledgers -/

namespace Ledger

/-- The number of times that a duty is owed. -/
def owed (l : Ledger H) (d : Duty) : Nat :=
  l.engine.registered d + l.engine.jobCount d l.jobs +
    (l.called.toList.countP fun f => l.engine.duty? f = some d) + l.stack.count d

/-- Callbacks with a duty come in pairs and have not been used up, and the duties
on the stack are not about adoptions. -/
structure Sound (l : Ledger H) : Prop where
  paired : l.engine.Paired
  jobs : ∀ j ∈ l.jobs, l.engine.JobSound j
  called : ∀ f ∈ l.called, (l.engine.engagement? f).isSome = true ∧ l.engine.Live f
  stack : ∀ p, .adopt p ∉ l.stack

/-- A function that is referred to. -/
def Refers (l : Ledger H) (f : FunctionRef) : Prop :=
  (∃ p kind, ∃ r ∈ (l.engine.promise p).reactions kind, r.handler = some f) ∨
    ∃ r v, .reaction r v ∈ l.jobs ∧ r.handler = some f

variable {l : Ledger H} {e' : Engine H}

/-- Pairs stay pairs while the callbacks of adoptions in them are not used up. -/
theorem Sound.pairs (h : l.Sound) (hg : l.engine.Grows e')
    (hl : ∀ f, l.Refers f ∨ l.called = some f → l.engine.Live f → e'.Live f) (p : PromiseRef) :
    List.Forall₂ e'.Pair (l.engine.promise p).onFulfilled (l.engine.promise p).onRejected := by
  refine List.forall₂_iff_get.2 ⟨(h.paired p).length_eq, fun i hi hi' => ?_⟩
  refine ((h.paired p).get hi hi').mono hg (fun f hf => hl f (.inl (.inl ?_)))
    (fun f hf => hl f (.inl (.inl ?_)))
  · exact ⟨p, .fulfill, _, List.get_mem _ _, hf⟩
  · exact ⟨p, .reject, _, List.get_mem _ _, hf⟩

/-- Both lists of a promise owe the same. -/
theorem Sound.dutyCount_reactions (h : l.Sound) (d : Duty) (p : PromiseRef) (kind : Settling) :
    l.engine.dutyCount d ((l.engine.promise p).reactions kind) =
      l.engine.dutyCount d (l.engine.promise p).onFulfilled := by
  cases kind with
  | fulfill => rfl
  | reject => exact Engine.dutyCount_pairs (h.paired p) d

/-- A change of the engine that appends jobs and changes the reactions of one
promise at most. -/
theorem Sound.change (h : l.Sound) (hg : l.engine.Grows e')
    (hl : ∀ f, l.Refers f ∨ l.called = some f → l.engine.Live f → e'.Live f) {js : List (Job H)}
    (hj : e'.waitingJobs = l.engine.waitingJobs ++ js) (hjs : ∀ j ∈ js, e'.JobSound j)
    (p : PromiseRef)
    (hother : ∀ q, q ≠ p → ∀ kind, (e'.promise q).reactions kind = (l.engine.promise q).reactions kind)
    (hself : List.Forall₂ e'.Pair (e'.promise p).onFulfilled (e'.promise p).onRejected) :
    ({ l with engine := e' } : Ledger H).Sound ∧
      ∀ d, ({ l with engine := e' } : Ledger H).owed d +
          l.engine.dutyCount d (l.engine.promise p).onFulfilled =
        l.owed d + e'.dutyCount d (e'.promise p).onFulfilled + e'.jobCount d js := by
  have hjobs : ∀ j ∈ l.jobs, e'.JobSound j := by
    intro j hjob
    refine (h.jobs j hjob).mono hg fun r v heq f hf => hl f (.inl (.inr ?_))
    exact ⟨r, v, heq ▸ hjob, hf⟩
  have happend : ({ l with engine := e' } : Ledger H).jobs =
      l.engine.waitingJobs ++ js ++ l.held := by
    simp only [Ledger.jobs, hj]
  refine ⟨⟨fun q => ?_, fun j hjob => ?_, fun f hf => ?_, h.stack⟩, fun d => ?_⟩
  · by_cases hq : q = p
    · subst hq
      exact hself
    · have hf := hother q hq .fulfill
      have hr := hother q hq .reject
      simp only [Promise.reactions] at hf hr
      rw [hf, hr]
      exact h.pairs hg hl q
  · rw [happend] at hjob
    simp only [List.mem_append] at hjob
    obtain (hjob | hjob) | hjob := hjob
    · exact hjobs j (List.mem_append_left _ hjob)
    · exact hjs j hjob
    · exact hjobs j (List.mem_append_right _ hjob)
  · obtain ⟨hsome, hlive⟩ := h.called f hf
    obtain ⟨x, hx⟩ := Option.isSome_iff_exists.1 hsome
    refine ⟨?_, hl f (.inr hf) hlive⟩
    rw [hg.engagement? (Engine.exists_of_engagement hx)]
    exact hsome
  · have hreg := Engine.registered_change h.paired hg p (fun q hq => hother q hq .fulfill) d
    have hcount : e'.jobCount d ({ l with engine := e' } : Ledger H).jobs =
        l.engine.jobCount d l.jobs + e'.jobCount d js := by
      rw [happend, Engine.jobCount_append, Engine.jobCount_append, Ledger.jobs,
        Engine.jobCount_append,
        Engine.jobCount_eq hg (fun j hjob => h.jobs j (List.mem_append_left _ hjob)),
        Engine.jobCount_eq hg (fun j hjob => h.jobs j (List.mem_append_right _ hjob))]
      omega
    have hcalled : (l.called.toList.countP fun f => e'.duty? f = some d) =
        l.called.toList.countP fun f => l.engine.duty? f = some d := by
      refine List.countP_congr fun f hf => ?_
      obtain ⟨x, hx⟩ := Option.isSome_iff_exists.1 (h.called f (Option.mem_toList.1 hf)).1
      rw [Engine.duty?, Engine.duty?, hg.engagement? (Engine.exists_of_engagement hx)]
    simp only [owed] at hcount ⊢
    rw [hcount, hcalled]
    omega

/-! ## What effects do to duties -/

/-- A change that leaves all reactions and jobs alone. -/
theorem Sound.keep (h : l.Sound) (hg : l.engine.Grows e')
    (hl : ∀ f, l.Refers f ∨ l.called = some f → l.engine.Live f → e'.Live f)
    (hj : e'.waitingJobs = l.engine.waitingJobs)
    (hp : ∀ q kind, (e'.promise q).reactions kind = (l.engine.promise q).reactions kind) :
    ({ l with engine := e' } : Ledger H).Sound ∧
      ∀ d, ({ l with engine := e' } : Ledger H).owed d = l.owed d := by
  have hf : ∀ q, (e'.promise q).onFulfilled = (l.engine.promise q).onFulfilled := (hp · .fulfill)
  have hr : ∀ q, (e'.promise q).onRejected = (l.engine.promise q).onRejected := (hp · .reject)
  have hself : List.Forall₂ e'.Pair (e'.promise ⟨0⟩).onFulfilled (e'.promise ⟨0⟩).onRejected := by
    rw [hf, hr]
    exact h.pairs hg hl ⟨0⟩
  have hnone : e'.waitingJobs = l.engine.waitingJobs ++ [] := by simp [hj]
  obtain ⟨hs, ho⟩ := h.change hg hl hnone (by simp) ⟨0⟩ (fun q _ => hp q) hself
  refine ⟨hs, fun d => ?_⟩
  have hcount : e'.dutyCount d (e'.promise ⟨0⟩).onFulfilled =
      l.engine.dutyCount d (l.engine.promise ⟨0⟩).onFulfilled := by
    rw [hf]
    exact h.paired.dutyCount_eq hg _ d
  have hd := ho d
  rw [hcount] at hd
  simp only [Engine.jobCount, List.countP_nil] at hd
  omega

theorem Sound.of_aside {R : Rights} (h : l.Sound) (ha : l.engine.Aside R e') :
    ({ l with engine := e' } : Ledger H).Sound ∧
      ∀ d, ({ l with engine := e' } : Ledger H).owed d = l.owed d :=
  h.keep ha.grows (fun _ _ hf => hf.of_callables ha.callables) ha.waitingJobs
    fun q kind => by rw [ha.promise]

theorem Sound.newPromise (h : l.Sound) :
    ({ l with engine := l.engine.newPromise.2 } : Ledger H).Sound ∧
      ∀ d, ({ l with engine := l.engine.newPromise.2 } : Ledger H).owed d = l.owed d := by
  refine h.keep (Engine.grows_newPromise _) (fun _ _ hf => hf.of_callables rfl) rfl ?_
  exact Engine.reactions_newPromise l.engine

theorem Sound.newFunction (h : l.Sound) {c : Callable H}
    (hc : ∀ p kind, c.code = .adopt p kind → c.usage = .once) :
    ({ l with engine := (l.engine.newFunction c).2 } : Ledger H).Sound ∧
      ∀ d, ({ l with engine := (l.engine.newFunction c).2 } : Ledger H).owed d = l.owed d :=
  h.keep (Engine.grows_newFunction _ c) (fun _ _ hf => hf.newFunction hc) rfl fun _ _ => rfl

/-- A function is used up that is not a callback of an adoption, or that nothing
refers to any more. -/
theorem Sound.spend (h : l.Sound) (f : FunctionRef)
    (hf : l.Refers f ∨ l.called = some f → ∀ p kind, (l.engine.callable f).code ≠ .adopt p kind) :
    ({ l with engine := l.engine.spend f } : Ledger H).Sound ∧
      ∀ d, ({ l with engine := l.engine.spend f } : Ledger H).owed d = l.owed d := by
  refine h.keep (Engine.grows_spend _ f) (fun g hg hlive => hlive.spend fun heq => ?_) rfl
    fun _ _ => rfl
  subst heq
  exact hf hg

theorem Sound.used (h : l.Sound) (f : FunctionRef)
    (hf : l.Refers f ∨ l.called = some f → ∀ p kind, (l.engine.callable f).code ≠ .adopt p kind) :
    ({ l with engine := l.engine.used f } : Ledger H).Sound ∧
      ∀ d, ({ l with engine := l.engine.used f } : Ledger H).owed d = l.owed d := by
  unfold Engine.used
  split
  · exact h.spend f hf
  · exact ⟨h, fun _ => rfl⟩
  · exact ⟨h, fun _ => rfl⟩

theorem Sound.lock (h : l.Sound) (p : PromiseRef) :
    ({ l with engine := l.engine.lock p } : Ledger H).Sound ∧
      ∀ d, ({ l with engine := l.engine.lock p } : Ledger H).owed d = l.owed d := by
  refine h.keep (Engine.grows_lock _ p) (fun _ _ hf => hf.of_callables rfl) rfl ?_
  exact Engine.reactions_lock l.engine p

/-- The callbacks of a promise that settles go on as jobs. -/
theorem Sound.settleNow (h : l.Sound) (p : PromiseRef) (kind : Settling) (v : Value) :
    ({ l with engine := l.engine.settleNow p kind v } : Ledger H).Sound ∧
      ∀ d, ({ l with engine := l.engine.settleNow p kind v } : Ledger H).owed d = l.owed d := by
  by_cases hp : (l.engine.promise p).state = .pending
  · have hg := Engine.grows_settleNow l.engine p kind v
    have hlive : ∀ f, l.engine.Live f → (l.engine.settleNow p kind v).Live f :=
      fun f hf => hf.of_callables (Engine.callables_settleNow _ p kind v)
    have hself : (l.engine.settleNow p kind v).promise p = (l.engine.promise p).settled kind v := by
      rw [Engine.promise_settleNow hp, if_pos rfl]
    obtain ⟨hs, ho⟩ := h.change hg (fun f _ => hlive f) (Engine.waitingJobs_settleNow hp kind v)
      (by
        intro j hj
        obtain ⟨r, hr, rfl⟩ := List.mem_map.1 hj
        obtain ⟨d, hb⟩ := (h.paired.bears hr).2
        exact ⟨d, hb.mono hg fun f _ => hlive f⟩)
      p (fun q hq kind' => by rw [Engine.promise_settleNow hp, if_neg hq])
      (by rw [hself]; exact .nil)
    refine ⟨hs, fun d => ?_⟩
    have hd := ho d
    have hjobs : (l.engine.settleNow p kind v).dutyCount d ((l.engine.promise p).reactions kind) =
        l.engine.dutyCount d (l.engine.promise p).onFulfilled := by
      rw [Engine.dutyCount_eq hg (fun r hr => (h.paired.bears hr).2)]
      exact h.dutyCount_reactions d p kind
    rw [hself, Engine.jobCount_reactions, hjobs] at hd
    simp only [Promise.settled, Engine.dutyCount, List.countP_nil] at hd ⊢
    omega
  · rw [Engine.settleNow_of_settled hp]
    exact ⟨h, fun _ => rfl⟩

/-- A promise that adopts another one gets a duty. -/
theorem Sound.link (h : l.Sound) (p q : PromiseRef) :
    ({ l with engine := l.engine.link p q } : Ledger H).Sound ∧
      ∀ d, ({ l with engine := l.engine.link p q } : Ledger H).owed d =
        l.owed d + if d = .adopt p then 1 else 0 := by
  have hsame := Engine.reactions_link l.engine p q
  have hg := Engine.grows_link l.engine p q
  have hj := Engine.waitingJobs_link l.engine p q
  have hself : List.Forall₂ (l.engine.link p q).Pair ((l.engine.link p q).promise p).onFulfilled
      ((l.engine.link p q).promise p).onRejected := by
    have hf := hsame p .fulfill
    have hr := hsame p .reject
    simp only [Promise.reactions] at hf hr
    rw [hf, hr]
    exact h.pairs hg (fun f _ hf => hf.of_callables rfl) p
  obtain ⟨hs, ho⟩ := h.change hg (fun _ _ hf => hf.of_callables rfl) hj (by simp [Engine.JobSound])
    p (fun s _ => hsame s) hself
  refine ⟨hs, fun d => ?_⟩
  have hd := ho d
  have hcount : (l.engine.link p q).dutyCount d ((l.engine.link p q).promise p).onFulfilled =
      l.engine.dutyCount d (l.engine.promise p).onFulfilled := by
    have hf := hsame p .fulfill
    simp only [Promise.reactions] at hf
    rw [hf]
    exact h.paired.dutyCount_eq hg _ d
  have hjob : (l.engine.link p q).jobCount d [.adoption p q] = if d = .adopt p then 1 else 0 := by
    simp [Engine.jobCount, List.countP_cons, Engine.jobDuty?, eq_comm]
  rw [hcount, hjob] at hd
  omega

/-- Attaching two reactions with the same duty, or with none. -/
theorem Sound.performThen (h : l.Sound) (p : PromiseRef) {f g : Option FunctionRef}
    {capability : Option PromiseRef} (d₀ : Option Duty)
    (hf : l.engine.Bears ⟨.fulfill, f, capability⟩ d₀)
    (hg : l.engine.Bears ⟨.reject, g, capability⟩ d₀) (ht : l.engine.Twins f g) :
    ({ l with engine := l.engine.performThen p f g capability } : Ledger H).Sound ∧
      ∀ d, ({ l with engine := l.engine.performThen p f g capability } : Ledger H).owed d =
        l.owed d + if d₀ = some d then 1 else 0 := by
  have hgrow := Engine.grows_performThen l.engine p f g capability
  have hcalls := Engine.callables_performThen l.engine p f g capability
  have hself := Engine.promise_performThen l.engine p f g capability p
  have hother := Engine.promise_performThen l.engine p f g capability
  have hwait := Engine.waitingJobs_performThen l.engine p f g capability
  generalize l.engine.performThen p f g capability = e' at *
  have hlive : ∀ f, l.engine.Live f → e'.Live f := fun f hf => hf.of_callables hcalls
  have hf' : e'.Bears ⟨.fulfill, f, capability⟩ d₀ := hf.mono hgrow fun f _ => hlive f
  have hg' : e'.Bears ⟨.reject, g, capability⟩ d₀ := hg.mono hgrow fun f _ => hlive f
  have ht' : e'.Twins f g := ht.mono hgrow (fun x => hf.allocated) fun x => hg.allocated
  have hpairs : List.Forall₂ e'.Pair (l.engine.promise p).onFulfilled
      (l.engine.promise p).onRejected := h.pairs hgrow (fun f _ => hlive f) p
  have hcount : ∀ d, e'.dutyCount d (l.engine.promise p).onFulfilled =
      l.engine.dutyCount d (l.engine.promise p).onFulfilled := h.paired.dutyCount_eq hgrow p
  have hbears : ∀ {r : Reaction}, e'.Bears r d₀ → ∀ d,
      e'.dutyCount d [r] = if d₀ = some d then 1 else 0 := by
    intro r hr d
    simp [Engine.dutyCount, List.countP_cons, hr.reactionDuty?]
  rw [if_pos rfl] at hself
  have hchange := h.change hgrow (fun f _ => hlive f) hwait
  unfold Promise.attach at hself
  -- the reactions go to the promise, or one of them goes to the queue
  split at hself
  · next hs =>
    have hnone : (l.engine.promise p).attachJobs (H := H) f g capability = [] := by
      simp only [Promise.attachJobs, hs]
    rw [hnone] at hchange
    obtain ⟨hsound, ho⟩ := hchange (by simp) p (fun q hq kind => by rw [hother, if_neg hq]) (by
      rw [hself]
      exact List.rel_append hpairs (.cons ⟨rfl, rfl, rfl, ⟨d₀, hf', hg'⟩, ht'⟩ .nil))
    refine ⟨hsound, fun d => ?_⟩
    have hd := ho d
    rw [hself, Engine.dutyCount_append, hcount, hbears hf'] at hd
    simp only [Engine.jobCount, List.countP_nil] at hd
    omega
  · next hs =>
    have hsame : (e'.promise p).onFulfilled = (l.engine.promise p).onFulfilled := by rw [hself]
    have hsame' : (e'.promise p).onRejected = (l.engine.promise p).onRejected := by rw [hself]
    obtain ⟨r, v, hr, hjob⟩ : ∃ r v, e'.Bears r d₀ ∧
        (l.engine.promise p).attachJobs (H := H) f g capability = [.reaction r v] := by
      unfold Promise.attachJobs
      split
      · next hp => exact absurd hp hs
      · next v hv => exact ⟨_, v, hf', rfl⟩
      · next v hv => exact ⟨_, v, hg', rfl⟩
    rw [hjob] at hchange
    obtain ⟨hsound, ho⟩ := hchange
      (by
        intro j hj
        rw [List.mem_singleton.1 hj]
        exact ⟨d₀, hr⟩)
      p (fun q hq kind => by rw [hother, if_neg hq]) (by rw [hsame, hsame']; exact hpairs)
    refine ⟨hsound, fun d => ?_⟩
    have hd := ho d
    have hone : e'.jobCount d [.reaction r v] = if d₀ = some d then 1 else 0 :=
      (Engine.jobCount_reactions e' d [r] v).trans (hbears hr d)
    rw [hsame, hcount, hone] at hd
    omega

/-- Two functions that are created one after the other. -/
theorem callable_newFunctions (e : Engine H) (c c' : Callable H) :
    ((e.newFunction c).2.newFunction c').2.callable (e.newFunction c).1 = c ∧
      ((e.newFunction c).2.newFunction c').2.callable
        ((e.newFunction c).2.newFunction c').1 = c' := by
  refine ⟨?_, ?_⟩
  · rw [Engine.callable_newFunction, if_neg, Engine.callable_newFunction]
    · exact if_pos rfl
    · intro heq
      have hi := congrArg FunctionRef.index heq
      simp [Engine.newFunction] at hi
  · rw [Engine.callable_newFunction]
    exact if_pos rfl

/-- The two new functions of a wait bear its duty, and wake the same waiter. -/
theorem engages_bears (e : Engine H) {d : Duty} {c c' : Callable H} (hd : d.Engages c c') :
    ((e.newFunction c).2.newFunction c').2.Bears
        ⟨.fulfill, some (e.newFunction c).1, none⟩ (some d) ∧
      ((e.newFunction c).2.newFunction c').2.Bears
        ⟨.reject, some ((e.newFunction c).2.newFunction c').1, none⟩ (some d) ∧
      ((e.newFunction c).2.newFunction c').2.Twins (some (e.newFunction c).1)
        (some ((e.newFunction c).2.newFunction c').1) := by
  obtain ⟨hf, hg⟩ := callable_newFunctions e c c'
  refine ⟨⟨_, rfl, ?_, ?_, rfl⟩, ⟨_, rfl, ?_, ?_, rfl⟩, fun x w d' hx hw _ => ⟨_, rfl, ?_⟩⟩
  · rw [Engine.engagement?, hf]
    exact hd.fulfill
  · intro p kind _
    rw [hf]
    exact hd.once
  · rw [Engine.engagement?, hg]
    exact hd.reject
  · intro p kind _
    rw [hg]
    exact hd.once'
  · cases hx
    rw [hf] at hw
    rw [hg]
    exact hd.twins w hw

/-- A wait registers a duty. -/
theorem Sound.engage (h : l.Sound) (q : PromiseRef) {d₀ : Duty} {c c' : Callable H}
    (hd : d₀.Engages c c') :
    ({ l with engine := l.engine.engage q c c' } : Ledger H).Sound ∧
      ∀ d, ({ l with engine := l.engine.engage q c c' } : Ledger H).owed d =
        l.owed d + if d₀ = d then 1 else 0 := by
  obtain ⟨h₁, ho₁⟩ := h.newFunction (c := c) fun _ _ _ => hd.once
  obtain ⟨h₂, ho₂⟩ := h₁.newFunction (c := c') fun _ _ _ => hd.once'
  obtain ⟨hf, hg, ht⟩ := engages_bears l.engine hd
  obtain ⟨h₃, ho₃⟩ := h₂.performThen q (some d₀) hf hg ht
  refine ⟨h₃, fun d => ?_⟩
  have hd₃ := ho₃ d
  rw [ho₂ d, ho₁ d] at hd₃
  simp only [Option.some.injEq] at hd₃
  exact hd₃

theorem Sound.callback (h : l.Sound) (label : String) (code : H) :
    ({ l with engine := l.engine.enqueue (.callback label code) } : Ledger H).Sound ∧
      ∀ d, ({ l with engine := l.engine.enqueue (.callback label code) } : Ledger H).owed d =
        l.owed d := by
  have hg : l.engine.Grows (l.engine.enqueue (.callback label code)) := .of_eq rfl rfl rfl
  have hlive : ∀ f, l.engine.Live f → (l.engine.enqueue (.callback label code)).Live f :=
    fun f hf => hf.of_callables rfl
  obtain ⟨hs, ho⟩ := h.change hg (fun f _ => hlive f) (Engine.waitingJobs_enqueue _ _)
    (by simp [Engine.JobSound]) ⟨0⟩ (fun _ _ _ => rfl)
    (h.pairs hg (fun f _ => hlive f) ⟨0⟩)
  refine ⟨hs, fun d => ?_⟩
  have hd := ho d
  have hjob : (l.engine.enqueue (.callback label code)).jobCount d [.callback label code] = 0 := by
    simp [Engine.jobCount, Engine.jobDuty?]
  have hsame : (l.engine.enqueue (.callback label code)).dutyCount d
      ((l.engine.enqueue (.callback label code)).promise ⟨0⟩).onFulfilled =
      l.engine.dutyCount d (l.engine.promise ⟨0⟩).onFulfilled := rfl
  omega

/-! ## What moves duties -/

/-- Jobs and duties move while promises and functions stay what they are. -/
theorem Sound.rearrange {l' : Ledger H} (h : l.Sound) (he : l.engine.Alike l'.engine)
    (hj : ∀ j ∈ l'.jobs, j ∈ l.jobs)
    (hcalled : ∀ f ∈ l'.called, (l.engine.engagement? f).isSome = true ∧ l.engine.Live f)
    (hstack : ∀ p, .adopt p ∉ l'.stack) : l'.Sound := by
  have hlive : ∀ f, l.engine.Live f → l'.engine.Live f := fun f hf => hf.of_callables he.callables
  refine ⟨fun p => ?_, fun j hjob => ?_, fun f hf => ?_, hstack⟩
  · rw [Engine.promise, he.promises]
    exact h.pairs he.grows (fun f _ => hlive f) p
  · exact (h.jobs j (hj j hjob)).mono he.grows fun r v _ f _ => hlive f
  · obtain ⟨hsome, hf⟩ := hcalled f hf
    rw [he.engagement?]
    exact ⟨hsome, hlive f hf⟩

theorem owed_rearrange {l' : Ledger H} (he : l.engine.Alike l'.engine) (d : Duty) :
    l'.owed d = l.engine.registered d + l.engine.jobCount d l'.jobs +
      (l'.called.toList.countP fun f => l.engine.duty? f = some d) + l'.stack.count d := by
  rw [owed, he.registered, he.jobCount]
  simp only [he.duty?]

/-- Jobs change hands, and nothing is owed more or less. -/
theorem owed_of_perm {l' : Ledger H} (he : l.engine.Alike l'.engine) (hj : l'.jobs.Perm l.jobs)
    (hc : l'.called = l.called) (hs : l'.stack = l.stack) (d : Duty) : l'.owed d = l.owed d := by
  have hcount : l.engine.jobCount d l'.jobs = l.engine.jobCount d l.jobs := hj.countP_eq _
  rw [owed_rearrange he, hcount, hc, hs, owed]

theorem owed_takeOff {id : Nat} {j : Job H} {jobs : JobQueue (Job H)}
    (hpop : l.engine.jobs.pop? = some ((id, j), jobs)) (d : Duty) :
    ({ l with engine := { l.engine with jobs }, held := j :: l.held } : Ledger H).owed d =
      l.owed d := by
  have he : l.engine.Alike { l.engine with jobs } := ⟨rfl, rfl, rfl⟩
  have hperm := jobs_takeOff hpop
  exact owed_of_perm he hperm rfl rfl d

theorem owed_putBack {before after : List (Job H)} {j : Job H} (hh : l.held = before ++ j :: after)
    (d : Duty) :
    ({ l with engine := l.engine.enqueue j, held := before ++ after } : Ledger H).owed d =
      l.owed d := by
  have he : l.engine.Alike (l.engine.enqueue j) := ⟨rfl, rfl, rfl⟩
  have hperm := jobs_putBack hh
  exact owed_of_perm he hperm rfl rfl d

/-- A job that is begun hands its duty over to the function that it calls. -/
theorem Sound.pop (h : l.Sound) {id : Nat} {j : Job H} {jobs : JobQueue (Job H)}
    (hpop : l.engine.jobs.pop? = some ((id, j), jobs)) (hj : ∀ p q, j ≠ .adoption p q)
    (hcalled : l.called = none) {l' : Ledger H}
    (hl' : l' = { l with
      engine := { l.engine with jobs }
      called := l.engine.calledBy j
      stack := j.results ++ l.stack }) :
    l'.Sound ∧ ∀ d, l'.owed d = l.owed d + j.results.count d := by
  have hjobs := jobs_pop hpop
  have hjs : l'.jobs = ({ l.engine with jobs } : Engine H).waitingJobs ++ l.held := by rw [hl']; rfl
  have he : l.engine.Alike l'.engine := by rw [hl']; exact ⟨rfl, rfl, rfl⟩
  have hown := h.jobs j (hjobs ▸ List.mem_cons_self)
  have hduty : (∀ f ∈ l.engine.calledBy j, (l.engine.engagement? f).isSome = true ∧ l.engine.Live f) ∧
      ∀ d, ((l.engine.calledBy j).toList.countP fun f => l.engine.duty? f = some d) =
        if l.engine.jobDuty? j = some d then 1 else 0 := by
    cases j with
    | adoption p q => exact absurd rfl (hj p q)
    | callback label code => simp [Engine.calledBy, Engine.jobDuty?]
    | reaction r v =>
      obtain ⟨d, hb⟩ := hown
      cases d with
      | none =>
        have hnone : l.engine.calledBy (.reaction r v) = none := by
          cases hr : r.handler with
          | none => simp [Engine.calledBy, hr]
          | some f => simp [Engine.calledBy, hr, (hb f hr).free]
        simp [hnone, Engine.jobDuty?, Engine.Bears.reactionDuty? hb]
      | some d =>
        have hr := hb.reactionDuty?
        obtain ⟨f, hf, hen, hlive, -⟩ := hb
        have hsome : l.engine.calledBy (.reaction r v) = some f := by
          simp [Engine.calledBy, hf, hen]
        simp [hsome, hen, hlive, Engine.jobDuty?, hr, Engine.duty?]
  refine ⟨h.rearrange he (fun k hk => ?_) ?_ fun p hp => ?_, fun d => ?_⟩
  · rw [hjs] at hk
    rw [hjobs]
    exact List.mem_cons_of_mem _ hk
  · rw [hl']
    exact hduty.1
  · rw [hl'] at hp
    rcases List.mem_append.1 hp with hp | hp
    · cases j with
      | reaction r v =>
        obtain ⟨q, -, hq⟩ := List.mem_map.1 hp
        cases hq
      | _ => cases hp
    · exact h.stack p hp
  · have hd := hduty.2 d
    rw [owed_rearrange he, hjs, owed, hjobs, Engine.jobCount_cons, hcalled, hl']
    simp only [hd, List.count_append, Option.toList_none, List.countP_nil]
    omega

/-- An adoption that is begun attaches to the promise that is adopted. -/
theorem Sound.attach (h : l.Sound) {id : Nat} {p q : PromiseRef} {jobs : JobQueue (Job H)}
    (hpop : l.engine.jobs.pop? = some ((id, .adoption p q), jobs)) :
    ({ l with engine := ({ l.engine with jobs } : Engine H).attachAdoption p q } : Ledger H).Sound ∧
      ∀ d, ({ l with engine := ({ l.engine with jobs } : Engine H).attachAdoption p q } :
        Ledger H).owed d = l.owed d := by
  have hjobs := jobs_pop hpop
  have he : l.engine.Alike { l.engine with jobs } := ⟨rfl, rfl, rfl⟩
  have hs : ({ l with engine := { l.engine with jobs } } : Ledger H).Sound := by
    refine h.rearrange he (fun k hk => ?_) h.called h.stack
    rw [hjobs]
    exact List.mem_cons_of_mem _ hk
  obtain ⟨hs', ho⟩ := hs.engage q (Engine.engages_adopt p)
  refine ⟨hs', fun d => (ho d).trans ?_⟩
  have hjs : ({ l with engine := { l.engine with jobs } } : Ledger H).jobs =
      ({ l.engine with jobs } : Engine H).waitingJobs ++ l.held := rfl
  rw [owed_rearrange he, owed, hjobs, Engine.jobCount_cons, hjs]
  have hduty : (l.engine.jobDuty? (.adoption p q) = some d) ↔ Duty.adopt p = d := by
    simp [Engine.jobDuty?]
  simp only [hduty]
  omega

/-- Other duties on the stack. -/
theorem Sound.restack (h : l.Sound) {l' : Ledger H} (he : l.engine.Alike l'.engine)
    (hj : l'.jobs = l.jobs) (hc : l'.called = l.called) (hs : ∀ p, .adopt p ∉ l'.stack) :
    l'.Sound ∧ ∀ d, l'.owed d + l.stack.count d = l.owed d + l'.stack.count d := by
  refine ⟨h.rearrange he (fun j hjob => hj ▸ hjob) (fun f hf => h.called f (hc ▸ hf)) hs,
    fun d => ?_⟩
  rw [owed_rearrange he, owed, hj, hc]
  omega

/-- A duty is put on top of the stack. -/
theorem owed_push {l' : Ledger H} (he : l.engine.Alike l'.engine) (hj : l'.jobs = l.jobs)
    (hc : l'.called = l.called) {d₀ : Duty} (hs : l'.stack = d₀ :: l.stack) (d : Duty) :
    l'.owed d = l.owed d + if d₀ = d then 1 else 0 := by
  rw [owed_rearrange he, owed, hj, hc, hs, List.count_cons]
  simp only [beq_iff_eq]
  omega

/-- The duty on top of the stack is taken off. -/
theorem owed_drop {l' : Ledger H} (he : l.engine.Alike l'.engine) (hj : l'.jobs = l.jobs)
    (hc : l'.called = l.called) {d₀ : Duty} (hs : l.stack = d₀ :: l'.stack) (d : Duty) :
    l'.owed d + (if d₀ = d then 1 else 0) = l.owed d := by
  rw [owed_rearrange he, owed, hj, hc, hs, List.count_cons]
  simp only [beq_iff_eq]
  omega

/-- A change that only puts a duty on top of the stack. -/
theorem Sound.push (h : l.Sound) {d₀ : Duty} (hd₀ : ∀ p, d₀ ≠ .adopt p) :
    ({ l with stack := d₀ :: l.stack } : Ledger H).Sound ∧
      ∀ d, ({ l with stack := d₀ :: l.stack } : Ledger H).owed d =
        l.owed d + if d₀ = d then 1 else 0 := by
  let l₁ : Ledger H := { l with stack := d₀ :: l.stack }
  have he : l.engine.Alike l₁.engine := ⟨rfl, rfl, rfl⟩
  obtain ⟨h₁, -⟩ := h.restack he rfl rfl fun p hp =>
    (List.mem_cons.1 hp).elim (fun heq => hd₀ p heq.symm) (h.stack p)
  exact ⟨h₁, owed_push he rfl rfl rfl⟩

/-- A change that only takes the duty on top of the stack off. -/
theorem Sound.drop (h : l.Sound) {d₀ : Duty} {rest : List Duty} (hs : l.stack = d₀ :: rest) :
    ({ l with stack := rest } : Ledger H).Sound ∧
      ∀ d, ({ l with stack := rest } : Ledger H).owed d + (if d₀ = d then 1 else 0) = l.owed d := by
  let l₁ : Ledger H := { l with stack := rest }
  have he : l.engine.Alike l₁.engine := ⟨rfl, rfl, rfl⟩
  obtain ⟨h₁, -⟩ := h.restack he rfl rfl fun p hp =>
    h.stack p (hs ▸ List.mem_cons_of_mem _ hp)
  exact ⟨h₁, owed_drop he rfl rfl hs⟩

/-- A function with a duty that is being called loses it. -/
theorem Sound.uncall (h : l.Sound) {f : FunctionRef} {d₀ : Duty} {kind : Settling}
    (hf : l.called = some f) (hen : l.engine.engagement? f = some (d₀, kind)) :
    ({ l with called := none } : Ledger H).Sound ∧
      ∀ d, ({ l with called := none } : Ledger H).owed d + (if d₀ = d then 1 else 0) = l.owed d := by
  have he : l.engine.Alike l.engine := ⟨rfl, rfl, rfl⟩
  refine ⟨h.rearrange he (fun j hj => hj) (by simp) h.stack, fun d => ?_⟩
  rw [owed_rearrange he, owed, hf]
  have hduty : (l.engine.duty? f = some d) ↔ d₀ = d := by simp [Engine.duty?, hen]
  have hcount : ((some f).toList.countP fun f => decide (l.engine.duty? f = some d)) =
      if d₀ = d then 1 else 0 := by
    simp [hduty]
  have hjobs : ({ l with called := none } : Ledger H).jobs = l.jobs := rfl
  rw [hcount, hjobs]
  simp only [Option.toList_none, List.countP_nil]
  omega

/-- A duty that is called for is owed, and not only on the stack. -/
theorem count_lt_owed_of_called {f : FunctionRef} {d : Duty} {kind : Settling}
    (hf : l.called = some f) (hen : l.engine.engagement? f = some (d, kind)) :
    l.stack.count d < l.owed d := by
  have hduty : l.engine.duty? f = some d := by simp [Engine.duty?, hen]
  rw [owed, hf]
  simp only [Option.toList_some, List.countP_cons, hduty, decide_true, if_true]
  omega

theorem owed_pos_of_called {f : FunctionRef} {d : Duty} {kind : Settling} (hf : l.called = some f)
    (hen : l.engine.engagement? f = some (d, kind)) : 0 < l.owed d :=
  (Nat.zero_le _).trans_lt (count_lt_owed_of_called hf hen)

/-- A duty that is not owed is found nowhere. -/
theorem Sound.not_owed {d : Duty} (hs : l.Sound) (h : l.owed d = 0) :
    (∀ j ∈ l.jobs, l.engine.jobDuty? j ≠ some d) ∧
      ∀ q kind, ∀ r ∈ (l.engine.promise q).reactions kind, l.engine.reactionDuty? r ≠ some d := by
  rw [owed] at h
  refine ⟨fun j hj hd => ?_, fun q kind r hr hd => ?_⟩
  · have hpos : 0 < l.engine.jobCount d l.jobs :=
      List.countP_pos_iff.2 ⟨j, hj, decide_eq_true hd⟩
    omega
  · have hpos : 0 < l.engine.dutyCount d ((l.engine.promise q).reactions kind) :=
      List.countP_pos_iff.2 ⟨r, hr, decide_eq_true hd⟩
    have hle := Engine.dutyCount_le_registered l.engine q d
    rw [hs.dutyCount_reactions] at hpos
    omega

/-- A function with a duty that is not owed is not referred to. -/
theorem Sound.not_refers (h : l.Sound) {f : FunctionRef} {d : Duty} {kind : Settling}
    (hen : l.engine.engagement? f = some (d, kind)) (h₀ : l.owed d = 0) : ¬ l.Refers f := by
  obtain ⟨hjobs, hreactions⟩ := h.not_owed h₀
  have hduty : ∀ {r : Reaction}, r.handler = some f → l.engine.reactionDuty? r = some d := by
    intro r hr
    simp [Engine.reactionDuty?, hr, hen]
  rintro (⟨p, kind', r, hr, hf⟩ | ⟨r, v, hj, hf⟩)
  · exact hreactions p kind' r hr (hduty hf)
  · exact hjobs _ hj (hduty hf)

/-- A callback of an adoption that is owed at most once is used up by its call. -/
theorem Sound.adopt {R : Rights} (h : l.Sound) {f : FunctionRef} {p : PromiseRef} {kind : Settling}
    {e : Engine H} (hf : l.called = some f) (hcode : (l.engine.callable f).code = .adopt p kind)
    (hle : l.owed (.adopt p) ≤ 1) (ha : (l.engine.used f).Aside R e) :
    ({ l with engine := e, called := none } : Ledger H).Sound ∧
      ∀ d, ({ l with engine := e, called := none } : Ledger H).owed d +
        (if .adopt p = d then 1 else 0) = l.owed d := by
  have hen := Engine.engagement?_of_adopt hcode
  obtain ⟨h₁, ho₁⟩ := h.uncall hf hen
  have hzero : ({ l with called := none } : Ledger H).owed (.adopt p) = 0 := by
    have := ho₁ (.adopt p)
    simp only [if_true] at this
    omega
  have hnot : ¬ ({ l with called := none } : Ledger H).Refers f := h₁.not_refers hen hzero
  obtain ⟨h₂, ho₂⟩ := h₁.used f (by rintro (hr | hc); exacts [absurd hr hnot, by cases hc])
  obtain ⟨h₃, ho₃⟩ := h₂.of_aside ha
  refine ⟨h₃, fun d => ?_⟩
  have hsame : ({ l with engine := e, called := none } : Ledger H).owed d =
      ({ l with called := none } : Ledger H).owed d := (ho₃ d).trans (ho₂ d)
  rw [hsame]
  exact ho₁ d

/-- A waiter that goes on takes its duty along. -/
theorem Sound.wake (h : l.Sound) {f : FunctionRef} {d₀ : Duty} {kind : Settling}
    (hf : l.called = some f) (hen : l.engine.engagement? f = some (d₀, kind))
    (hne : ∀ p, d₀ ≠ .adopt p) {l' : Ledger H}
    (hl' : l' = { l with engine := l.engine.used f, called := none, stack := d₀ :: l.stack }) :
    l'.Sound ∧ ∀ d, l'.owed d = l.owed d := by
  have hcode : ∀ p kind, (l.engine.callable f).code ≠ .adopt p kind := by
    intro p kind' hc
    rw [Engine.engagement?, hc] at hen
    cases hen
    exact hne p rfl
  obtain ⟨h₁, ho₁⟩ := h.uncall hf hen
  obtain ⟨h₂, ho₂⟩ := h₁.used f fun _ => hcode
  have hstack : ∀ p, .adopt p ∉ l'.stack := by
    intro p hp
    rw [hl'] at hp
    rcases List.mem_cons.1 hp with hp | hp
    · exact hne p hp.symm
    · exact h.stack p hp
  let l₂ : Ledger H := { l with engine := l.engine.used f, called := none }
  have he : l₂.engine.Alike l'.engine := by rw [hl']; exact ⟨rfl, rfl, rfl⟩
  have hj : l'.jobs = l₂.jobs := by rw [hl']; rfl
  have hc : l'.called = l₂.called := by rw [hl']
  refine ⟨(h₂.restack he hj hc hstack).1, fun d => ?_⟩
  have hd₂ : l₂.owed d = ({ l with called := none } : Ledger H).owed d := ho₂ d
  rw [owed_push he hj hc (by rw [hl']) d, hd₂]
  exact ho₁ d

/-- Whatever becomes of a promise, only its own adoption is owed more often. -/
theorem Sound.fate (h : l.Sound) {p : PromiseRef} (hf : l.engine.Fate p e') :
    ({ l with engine := e' } : Ledger H).Sound ∧
      ∀ d, (∀ q, d ≠ .adopt q) → ({ l with engine := e' } : Ledger H).owed d = l.owed d := by
  cases hf with
  | settled kind v =>
    obtain ⟨hs, ho⟩ := h.settleNow p kind v
    exact ⟨hs, fun d _ => ho d⟩
  | @adopts q hq =>
    obtain ⟨hs, ho⟩ := h.link p q
    exact ⟨hs, fun d hd => by rw [ho d, if_neg (hd p)]; rfl⟩

/-- Effects do not touch duties other than those of adoptions. -/
theorem Sound.effect {R : Rights} (h : l.Sound) (he : l.engine.Effect R e') :
    ({ l with engine := e' } : Ledger H).Sound ∧
      ∀ d, (∀ p, d ≠ .adopt p) → ({ l with engine := e' } : Ledger H).owed d = l.owed d := by
  cases he with
  | aside ha =>
    obtain ⟨hs, ho⟩ := h.of_aside ha
    exact ⟨hs, fun d _ => ho d⟩
  | newPromise =>
    obtain ⟨hs, ho⟩ := h.newPromise
    exact ⟨hs, fun d _ => ho d⟩
  | @newFunction c hc =>
    obtain ⟨hs, ho⟩ := h.newFunction fun p kind heq => by rw [heq] at hc; exact hc.elim
    exact ⟨hs, fun d _ => ho d⟩
  | @spend f hf =>
    obtain ⟨hs, ho⟩ := h.spend f fun _ p kind hcode => by
      rw [Engine.engagement?, hcode] at hf
      cases hf
    exact ⟨hs, fun d _ => ho d⟩
  | @decide _ p hr hR hfate =>
    obtain ⟨h₁, ho₁⟩ := h.lock p
    obtain ⟨h₂, ho₂⟩ := h₁.fate hfate
    exact ⟨h₂, fun d hd => (ho₂ d hd).trans (ho₁ d)⟩
  | @performThen p f g capability hf hg hc =>
    obtain ⟨hs, ho⟩ := h.performThen p none hf hg (hf.twins g)
    exact ⟨hs, fun d _ => by rw [ho d]; simp⟩
  | callback label code =>
    obtain ⟨hs, ho⟩ := h.callback label code
    exact ⟨hs, fun d _ => ho d⟩

end Ledger

end Microtask
