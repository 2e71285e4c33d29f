import Mathlib.Algebra.Ring.Nat
import Microtask.Proofs.Operations
import Microtask.Proofs.Outstanding
import Microtask.Proofs.Promise.Knots

/-!
# What a drain has to pay for

A drain in which no host code and no frame runs comes to an end unless a knot is
adopted. The proof gives every job a cost, in ticks, such that a job pays for itself
and for all jobs that it leads to. What a reaction costs is fixed when it is
registered; the promise it waits at holds that much (`Scale.debt`).

Two things make the costs finite. During such a drain promises are fulfilled with
values that are no promises, since the engine resolves and never fulfills with a
promise; so a reaction to a fulfillment need not pay for an adoption, unless the
promise was fulfilled before. And adopting a promise that was fulfilled with a promise
leads to the adoption of one with a smaller rank.

`Scale.Charges` says by how much an operation may raise the debt, and here is a lemma
for each operation that such a drain is made of.
-/

namespace Microtask

variable {H : Type}

/-! ## Functions of the engine's own -/

/-- Whether the code neither calls a function nor resumes a frame. -/
def Code.isLeaf : Code H → Bool
  | .resolve _ | .reject _ | .adopt _ _ | .report _ _ _ | .constant _ _ => true
  | .wake (.returning _ _) _ => true
  | .wake _ _ | .afterwards _ _ | .host _ => false

namespace Engine

/-- A function that exists and runs nothing but the engine's own code. -/
inductive Internal (e : Engine H) : FunctionRef → Prop where
  | leaf {f : FunctionRef} :
      f.index < e.callables.size → (e.callable f).code.isLeaf = true → Internal e f
  | afterwards {f g : FunctionRef} {kind : Settling} :
      f.index < e.callables.size → (e.callable f).code = .afterwards g kind → Internal e g →
      Internal e f

/-- The job runs nothing but the engine's own code. -/
def InternalJob (e : Engine H) : Job H → Prop
  | .reaction r _ => ∀ f ∈ r.handler, e.Internal f
  | .adoption _ _ => True
  | .callback _ _ => False

/-- No job that waits and no reaction that is registered runs host code or a frame. -/
structure HostFree (e : Engine H) : Prop where
  jobs : ∀ j ∈ e.waitingJobs, e.InternalJob j
  reactions : ∀ p kind, ∀ r ∈ (e.promise p).reactions kind, ∀ f ∈ r.handler, e.Internal f

/-- No function has lost its code. -/
structure KeepsCode (e e' : Engine H) : Prop where
  size : e.callables.size ≤ e'.callables.size
  code : ∀ f, f.index < e.callables.size → (e'.callable f).code = (e.callable f).code

namespace KeepsCode

variable {e e' e'' : Engine H}

theorem trans (h : e.KeepsCode e') (h' : e'.KeepsCode e'') : e.KeepsCode e'' :=
  ⟨h.size.trans h'.size, fun f hf => (h'.code f (hf.trans_le h.size)).trans (h.code f hf)⟩

theorem of_eq (h : e'.callables = e.callables) : e.KeepsCode e' := by
  constructor <;> simp [callable, h]

end KeepsCode

theorem Grows.keepsCode {e e' : Engine H} (h : e.Grows e') : e.KeepsCode e' := ⟨h.callables, h.code⟩

end Engine

/-! ## Fees -/

/-- What running a leaf with an argument of the given price may add to the debt, or
lead to in ticks, where no async generator has more than the given number of requests. -/
def Code.fee (requests x : Nat) : Code H → Nat
  | .resolve _ | .adopt _ .fulfill => x
  | .wake _ _ => requests + 1
  | _ => 0

/-- A call of the function with an argument of the given price is paid for. Passing a
settlement on afterwards has a price of its own. -/
inductive Engine.Pays (e : Engine H) (requests passing : Nat) : FunctionRef → Nat → Nat → Prop where
  | leaf {f : FunctionRef} {x n : Nat} :
      f.index < e.callables.size → (e.callable f).code.isLeaf = true →
      (e.callable f).code.fee requests x ≤ n → Pays e requests passing f x n
  | afterwards {f g : FunctionRef} {kind : Settling} {x m n : Nat} :
      f.index < e.callables.size → (e.callable f).code = .afterwards g kind →
      Pays e requests passing g 0 m → m + passing + 2 ≤ n → Pays e requests passing f x n

namespace Engine.Pays

variable {e e' : Engine H} {requests passing x m n : Nat} {f : FunctionRef}

theorem keepsCode (hk : e.KeepsCode e') (h : e.Pays requests passing f x n) :
    e'.Pays requests passing f x n := by
  induction h with
  | leaf hf hleaf hfee =>
    rw [← hk.code _ hf] at hleaf hfee
    exact .leaf (hf.trans_le hk.size) hleaf hfee
  | afterwards hf hcode _ hn ih =>
    exact .afterwards (hf.trans_le hk.size) ((hk.code _ hf).trans hcode) ih hn

theorem mono (h : e.Pays requests passing f x m) (hmn : m ≤ n) : e.Pays requests passing f x n := by
  cases h with
  | leaf hf hleaf hfee => exact .leaf hf hleaf (hfee.trans hmn)
  | afterwards hf hcode hg hm => exact .afterwards hf hcode hg (hm.trans hmn)

end Engine.Pays

/-- A function of the engine's own costs only so much, whatever the argument is. -/
theorem Engine.Internal.pays {e : Engine H} {f : FunctionRef} (h : e.Internal f)
    (requests passing dear : Nat) :
    ∃ n, ∀ x ≤ dear, e.Pays requests passing f x n := by
  induction h with
  | @leaf f hf hleaf =>
    refine ⟨dear + requests + 1, fun x hx => .leaf hf hleaf ?_⟩
    unfold Code.fee
    split <;> omega
  | @afterwards f g kind hf hcode _ ih =>
    obtain ⟨m, hm⟩ := ih
    exact ⟨m + passing + 2, fun x _ => .afterwards hf hcode (hm 0 (Nat.zero_le _)) le_rfl⟩

/-! ## Scales -/

/-- What the costs are measured by: the ranks of the promises that are not knotted, the
number of functions at the start and what a call of one of them may cost, and how many
requests wait at an async generator at most. -/
structure Scale where
  knotted : PromiseRef → Prop
  rank : PromiseRef → Nat
  top : Nat
  rank_le : ∀ p, rank p ≤ top
  known : Nat
  load : Nat
  requests : Nat

namespace Scale

variable (S : Scale)

/-- What resolving a promise with the value leads to: an adoption, if that is a promise. -/
def price : Value → Nat
  | .promise q => 7 * (S.rank q + 1)
  | _ => 0

/-- The greatest price. -/
def dear : Nat := 7 * (S.top + 1)

theorem price_le (v : Value) : S.price v ≤ S.dear := by
  cases v with
  | promise q =>
    have hq := S.rank_le q
    simp only [price, dear]
    omega
  | _ => exact Nat.zero_le _

theorem price_eq_zero {v : Value} (h : ∀ q, v ≠ .promise q) : S.price v = 0 := by
  cases v with
  | promise q => exact absurd rfl (h q)
  | _ => rfl

/-- What it costs to register a pair of reactions with a capability. -/
def passing : Nat := 2 * S.dear + 4

/-- What a call of a function may cost. Later functions are created during the drain,
and only as handlers of fulfillments do they cost more than the price of the argument. -/
def loadOf (f : FunctionRef) : Nat := if f.index < S.known then S.load else 0

/-- The part of a settlement that a handler may resolve a promise with. -/
def share (kind : Settling) (x : Nat) : Nat :=
  match kind with
  | .fulfill => x
  | .reject => 0

/-- What it costs to settle a capability. -/
def capabilityCost (capability : Option PromiseRef) : Nat :=
  if capability.isSome then S.dear else 0

/-- What a reaction costs, for a settlement of the given price. -/
def reactionCost (r : Reaction) (x : Nat) : Nat :=
  (match r.handler with
    | none => 1
    | some f => S.loadOf f + share r.kind x + 3) + S.capabilityCost r.capability

def cost : Job H → Nat
  | .reaction r v => S.reactionCost r (S.price v)
  | .adoption _ q => S.price (.promise q)
  | .callback _ _ => 0

/-- What the reactions cost that wait at a promise. It will not be fulfilled with a
promise, but it may be rejected with one. -/
def held (r : Promise) : Nat :=
  (r.onFulfilled.map (S.reactionCost · 0)).sum + (r.onRejected.map (S.reactionCost · S.dear)).sum

/-- What all jobs cost that wait and may come. -/
def debt (e : Engine H) : Nat := (e.waitingJobs.map S.cost).sum + e.promises.total S.held

/-- The handler of a reaction is paid for. -/
def Fits (e : Engine H) (r : Reaction) : Prop :=
  ∀ f ∈ r.handler, ∀ x ≤ S.dear, e.Pays S.requests S.passing f x (S.loadOf f + share r.kind x)

def FitsJob (e : Engine H) : Job H → Prop
  | .reaction r _ => S.Fits e r
  | .adoption _ _ => True
  | .callback _ _ => False

/-- The costs are right. -/
structure Sound (e : Engine H) : Prop where
  known : S.known ≤ e.callables.size
  jobs : ∀ j ∈ e.waitingJobs, S.FitsJob e j
  reactions : ∀ p kind, ∀ r ∈ (e.promise p).reactions kind, S.Fits e r
  rank : ∀ p q, ¬ S.knotted p → e.Wraps p q → S.rank q < S.rank p
  requests : ∀ a, (e.asyncGenerator a).queue.length ≤ S.requests

variable {S} {e e' e'' : Engine H} {m n : Nat}

@[simp] theorem share_fulfill (x : Nat) : share .fulfill x = x := rfl

@[simp] theorem share_reject (x : Nat) : share .reject x = 0 := rfl

@[simp] theorem capabilityCost_none : S.capabilityCost none = 0 := rfl

@[simp] theorem capabilityCost_some (p : PromiseRef) : S.capabilityCost (some p) = S.dear := rfl

@[simp] theorem reactionCost_none (kind : Settling) (capability : Option PromiseRef) (x : Nat) :
    S.reactionCost ⟨kind, none, capability⟩ x = 1 + S.capabilityCost capability := rfl

@[simp] theorem reactionCost_some (kind : Settling) (f : FunctionRef)
    (capability : Option PromiseRef) (x : Nat) :
    S.reactionCost ⟨kind, some f, capability⟩ x =
      S.loadOf f + share kind x + 3 + S.capabilityCost capability := rfl

theorem held_default : S.held default = 0 := rfl

theorem reactionCost_mono (r : Reaction) {x y : Nat} (h : x ≤ y) :
    S.reactionCost r x ≤ S.reactionCost r y := by
  unfold reactionCost share
  cases r.handler <;> cases r.kind <;> simp only <;> omega

theorem Fits.keepsCode {r : Reaction} (hk : e.KeepsCode e') (h : S.Fits e r) : S.Fits e' r :=
  fun f hf x hx => (h f hf x hx).keepsCode hk

theorem FitsJob.keepsCode {j : Job H} (hk : e.KeepsCode e') (h : S.FitsJob e j) :
    S.FitsJob e' j := by
  cases j with
  | reaction r v => exact Fits.keepsCode hk h
  | adoption p q => trivial
  | callback label code => exact h

theorem fits_none {kind : Settling} {capability : Option PromiseRef} :
    S.Fits e ⟨kind, none, capability⟩ := by
  rintro f ⟨⟩

/-! ## Charges -/

/-- An operation keeps the costs right and raises the debt by no more than the given
amount. -/
structure Charges (S : Scale) (n : Nat) (e e' : Engine H) : Prop where
  code : e.KeepsCode e'
  asyncGenerators : e'.asyncGenerators = e.asyncGenerators
  sound : S.Sound e'
  debt : S.debt e' ≤ S.debt e + n

namespace Charges

theorem mono (h : S.Charges m e e') (hmn : m ≤ n) : S.Charges n e e' :=
  { h with debt := h.debt.trans (by omega) }

theorem trans (h : S.Charges m e e') (h' : S.Sound e' → S.Charges n e' e'') :
    S.Charges (m + n) e e'' where
  code := h.code.trans (h' h.sound).code
  asyncGenerators := (h' h.sound).asyncGenerators.trans h.asyncGenerators
  sound := (h' h.sound).sound
  debt := (h' h.sound).debt.trans (by have := h.debt; omega)

/-- First something that is free. -/
theorem andThen (h : S.Charges 0 e e') (h' : S.Sound e' → S.Charges n e' e'') :
    S.Charges n e e'' :=
  (h.trans h').mono (by omega)

/-- An operation that changes one promise and enqueues jobs. -/
theorem of_promise (he : S.Sound e) (p : PromiseRef) (js : List (Job H)) (hk : e.KeepsCode e')
    (hasync : e'.asyncGenerators = e.asyncGenerators)
    (hjobs : e'.waitingJobs = e.waitingJobs ++ js)
    (hothers : ∀ q, q ≠ p → e'.promise q = e.promise q)
    (hwraps : ∀ q, e'.Wraps p q → e.Wraps p q)
    (hfits : ∀ j ∈ js, S.FitsJob e' j)
    (hreactions : ∀ kind, ∀ r ∈ (e'.promise p).reactions kind,
      r ∈ (e.promise p).reactions kind ∨ S.Fits e' r)
    (hdebt : (js.map S.cost).sum + S.held (e'.promise p) ≤ S.held (e.promise p) + n) :
    S.Charges n e e' := by
  refine ⟨hk, hasync, ⟨he.known.trans hk.size, fun j hj => ?_, fun q kind r hr => ?_,
    fun q x hq hx => ?_, fun a => ?_⟩, ?_⟩
  · rw [hjobs] at hj
    rcases List.mem_append.1 hj with hold | hnew
    · exact (he.jobs j hold).keepsCode hk
    · exact hfits j hnew
  · by_cases hq : q = p
    · subst hq
      rcases hreactions kind r hr with hold | hnew
      · exact (he.reactions q kind r hold).keepsCode hk
      · exact hnew
    · rw [hothers q hq] at hr
      exact (he.reactions q kind r hr).keepsCode hk
  · by_cases hqp : q = p
    · subst hqp
      exact he.rank q x hq (hwraps x hx)
    · rw [Engine.Wraps, hothers q hqp] at hx
      exact he.rank q x hq hx
  · rw [Engine.asyncGenerator, hasync]
    exact he.requests a
  · have htotal : e'.promises.total S.held + S.held (e.promise p) =
        e.promises.total S.held + S.held (e'.promise p) :=
      Store.total_change held_default held_default p.index fun i hi =>
        congrArg S.held (hothers ⟨i⟩ fun h => hi (congrArg PromiseRef.index h))
    simp only [Scale.debt, hjobs, List.map_append, List.sum_append]
    omega

/-- An operation on functions. -/
theorem of_functions (he : S.Sound e) (hk : e.KeepsCode e') (hp : e'.promises = e.promises)
    (hj : e'.jobs = e.jobs) (ha : e'.asyncGenerators = e.asyncGenerators) : S.Charges 0 e e' := by
  have hsame : ∀ p, e'.promise p = e.promise p := fun p => by rw [Engine.promise, hp]; rfl
  refine of_promise he ⟨0⟩ [] hk ha ?_ (fun q _ => hsame q) (fun q => ?_) (fun j hj => ?_)
    (fun kind r hr => ?_) ?_
  · rw [Engine.waitingJobs, hj, List.append_nil]
    rfl
  · rw [Engine.Wraps, hsame]
    exact id
  · cases hj
  · rw [hsame] at hr
    exact .inl hr
  · simp [hsame]

/-- An operation that concerns neither promises, functions, jobs nor async generators. -/
theorem of_eq (he : S.Sound e) (hp : e'.promises = e.promises) (hc : e'.callables = e.callables)
    (hj : e'.jobs = e.jobs) (ha : e'.asyncGenerators = e.asyncGenerators) : S.Charges 0 e e' :=
  of_functions he (.of_eq hc) hp hj ha

theorem refl (he : S.Sound e) : S.Charges 0 e e := of_eq he rfl rfl rfl rfl

end Charges

/-! ## Promises -/

section

variable (he : S.Sound e)
include he

theorem charges_newObject (o : Object) : S.Charges 0 e (e.newObject o).2 :=
  .of_eq he rfl rfl rfl rfl

theorem charges_newFunction (c : Callable H) : S.Charges 0 e (e.newFunction c).2 :=
  .of_functions he (Engine.grows_newFunction e c).keepsCode rfl rfl rfl

theorem charges_spend (f : FunctionRef) : S.Charges 0 e (e.spend f) :=
  .of_functions he (Engine.grows_spend e f).keepsCode rfl rfl rfl

theorem charges_newPromise : S.Charges 0 e e.newPromise.2 := by
  have hnew : e.newPromise.2.promise ⟨e.promises.size⟩ = { id := e.nextId } := by
    rw [Engine.promise_newPromise, if_pos rfl]
  refine .of_promise he ⟨e.promises.size⟩ [] (Engine.grows_newPromise e).keepsCode rfl
    (List.append_nil _).symm (fun q hq => ?_) (fun q hq => ?_) (fun j hj => ?_)
    (fun kind r hr => ?_) ?_
  · rw [Engine.promise_newPromise, if_neg hq]
  · rw [Engine.Wraps, hnew] at hq
    cases hq
  · cases hj
  · rw [hnew] at hr
    cases kind <;> cases hr
  · rw [hnew]
    exact Nat.zero_le _

theorem charges_lock (p : PromiseRef) : S.Charges 0 e (e.lock p) := by
  have hlock : (e.lock p).promise p = { e.promise p with resolved := true } := by
    rw [Engine.promise_lock, if_pos rfl]
  refine .of_promise he p [] (Engine.grows_lock e p).keepsCode rfl (List.append_nil _).symm
    (fun q hq => ?_) (fun q hq => ?_) (fun j hj => ?_) (fun kind r hr => ?_) ?_
  · rw [Engine.promise_lock, if_neg hq]
  · rw [Engine.Wraps, hlock] at hq
    exact hq
  · cases hj
  · rw [Engine.reactions_lock] at hr
    exact .inl hr
  · rw [hlock]
    exact (Nat.zero_add _).le

/-- An adoption costs the price of the promise. -/
theorem charges_link (p q : PromiseRef) : S.Charges (S.price (.promise q)) e (e.link p q) := by
  have hlink : (e.link p q).promise p = { e.promise p with following := some q } := by
    rw [Engine.promise_link, if_pos rfl]
  refine .of_promise he p [.adoption p q] (Engine.grows_link e p q).keepsCode rfl
    (Engine.waitingJobs_link e p q) (fun x hx => ?_) (fun x hx => ?_) (fun j hj => ?_)
    (fun kind r hr => ?_) ?_
  · rw [Engine.promise_link, if_neg hx]
  · rw [Engine.Wraps, hlink] at hx
    exact hx
  · obtain rfl := List.mem_singleton.1 hj
    trivial
  · rw [Engine.reactions_link] at hr
    exact .inl hr
  · rw [hlink]
    simp only [List.map_cons, List.map_nil, List.sum_cons, List.sum_nil, cost, held]
    omega

omit he in
/-- The reactions that settling a promise queues have been paid for, unless it is
fulfilled with a promise. -/
theorem sum_cost_reactions_le (r : Promise) {kind : Settling} {v : Value}
    (hv : kind = .fulfill → ∀ q, v ≠ .promise q) :
    (((r.reactions kind).map (.reaction · v)).map (S.cost (H := H))).sum ≤ S.held r := by
  rw [List.map_map]
  cases kind with
  | fulfill =>
    simp only [held, Promise.reactions, Function.comp_def, cost, S.price_eq_zero (hv rfl)]
    omega
  | reject =>
    have hle : (r.onRejected.map fun r => S.reactionCost r (S.price v)).sum ≤
        (r.onRejected.map (S.reactionCost · S.dear)).sum :=
      List.sum_le_sum fun r _ => reactionCost_mono r (S.price_le v)
    simp only [held, Promise.reactions, Function.comp_def, cost]
    omega

theorem charges_settleNow (p : PromiseRef) (kind : Settling) {v : Value}
    (hv : kind = .fulfill → ∀ q, v ≠ .promise q) : S.Charges 0 e (e.settleNow p kind v) := by
  by_cases hs : (e.promise p).state = .pending
  · have hk := (Engine.grows_settleNow e p kind v).keepsCode
    have hself : (e.settleNow p kind v).promise p = (e.promise p).settled kind v := by
      rw [Engine.promise_settleNow hs, if_pos rfl]
    refine .of_promise he p (((e.promise p).reactions kind).map (.reaction · v)) hk
      (Engine.frame_settleNow (·.asyncGenerators) (fun _ _ _ _ => rfl) e p kind v)
      (Engine.waitingJobs_settleNow hs kind v) (fun q hq => ?_) (fun q hq => ?_)
      (fun j hj => ?_) (fun kind' r hr => ?_) ?_
    · rw [Engine.promise_settleNow hs, if_neg hq]
    · rw [Engine.Wraps, hself] at hq
      cases kind with
      | fulfill =>
        obtain rfl : v = .promise q := by simpa [Promise.settled, Settling.state] using hq
        exact absurd rfl (hv rfl q)
      | reject => cases hq
    · obtain ⟨r, hr, rfl⟩ := List.mem_map.1 hj
      exact Fits.keepsCode hk (he.reactions p kind r hr)
    · exact .inl (Engine.mem_reactions_settleNow hs hr)
    · have hpaid := sum_cost_reactions_le (S := S) (H := H) (e.promise p) hv
      have hnone : S.held ((e.promise p).settled kind v) = 0 := rfl
      rw [hself]
      omega
  · rw [Engine.settleNow_of_settled hs]
    exact .refl he

/-! ## Settling -/

theorem charges_rejectNow (p : PromiseRef) (reason : Value) :
    S.Charges 0 e (e.rejectNow p reason) :=
  charges_settleNow he p .reject nofun

/-- Resolving costs the price of the value. -/
theorem charges_resolveNow (p : PromiseRef) (v : Value) :
    S.Charges (S.price v) e (e.resolveNow p v) := by
  unfold Engine.resolveNow
  split
  · next q =>
    split
    · exact ((charges_newObject he _).andThen fun h => charges_rejectNow h p _).mono (Nat.zero_le _)
    · exact charges_link he p q
  · next hv =>
    have hfree : S.Charges 0 e (e.settleNow p .fulfill v) := charges_settleNow he p _ fun _ => hv
    exact hfree.mono (Nat.zero_le _)

theorem charges_decideFate {p : PromiseRef} {next : Engine H → Engine H}
    (h : S.Sound (e.lock p) → S.Charges n (e.lock p) (next (e.lock p))) :
    S.Charges n e (e.decideFate p next) := by
  unfold Engine.decideFate
  split
  · exact (Charges.refl he).mono (Nat.zero_le _)
  · exact (charges_lock he p).andThen h

theorem charges_resolve (p : PromiseRef) (v : Value) :
    S.Charges (S.price v) e (e.resolve p v) :=
  charges_decideFate he fun h => charges_resolveNow h p v

/-- Resolving with anything but a promise is free. -/
theorem charges_resolve_data (p : PromiseRef) {v : Value} (hv : ∀ q, v ≠ .promise q) :
    S.Charges 0 e (e.resolve p v) :=
  (charges_resolve he p v).mono (S.price_eq_zero hv).le

theorem charges_reject (p : PromiseRef) (reason : Value) :
    S.Charges 0 e (e.reject p reason) :=
  charges_decideFate he fun h => charges_rejectNow h p reason

theorem charges_settle (p : PromiseRef) (kind : Settling) (v : Value) :
    S.Charges (S.price v) e (e.settle p kind v) := by
  cases kind with
  | fulfill => exact charges_resolve he p v
  | reject => exact (charges_reject he p v).mono (Nat.zero_le _)

theorem charges_failureValue (failure : Failure) : S.Charges 0 e (e.failureValue failure).2 := by
  cases failure with
  | thrown v => exact .refl he
  | engine error =>
    cases error with
    | thrown v => exact .refl he
    | _ => exact charges_newObject he _

/-- A capability has been paid for, whatever it is settled with. -/
theorem charges_settleCapability (capability : Option PromiseRef)
    (result : Except Failure Value) :
    S.Charges (S.capabilityCost capability) e (e.settleCapability capability result) := by
  cases capability with
  | none => exact .refl he
  | some p =>
    cases result with
    | ok v => exact (charges_resolve he p v).mono (S.price_le v)
    | error failure =>
      exact ((charges_failureValue he failure).andThen fun h => charges_reject h p _).mono
        (Nat.zero_le _)

/-! ## Attaching -/

omit he in
/-- What it costs to attach a pair of handlers to a promise. -/
def attachCost (S : Scale) (r : Promise) (f g : Option FunctionRef)
    (capability : Option PromiseRef) : Nat :=
  match r.state with
  | .pending =>
    S.reactionCost ⟨.fulfill, f, capability⟩ 0 + S.reactionCost ⟨.reject, g, capability⟩ S.dear
  | .fulfilled v => S.reactionCost ⟨.fulfill, f, capability⟩ (S.price v)
  | .rejected v => S.reactionCost ⟨.reject, g, capability⟩ (S.price v)

theorem charges_performThen {p : PromiseRef} {f g : Option FunctionRef}
    {capability : Option PromiseRef} (hf : S.Fits e ⟨.fulfill, f, capability⟩)
    (hg : S.Fits e ⟨.reject, g, capability⟩) :
    S.Charges (S.attachCost (e.promise p) f g capability) e (e.performThen p f g capability) := by
  have hk := (Engine.grows_performThen e p f g capability).keepsCode
  have hself : (e.performThen p f g capability).promise p =
      (e.promise p).attach f g capability := by
    rw [Engine.promise_performThen, if_pos rfl]
  refine .of_promise he p ((e.promise p).attachJobs f g capability) hk
    (Engine.frame_performThen e p f g capability (·.asyncGenerators) fun _ _ _ _ => rfl)
    (Engine.waitingJobs_performThen e p f g capability) (fun q hq => ?_) (fun q hq => ?_)
    (fun j hj => ?_) (fun kind r hr => ?_) ?_
  · rw [Engine.promise_performThen, if_neg hq]
  · rw [Engine.Wraps, hself, Promise.read_attach (·.state) fun _ _ _ => rfl] at hq
    exact hq
  · obtain ⟨v, -, rfl⟩ | ⟨v, -, rfl⟩ := Promise.mem_attachJobs hj
    · exact hf.keepsCode hk
    · exact hg.keepsCode hk
  · obtain hold | ⟨-, rfl | rfl⟩ := Engine.mem_reactions_performThen hr
    · exact .inl hold
    · exact .inr (hf.keepsCode hk)
    · exact .inr (hg.keepsCode hk)
  · rw [hself]
    unfold attachCost Promise.attachJobs Promise.attach
    cases (e.promise p).state with
    | pending =>
      simp only [held, List.map_append, List.sum_append, List.map_cons, List.map_nil,
        List.sum_cons, List.sum_nil]
      omega
    | fulfilled v | rejected v =>
      simp only [held, List.map_cons, List.map_nil, List.sum_cons, List.sum_nil, cost]
      omega

omit he in
/-- A handler that has just been created and is a leaf. It costs as much as the share
of the settlement that it may resolve a promise with. -/
theorem fits_new {c : Callable H} (kind : Settling) {capability : Option PromiseRef}
    (hleaf : c.code.isLeaf = true)
    (hfee : ∀ x, c.code.fee S.requests x ≤ share kind x) :
    S.Fits (e.newFunction c).2 ⟨kind, some (e.newFunction c).1, capability⟩ := by
  rintro f ⟨⟩ x -
  have hcode : (e.newFunction c).2.callable (e.newFunction c).1 = c := by
    rw [Engine.callable_newFunction]
    exact if_pos rfl
  refine .leaf (by simp [Engine.newFunction]) (by rw [hcode]; exact hleaf) ?_
  rw [hcode]
  exact (hfee x).trans (Nat.le_add_left _ _)

theorem loadOf_new (c : Callable H) : S.loadOf (e.newFunction c).1 = 0 :=
  if_neg (Nat.not_lt.2 he.known)

/-- Attaching to a promise that is not knotted costs less than the price of adopting it. -/
theorem charges_attachAdoption {p q : PromiseRef} (hq : ¬ S.knotted q) :
    S.Charges (S.price (.promise q) - 1) e (e.attachAdoption p q) := by
  let c : Callable H := ⟨"resolve", .once, .adopt p .fulfill⟩
  let d : Callable H := ⟨"reject", .once, .adopt p .reject⟩
  have hc := charges_newFunction he c
  have hd := charges_newFunction hc.sound d
  have hfree := hc.andThen fun _ => hd
  have hf : S.Fits _ ⟨.fulfill, some (e.newFunction c).1, none⟩ :=
    (fits_new .fulfill rfl fun _ => le_rfl).keepsCode hd.code
  have hg : S.Fits _ ⟨.reject, some ((e.newFunction c).2.newFunction d).1, none⟩ :=
    fits_new .reject rfl fun _ => le_rfl
  refine hfree.andThen fun h => (charges_performThen h (p := q) hf hg).mono ?_
  have hf₀ := loadOf_new he c
  have hg₀ := loadOf_new hc.sound d
  unfold attachCost
  split
  · simp only [reactionCost_some, hf₀, hg₀, share_fulfill, share_reject, capabilityCost_none, price]
    omega
  · next v hv =>
    have hcheaper : S.price v + 7 ≤ S.price (.promise q) := by
      cases v with
      | promise q' =>
        have hlt := h.rank q q' hq hv
        simp only [price]
        omega
      | _ =>
        simp only [price]
        omega
    simp only [reactionCost_some, hf₀, share_fulfill, capabilityCost_none]
    omega
  · simp only [reactionCost_some, hg₀, share_reject, capabilityCost_none, price]
    omega

theorem charges_promiseOf (v : Value) : S.Charges 0 e (e.promiseOf v).2 := by
  cases v with
  | promise p => exact .refl he
  | _ => exact (charges_newPromise he).andThen fun h => charges_resolve_data h _ nofun

theorem charges_passAfter (returned settled : Value) (kind : Settling) :
    S.Charges S.passing e (e.passAfter returned settled kind).2 := by
  have hv := charges_promiseOf he returned
  -- the name of the callback depends on the kind, and nothing else does
  have hthen : ∀ name, S.Charges S.passing e
      (let handler := (e.promiseOf returned).2.newFunction
        ⟨name, .repeatable, .constant settled kind⟩
       (handler.2.promiseThen (e.promiseOf returned).1 (some handler.1) none).2) := by
    intro name
    let c : Callable H := ⟨name, .repeatable, .constant settled kind⟩
    have hc := charges_newFunction hv.sound c
    have hp := charges_newPromise hc.sound
    have hfree := hv.andThen fun _ => hc.andThen fun _ => hp
    have hf : S.Fits _ ⟨.fulfill, some ((e.promiseOf returned).2.newFunction c).1,
        some ((e.promiseOf returned).2.newFunction c).2.newPromise.1⟩ :=
      (fits_new .fulfill rfl fun _ => Nat.zero_le _).keepsCode hp.code
    refine hfree.andThen fun h => (charges_performThen h hf fits_none).mono ?_
    have hf₀ := loadOf_new hv.sound c
    unfold attachCost
    split
    · simp only [reactionCost_some, reactionCost_none, hf₀, share_fulfill, capabilityCost_some,
        passing]
      omega
    · next v hv =>
      have hle := S.price_le v
      simp only [reactionCost_some, hf₀, share_fulfill, capabilityCost_some, passing]
      omega
    · simp only [reactionCost_none, capabilityCost_some, passing]
      omega
  exact hthen _

/-! ## Combinators -/

theorem charges_concludeTally (t : Tally) : S.Charges 0 e (e.concludeTally t) := by
  unfold Engine.concludeTally
  split
  · cases t.collection with
    | all | allSettled =>
      exact (charges_newObject he _).andThen fun h => charges_resolve_data h _ nofun
    | any =>
      exact (charges_newObject he _).andThen fun h =>
        (charges_newObject h _).andThen fun h => charges_reject h _ _
  · exact .refl he

theorem charges_countDown (t : TallyRef) : S.Charges 0 e (e.countDown t) := by
  have hm : S.Charges 0 e (e.modifyTally t fun _ => (e.tally t).countDown) :=
    .of_eq he rfl rfl rfl rfl
  exact hm.andThen fun h => charges_concludeTally h (e.tally t).countDown

theorem charges_report (t : TallyRef) (i : Nat) (kind : Settling) (v : Value) :
    S.Charges 0 e (e.report t i kind v) := by
  dsimp only [Engine.report]
  split
  · have hslot : S.Charges 0 e (e.slotContent (e.tally t).collection kind v).2 := by
      cases (e.tally t).collection <;> cases kind <;>
        first | exact .refl he | exact charges_newObject he _
    have hfill : S.Charges 0 _ ((e.slotContent (e.tally t).collection kind v).2.modifyTally t
        (·.fill i (e.slotContent (e.tally t).collection kind v).1)) :=
      .of_eq hslot.sound rfl rfl rfl rfl
    exact hslot.andThen fun _ => hfill.andThen fun h => charges_countDown h t
  · exact .refl he

/-! ## Requests -/

theorem charges_answerRequest (r : Request) (v : Value) (done : Bool) :
    S.Charges 0 e (e.answerRequest r v done) :=
  (charges_newObject he _).andThen fun h => charges_resolve_data h _ nofun

end

end Scale

end Microtask
