import Microtask.Proofs.Operations

/-!
# Acts

An `Act` is a small change of a ledger: an effect on the engine, or a duty that
moves. A job that is taken off the queue hands its duty to the function that is
being called; an await hands the duty on top of the control stack to a pair of
callbacks; an answer discharges it.

An act is stated with all that it depends on, so that an invariant of the engine
is proved act by act. Every step of the machine is a chain of acts (`Step.acts`).
-/

namespace Microtask

variable {H : Type}

/-- How often a function may be called after a call. -/
def Usage.used : Usage → Usage
  | .repeatable => .repeatable
  | .once | .spent => .spent

namespace Engine

/-- The function has been called; one for a single call is used up. -/
def used (e : Engine H) (f : FunctionRef) : Engine H :=
  match (e.callable f).usage with
  | .once => e.spend f
  | .repeatable | .spent => e

/-- Nothing but the functions is changed by that. -/
theorem used_eq (e : Engine H) (f : FunctionRef) :
    e.used f = { e with callables := (e.used f).callables } := by
  unfold used
  split <;> rfl

theorem promise_used (e : Engine H) (f : FunctionRef) (p : PromiseRef) :
    (e.used f).promise p = e.promise p := by
  unfold used
  split <;> rfl

theorem waitingJobs_used (e : Engine H) (f : FunctionRef) :
    (e.used f).waitingJobs = e.waitingJobs := by
  unfold used
  split <;> rfl

theorem callable_used (e : Engine H) (f g : FunctionRef) :
    (e.used f).callable g =
      if g = f then { e.callable f with usage := (e.callable f).usage.used } else e.callable g := by
  have hkept : ∀ c : Callable H, c.usage.used = c.usage → { c with usage := c.usage.used } = c := by
    intro c hc
    rw [hc]
  unfold used
  split
  · next hu => rw [callable_spend, hu, Usage.used]
  all_goals
    next hu =>
      split
      · next hg => rw [hg, hkept _ (by rw [hu]; rfl)]
      · rfl

theorem code_used (e : Engine H) (f g : FunctionRef) :
    ((e.used f).callable g).code = (e.callable g).code := by
  rw [callable_used]
  split
  · next hg => rw [hg]
  · rfl

/-- Attach a pair of new functions to a promise. -/
def engage (e : Engine H) (q : PromiseRef) (c d : Callable H) : Engine H :=
  let (f, e) := e.newFunction c
  let (g, e) := e.newFunction d
  e.performThen q (some f) (some g) none

/-- The function with a duty that a job calls. -/
def calledBy (e : Engine H) : Job H → Option FunctionRef
  | .reaction r _ => r.handler.filter fun f => (e.engagement? f).isSome
  | .adoption _ _ | .callback _ _ => none

end Engine

/-- The duty to settle the capability of a job. -/
def Job.results : Job H → List Duty
  | .reaction r _ => r.capability.toList.map .result
  | .adoption _ _ | .callback _ _ => []

theorem Job.count_results (j : Job H) {d : Duty} (hd : ∀ p, d ≠ .result p) :
    j.results.count d = 0 := by
  refine List.count_eq_zero.2 fun hmem => ?_
  cases j with
  | reaction r v =>
    obtain ⟨p, -, hp⟩ := List.mem_map.1 hmem
    exact hd p hp.symm
  | _ => cases hmem

/-- Two functions for a single call that have the duty, one for each way of settling.
Both wake the same waiter, if they wake one. -/
structure Duty.Engages (d : Duty) (c c' : Callable H) : Prop where
  fulfill : c.code.engagement? = some (d, .fulfill)
  reject : c'.code.engagement? = some (d, .reject)
  once : c.usage = .once
  once' : c'.usage = .once
  twins : ∀ w, c.code = .wake w .fulfill → c'.code = .wake w .reject

/-- The promise that a duty on the control stack is to settle in the end. -/
def Duty.settles? : Duty → Option PromiseRef
  | .result p | .construct p | .body _ p => some p
  | .adopt _ | .serve _ _ => none

theorem Duty.ne_of_settles {d : Duty} {p : PromiseRef} (h : d.settles? = some p) :
    (∀ q, d ≠ .adopt q) ∧ ∀ a r, d ≠ .serve a r := by
  refine ⟨?_, ?_⟩
  · rintro q rfl
    cases h
  · rintro a r rfl
    cases h

/-- A small change of a ledger. -/
inductive Act (R : Rights) : Ledger H → Ledger H → Prop where
  | effect {l : Ledger H} {e : Engine H} : l.engine.Effect R e → Act R l { l with engine := e }
  /-- A job that is not an adoption is begun. -/
  | pop {l : Ledger H} {id : Nat} {j : Job H} {jobs : JobQueue (Job H)} :
      l.engine.jobs.pop? = some ((id, j), jobs) → (∀ p q, j ≠ .adoption p q) → l.called = none →
      R.manage →
      Act R l
        { l with
          engine := { l.engine with jobs }
          called := l.engine.calledBy j
          stack := j.results ++ l.stack }
  /-- An adoption attaches to the promise that is adopted. -/
  | attach {l : Ledger H} {id : Nat} {p q : PromiseRef} {jobs : JobQueue (Job H)} :
      l.engine.jobs.pop? = some ((id, .adoption p q), jobs) → R.manage →
      Act R l { l with engine := { l.engine with jobs }.attachAdoption p q }
  /-- The settlement of an adopted promise is passed on. -/
  | adopt {l : Ledger H} {f : FunctionRef} {p : PromiseRef} {kind : Settling} {e e' : Engine H} :
      l.called = some f → (l.engine.callable f).code = .adopt p kind →
      (l.engine.callable f).usage ≠ .spent → (l.engine.used f).Aside R e → e.Fate p e' →
      Act R l { l with engine := e', called := none }
  /-- A function that has been used up is called again. -/
  | lapse {l : Ledger H} {f : FunctionRef} :
      l.called = some f → (l.engine.callable f).usage = .spent →
      (∀ d kind, l.engine.engagement? f = some (d, kind) → R.Drives d) →
      Act R l { l with called := none }
  /-- A waiter goes on. -/
  | wake {l : Ledger H} {f : FunctionRef} {d : Duty} {kind : Settling} :
      l.called = some f → l.engine.engagement? f = some (d, kind) → (∀ p, d ≠ .adopt p) →
      (l.engine.callable f).usage ≠ .spent → R.Drives d →
      Act R l { l with engine := l.engine.used f, called := none, stack := d :: l.stack }
  /-- A function or a frame is run on behalf of a promise. -/
  | start {l : Ledger H} {d : Duty} {p : PromiseRef} :
      d.settles? = some p → R.Owns l.engine p → R.Drives d → Act R l { l with stack := d :: l.stack }
  | discharge {l : Ledger H} {d : Duty} {p : PromiseRef} {rest : List Duty} :
      l.stack = d :: rest → d.settles? = some p → R.Drives d → Act R l { l with stack := rest }
  /-- Wait for a promise before going on. -/
  | engage {l : Ledger H} {d : Duty} {rest : List Duty} {q : PromiseRef} {c c' : Callable H} :
      l.stack = d :: rest → d.Engages c c' → R.Drives d →
      Act R l { l with engine := l.engine.engage q c c', stack := rest }
  | request {l : Ledger H} (a : AsyncGeneratorRef) (c : Completion) :
      R.request → l.serving = none →
      Act R l
        { l with
          engine := (l.engine.addRequest a c).2
          serving := some a
          issued := l.issued ++ [(a, ⟨c, (l.engine.addRequest a c).1⟩)] }
  /-- Begin to look at the queue of an async generator. -/
  | look {l : Ledger H} (a : AsyncGeneratorRef) :
      l.serving = none → Act R l { l with serving := some a }
  | idle {l : Ledger H} {a : AsyncGeneratorRef} :
      l.serving = some a →
      (l.engine.asyncGenerator a).state.isBusy = true ∨ (l.engine.asyncGenerator a).queue = [] →
      Act R l { l with serving := none }
  /-- Take a request off the queue. -/
  | take {l : Ledger H} {a : AsyncGeneratorRef} {r : Request} {rest : List Request}
      {s : AsyncGeneratorState} :
      l.serving = some a → (l.engine.asyncGenerator a).state.isBusy = false →
      (l.engine.asyncGenerator a).queue = r :: rest → s.isBusy = true → R.move (.serve a r) →
      Act R l
        { l with
          engine := l.engine.modifyAsyncGenerator a fun g => { g with queue := rest, state := s }
          stack := .serve a r :: l.stack }
  /-- Wait for the final result. -/
  | hold {l : Ledger H} {a : AsyncGeneratorRef} {r : Request} {rest : List Duty} :
      l.stack = .serve a r :: rest → R.move (.serve a r) →
      Act R l { l with engine := l.engine.setAsyncState a .awaitingReturn }
  | answer {l : Ledger H} {a : AsyncGeneratorRef} {r : Request} {rest : List Duty}
      {s : AsyncGeneratorState} (kind : Settling) {v : Value} :
      l.stack = .serve a r :: rest → l.serving = some a → s.isBusy = false →
      (kind = .fulfill → ∀ p, v ≠ .promise p) → R.move (.serve a r) →
      Act R l
        { l with
          engine := (l.engine.setAsyncState a s).settle r.capability kind v
          stack := rest }
  /-- Everything that is under way is lost. -/
  | abandon {l : Ledger H} :
      l.called = none → l.serving = none → R.abandon → Act R l { l with stack := [] }
  | takeOff {l : Ledger H} {id : Nat} {j : Job H} {jobs : JobQueue (Job H)} :
      l.engine.jobs.pop? = some ((id, j), jobs) → R.manage →
      Act R l { l with engine := { l.engine with jobs }, held := j :: l.held }
  | putBack {l : Ledger H} {before after : List (Job H)} {j : Job H} :
      l.held = before ++ j :: after → R.manage →
      Act R l { l with engine := l.engine.enqueue j, held := before ++ after }

/-- One act after the other. -/
abbrev Acts (R : Rights) : Ledger H → Ledger H → Prop := Relation.ReflTransGen (Act R)

/-! ## Growth -/

namespace Engine

theorem grows_used (e : Engine H) (f : FunctionRef) : e.Grows (e.used f) := by
  unfold used
  split
  · exact grows_spend e f
  · exact .refl e
  · exact .refl e

theorem grows_engage (e : Engine H) (q : PromiseRef) (c d : Callable H) : e.Grows (e.engage q c d) :=
  (grows_newFunction e c).trans ((grows_newFunction _ d).trans (grows_performThen _ q _ _ _))

theorem grows_addRequest (e : Engine H) (a : AsyncGeneratorRef) (c : Completion) :
    e.Grows (e.addRequest a c).2 :=
  (grows_newPromise e).trans (.of_eq rfl rfl rfl)

theorem grows_settle (e : Engine H) (p : PromiseRef) (kind : Settling) (v : Value) :
    e.Grows (e.settle p kind v) :=
  (settle_effects (R := Rights.all) (fun _ => trivial) kind v).grows

end Engine

theorem Act.grows {R : Rights} {l l' : Ledger H} (h : Act R l l') : l.engine.Grows l'.engine := by
  cases h with
  | effect h => exact h.grows
  | @attach id p q jobs h =>
    have hj : l.engine.Grows { l.engine with jobs } := .of_eq rfl rfl rfl
    exact hj.trans (Engine.grows_engage _ q _ _)
  | adopt hf hc hu ha h => exact (Engine.grows_used _ _).trans (ha.grows.trans h.grows)
  | wake hf he hd hu => exact Engine.grows_used _ _
  | engage hs he => exact Engine.grows_engage _ _ _ _
  | request a c hr hs => exact Engine.grows_addRequest _ a c
  | @answer a r rest s kind v hs ha hb hv =>
    have hs : l.engine.Grows (l.engine.setAsyncState a s) := .of_eq rfl rfl rfl
    exact hs.trans (Engine.grows_settle _ r.capability kind v)
  | _ => exact .of_eq rfl rfl rfl

/-! ## Chains of acts -/

section Chains

variable {R : Rights}

theorem Acts.effects {l : Ledger H} {e : Engine H} (h : l.engine.Effects R e) :
    Acts R l { l with engine := e } := by
  induction h with
  | refl => exact .refl
  | tail _ h ih => exact ih.tail (.effect h)

theorem Acts.trans {l l' l'' : Ledger H} (h : Acts R l l') (h' : Acts R l' l'') : Acts R l l'' :=
  Relation.ReflTransGen.trans h h'

theorem Acts.grows {l l' : Ledger H} (h : Acts R l l') : l.engine.Grows l'.engine := by
  induction h with
  | refl => exact .refl _
  | tail _ h ih => exact ih.trans h.grows

/-- What every act preserves, chains of acts preserve. -/
theorem Acts.preserve {P : Ledger H → Prop} (hact : ∀ {l l'}, Act R l l' → P l → P l')
    {l l' : Ledger H} (h : Acts R l l') (hl : P l) : P l' := by
  induction h with
  | refl => exact hl
  | tail _ h ih => exact hact h ih

end Chains

/-! ## What functions do -/

/-- What holds of functions and their code, if an engine makes functions with the rights. Growth
does not take it back. -/
structure Rights.Vouches (R : Rights) (Good : Engine H → FunctionRef → Code H → Prop) : Prop where
  grows : ∀ {e e' : Engine H} {f c}, e.Grows e' → Good e f c → Good e' f c
  granted : ∀ {e : Engine H} {f c}, c.Granted R e → Good e f c
  engaged : ∀ {e : Engine H} {f c x}, c.engagement? = some x → Good e f c

namespace Engine

/-- It holds of every function and its code. -/
def Codes (e : Engine H) (Good : Engine H → FunctionRef → Code H → Prop) : Prop :=
  ∀ f, Good e f (e.callable f).code

namespace Codes

variable {R : Rights} {Good : Engine H → FunctionRef → Code H → Prop} {e e' : Engine H}

theorem of_callables (hG : R.Vouches Good) (h : e.Codes Good) (hc : e'.callables = e.callables)
    (hg : e.Grows e') : e'.Codes Good := by
  intro f
  rw [callable, hc]
  exact hG.grows hg (h f)

theorem newFunction (hG : R.Vouches Good) (h : e.Codes Good) {c : Callable H}
    (hc : Good e (e.newFunction c).1 c.code) : (e.newFunction c).2.Codes Good := by
  intro f
  refine hG.grows (grows_newFunction e c) ?_
  rw [callable_newFunction]
  split
  · next heq => exact heq ▸ hc
  · exact h f

theorem spend (hG : R.Vouches Good) (h : e.Codes Good) (f : FunctionRef) :
    (e.spend f).Codes Good := by
  intro g
  refine hG.grows (grows_spend e f) ?_
  rw [callable_spend]
  split
  · next heq => exact heq ▸ h f
  · exact h g

theorem used (hG : R.Vouches Good) (h : e.Codes Good) (f : FunctionRef) :
    (e.used f).Codes Good := by
  unfold Engine.used
  split
  · exact h.spend hG f
  · exact h
  · exact h

theorem fate (hG : R.Vouches Good) {p : PromiseRef} (h : e.Codes Good) (hf : Fate p e e') :
    e'.Codes Good :=
  h.of_callables hG hf.callables hf.grows

theorem effect (hG : R.Vouches Good) (h : e.Codes Good) (he : Effect R e e') : e'.Codes Good := by
  have hg := he.grows
  cases he with
  | aside ha => exact h.of_callables hG ha.callables hg
  | newFunction hc => exact h.newFunction hG (hG.granted hc)
  | spend hf => exact h.spend hG _
  | @decide _ p hr hR hf =>
    have hlock : (e.lock p).Codes Good := h.of_callables hG rfl (grows_lock e p)
    exact hlock.fate hG hf
  | performThen p hf hg' hc => exact h.of_callables hG (callables_performThen e p _ _ _) hg
  | _ => exact h.of_callables hG rfl hg

theorem engage (hG : R.Vouches Good) (h : e.Codes Good) {d : Duty} {c c' : Callable H}
    (hd : d.Engages c c') (q : PromiseRef) : (e.engage q c c').Codes Good := by
  have hc' := (h.newFunction hG (hG.engaged hd.fulfill)).newFunction hG (hG.engaged hd.reject)
  exact hc'.of_callables hG (callables_performThen _ q _ _ _) (grows_performThen _ q _ _ _)

end Codes

theorem engages_adopt (p : PromiseRef) :
    (Duty.adopt p).Engages (H := H) ⟨"resolve", .once, .adopt p .fulfill⟩
      ⟨"reject", .once, .adopt p .reject⟩ :=
  ⟨rfl, rfl, rfl, rfl, nofun⟩

end Engine

/-- **What holds of all code that is made** holds of all functions for good. -/
theorem Act.codes {R : Rights} {Good : Engine H → FunctionRef → Code H → Prop}
    (hG : R.Vouches Good) {l l' : Ledger H} (h : Act R l l') (hl : l.engine.Codes Good) :
    l'.engine.Codes Good := by
  have hg := h.grows
  cases h with
  | effect h => exact hl.effect hG h
  | @attach id p q jobs h =>
    have hj : Engine.Codes { l.engine with jobs } Good :=
      hl.of_callables hG rfl (.of_eq rfl rfl rfl)
    exact hj.engage hG (Engine.engages_adopt p) q
  | @adopt f p kind e e' hf hc hu ha h =>
    exact ((hl.used hG f).of_callables hG ha.callables ha.grows).fate hG h
  | wake hf he hd hu => exact hl.used hG _
  | engage hs he => exact hl.engage hG he _
  | @answer a r rest s kind v hs ha hb hv =>
    cases hres : ((l.engine.setAsyncState a s).promise r.capability).resolved with
    | true =>
      rw [Engine.settle_of_resolved hres]
      exact hl.of_callables hG rfl (.of_eq rfl rfl rfl)
    | false =>
      refine hl.of_callables hG ?_ hg
      rw [Engine.settle_of_unresolved hres hv]
      exact Engine.callables_settleNow _ _ _ _
  | _ => exact hl.of_callables hG rfl hg

/-! ## What functions refer to -/

/-- What the code refers to is there: reports go to tallies that exist, and callbacks of `finally`
call functions without a duty. -/
def Code.Backed (e : Engine H) : Code H → Prop
  | .report t _ _ => t.index < e.tallies.size
  | .afterwards callback _ => e.Plain callback
  | _ => True

theorem Rights.vouches_backed (R : Rights) : R.Vouches (H := H) fun e _ => Code.Backed e where
  grows {e e' f c} hg h := by
    cases c with
    | report => exact Nat.lt_of_lt_of_le h hg.tallies
    | afterwards => exact hg.plain h
    | _ => trivial
  granted {e f c} h := by
    cases c with
    | report | afterwards => exact h.1
    | _ => trivial
  engaged {e f c x} h := by
    cases c with
    | report | afterwards => cases h
    | _ => trivial

namespace Engine

/-- What the functions refer to is there. -/
def Backed (e : Engine H) : Prop := e.Codes fun e _ => Code.Backed e

variable {e : Engine H} {f : FunctionRef}

theorem Backed.plain (h : e.Backed) {callback : FunctionRef} {kind : Settling}
    (hcode : (e.callable f).code = .afterwards callback kind) : e.Plain callback := by
  have hf := h f
  rwa [hcode] at hf

theorem Backed.allocated (h : e.Backed) {t : TallyRef} {i : Nat} {kind : Settling}
    (hcode : (e.callable f).code = .report t i kind) : t.index < e.tallies.size := by
  have hf := h f
  rwa [hcode] at hf

end Engine

end Microtask
