import Microtask.Proofs.Promise.Chain
import Microtask.Proofs.Promise.Lifecycle

/-!
# Cycles of adoptions

A promise follows the one that it adopts. No promise ever follows itself, however
far (`Run.acyclic`). So the search along a chain of links ends, and it finds its
target exactly if the chain leads there. Resolving a promise with one whose chain
leads back to it is a rejection; with any other one it is an adoption.
-/

namespace Microtask

variable {H : Type}

namespace Engine

/-- The first promise adopts the second one. -/
def Follows (e : Engine H) (p q : PromiseRef) : Prop := (e.promise p).following = some q

/-- The search for a target that goes on from a promise along the links, without
a bound, and its result. -/
inductive Search (e : Engine H) (target : PromiseRef) : PromiseRef → Bool → Prop where
  | found : Search e target target true
  | ended {p : PromiseRef} :
      p ≠ target → (e.promise p).following = none → Search e target p false
  | next {p q : PromiseRef} {found : Bool} :
      p ≠ target → e.Follows p q → Search e target q found → Search e target p found

variable {e : Engine H} {p q : PromiseRef} {ps : List PromiseRef}

/-! ## Links and chains -/

/-- A chain consists of the promises that the links lead to. -/
theorem Ends.mem_iff (h : e.Ends p ps) {x : PromiseRef} :
    x ∈ ps ↔ Relation.ReflTransGen e.Follows p x := by
  induction h with
  | @stop p hp =>
    rw [List.mem_singleton]
    constructor
    · rintro rfl
      exact .refl
    · intro hx
      rcases hx.cases_head with rfl | ⟨y, hy, -⟩
      · rfl
      · rw [Follows, hp] at hy
        cases hy
  | @link p q ps hp _ ih =>
    rw [List.mem_cons, ih]
    constructor
    · rintro (rfl | hx)
      · exact .refl
      · exact .head hp hx
    · intro hx
      rcases hx.cases_head with rfl | ⟨y, hy, hx⟩
      · exact .inl rfl
      · obtain rfl : q = y := Option.some.inj (hp.symm.trans hy)
        exact .inr hx

/-- A promise whose chain ends does not follow itself. -/
theorem Grounded.not_follows_self (h : e.Grounded) (p : PromiseRef) :
    ¬ Relation.TransGen e.Follows p p := by
  intro hp
  obtain ⟨q, hq, hback⟩ := Relation.TransGen.head'_iff.1 hp
  obtain ⟨ps, hps⟩ := h q
  have hchain : e.Ends p (p :: ps) := .link hq hps
  exact (List.nodup_cons.1 hchain.nodup).1 (hps.mem_iff.2 hback)

theorem Grounded.closesCycle_iff (h : e.Grounded) {target candidate : PromiseRef} :
    e.closesCycle target candidate = true ↔
      Relation.ReflTransGen e.Follows candidate target := by
  obtain ⟨ps, hps⟩ := h candidate
  rw [closesCycle, hps.chain_eq, decide_eq_true_iff]
  exact hps.mem_iff

/-! ## Searches -/

theorem Search.unique {target : PromiseRef} {b b' : Bool} (h : e.Search target p b)
    (h' : e.Search target p b') : b = b' := by
  induction h with
  | found =>
    cases h' with
    | found => rfl
    | ended hne | next hne => exact absurd rfl hne
  | ended hne hnone =>
    cases h' with
    | found => exact absurd rfl hne
    | ended => rfl
    | next _ hq =>
      rw [Follows, hnone] at hq
      cases hq
  | next hne hq _ ih =>
    cases h' with
    | found => exact absurd rfl hne
    | ended _ hnone =>
      rw [Follows, hnone] at hq
      cases hq
    | next _ hq' h' =>
      rw [Follows, hq, Option.some.injEq] at hq'
      exact ih (hq' ▸ h')

/-- Along a chain that ends, every search ends, at the target if it is there. -/
theorem Ends.search (h : e.Ends p ps) (target : PromiseRef) :
    e.Search target p (decide (target ∈ ps)) := by
  induction h with
  | @stop p hp =>
    by_cases heq : p = target
    · subst heq
      simpa using Search.found
    · simpa [Ne.symm heq] using Search.ended heq hp
  | @link p q ps hp _ ih =>
    by_cases heq : p = target
    · subst heq
      simpa using Search.found
    · simpa [Ne.symm heq] using Search.next heq hp ih

/-- The bounded walk is the search. -/
theorem Grounded.search_iff (h : e.Grounded) {target candidate : PromiseRef} {b : Bool} :
    e.Search target candidate b ↔ b = e.closesCycle target candidate := by
  obtain ⟨ps, hps⟩ := h candidate
  have hsearch : e.Search target candidate (e.closesCycle target candidate) := by
    rw [closesCycle, hps.chain_eq]
    exact hps.search target
  constructor
  · exact fun hb => hb.unique hsearch
  · rintro rfl
    exact hsearch

/-! ## Resolving with a promise -/

/-- A promise is rejected because it would follow itself. -/
structure Refuses (e : Engine H) (p : PromiseRef) (e' : Engine H) : Prop where
  rejected : (e'.promise p).state = .rejected (.object ⟨e.objects.size⟩)
  error : e'.object ⟨e.objects.size⟩ =
    .error "TypeError" "Chaining cycle detected for promise"
  jobs : e'.waitingJobs = e.waitingJobs ++
    (e.promise p).onRejected.map (.reaction · (.object ⟨e.objects.size⟩))
  links : ∀ x, (e'.promise x).following = (e.promise x).following
  others : ∀ x, x ≠ p → e'.promise x = e.promise x

/-- A promise adopts another one. -/
structure Adopts (e : Engine H) (p q : PromiseRef) (e' : Engine H) : Prop where
  pending : (e'.promise p).state = .pending
  link : e'.Follows p q
  jobs : e'.waitingJobs = e.waitingJobs ++ [.adoption p q]
  others : ∀ x, x ≠ p → e'.promise x = e.promise x

/-- Locking a promise changes no link. -/
theorem follows_lock (e : Engine H) (p : PromiseRef) : (e.lock p).Follows = e.Follows := by
  funext x y
  exact congrArg (· = some y) (read_lock Promise.following (fun _ => rfl) e p x)

theorem Grounded.closesCycle_lock (h : e.Grounded) (p target candidate : PromiseRef) :
    (e.lock p).closesCycle target candidate = e.closesCycle target candidate := by
  rw [Bool.eq_iff_iff, (h.lock p).closesCycle_iff, h.closesCycle_iff, follows_lock]

theorem objects_settleNow (e : Engine H) (p : PromiseRef) (kind : Settling) (v : Value) :
    (e.settleNow p kind v).objects = e.objects :=
  frame_settleNow Engine.objects (fun _ _ _ _ => rfl) e p kind v

section Resolving

variable (hr : (e.promise p).resolved = false)
include hr

theorem resolve_promise_eq (h : e.Grounded) :
    e.resolve p (.promise q) =
      if e.closesCycle p q then
        ((e.lock p).newError "TypeError" "Chaining cycle detected for promise").2.settleNow p .reject
          (.object ⟨e.objects.size⟩)
      else (e.lock p).link p q := by
  have hlock := h.closesCycle_lock p p q
  rw [resolve, decideFate, hr]
  show (e.lock p).resolveNow p (.promise q) = _
  rw [resolveNow, hlock]
  rfl

variable (hs : (e.promise p).Sane)
include hs

/-- Resolving a promise with one that follows it. -/
theorem resolve_refuses (h : e.Grounded) (hc : e.closesCycle p q = true) :
    e.Refuses p (e.resolve p (.promise q)) := by
  rw [resolve_promise_eq hr h, if_pos hc]
  let e₁ := ((e.lock p).newError "TypeError" "Chaining cycle detected for promise").2
  let reason : Value := .object ⟨e.objects.size⟩
  have hp : e₁.promise p = { e.promise p with resolved := true } := by
    show (e.lock p).promise p = _
    rw [promise_lock, if_pos rfl]
  have hother : ∀ x, x ≠ p → e₁.promise x = e.promise x := by
    intro x hx
    show (e.lock p).promise x = _
    rw [promise_lock, if_neg hx]
  have hpend : (e₁.promise p).state = .pending := by
    rw [hp]
    exact hs.pending hr
  have hprom := promise_settleNow hpend .reject reason
  refine ⟨?_, ?_, ?_, fun x => ?_, fun x hx => ?_⟩
  · rw [hprom, if_pos rfl]
    rfl
  · show ((e₁.settleNow p .reject reason).objects).get _ = _
    rw [objects_settleNow]
    show (e.objects.push _).get e.objects.size = _
    rw [Store.get_push, if_pos rfl]
  · rw [waitingJobs_settleNow hpend, hp]
    rfl
  · rw [hprom]
    split
    · next hx => rw [hx, hs.undecided (hs.pending hr) hr]; rfl
    · next hx => rw [hother x hx]
  · rw [hprom, if_neg hx, hother x hx]

/-- Resolving a promise with one that does not follow it. -/
theorem resolve_adopts (h : e.Grounded) (hc : e.closesCycle p q = false) :
    e.Adopts p q (e.resolve p (.promise q)) := by
  rw [resolve_promise_eq hr h, hc, if_neg Bool.false_ne_true]
  have hprom := promise_link (e.lock p) p q
  refine ⟨?_, ?_, ?_, fun x hx => ?_⟩
  · rw [hprom, if_pos rfl, promise_lock, if_pos rfl]
    exact hs.pending hr
  · rw [Follows, hprom, if_pos rfl]
  · rw [waitingJobs_link]
    rfl
  · rw [hprom, if_neg hx, promise_lock, if_neg hx]

end Resolving

end Engine

/-! ## Runs -/

theorem Run.sane {es : List (Event H)} {w : World H} (h : Run es w) (p : PromiseRef) :
    (w.config.engine.promise p).Sane := by
  obtain ⟨-, issued, hl⟩ := h.lawful
  exact hl.sane p

/-- **No promise follows itself** at any point of any run. So a search along the links
always ends, with the result of the bounded walk, and finds its target if and only
if the links lead there. A promise that is still unresolved, when it is resolved with
a promise whose links lead to it, is rejected at once with a type error, and no
adoption begins; with any other promise it stays pending, and a job is queued
that attaches it. -/
theorem Run.acyclic {es : List (Event H)} {w : World H} (h : Run es w) :
    (∀ p, ¬ Relation.TransGen w.config.engine.Follows p p) ∧
      (∀ target candidate b, w.config.engine.Search target candidate b ↔
        b = w.config.engine.closesCycle target candidate) ∧
      (∀ target candidate, w.config.engine.closesCycle target candidate = true ↔
        Relation.ReflTransGen w.config.engine.Follows candidate target) ∧
      ∀ p q, (w.config.engine.promise p).resolved = false →
        (Relation.ReflTransGen w.config.engine.Follows q p →
          w.config.engine.Refuses p (w.config.engine.resolve p (.promise q))) ∧
        (¬ Relation.ReflTransGen w.config.engine.Follows q p →
          w.config.engine.Adopts p q (w.config.engine.resolve p (.promise q))) := by
  have hg := h.grounded
  refine ⟨hg.not_follows_self, fun _ _ _ => hg.search_iff, fun _ _ => hg.closesCycle_iff,
    fun p q hr => ⟨fun hback => ?_, fun hback => ?_⟩⟩
  · exact Engine.resolve_refuses hr (h.sane p) hg (hg.closesCycle_iff.2 hback)
  · refine Engine.resolve_adopts hr (h.sane p) hg ?_
    rw [← hg.closesCycle_iff] at hback
    exact Bool.not_eq_true _ ▸ hback

/-- A promise that two others follow is resolved with the farther one. -/
theorem Run.acyclic_refuses :
    let e : Engine Unit := ((({} : Engine Unit).newPromise.2.newPromise.2.newPromise.2).resolve ⟨0⟩
      (.promise ⟨1⟩)).resolve ⟨1⟩ (.promise ⟨2⟩)
    (e.promise ⟨2⟩).resolved = false ∧ Relation.ReflTransGen e.Follows ⟨0⟩ ⟨2⟩ ∧
      e.Refuses ⟨2⟩ (e.resolve ⟨2⟩ (.promise ⟨0⟩)) := by
  intro e
  have h₁ : Step ({} : World Unit) (.perform .newPromise) _ := .perform_free _ rfl rfl
  have h₂ := Steps.step (.step .refl h₁) (.perform_free .newPromise rfl rfl)
  have h₃ := h₂.step (.perform_free .newPromise rfl rfl)
  have h₄ := h₃.step (.perform_free (.resolve ⟨0⟩ (.promise ⟨1⟩)) rfl rfl)
  have h₅ := h₄.step (.perform_free (.resolve ⟨1⟩ (.promise ⟨2⟩)) rfl rfl)
  have hunresolved : (e.promise ⟨2⟩).resolved = false := rfl
  have h₀₁ : e.Follows ⟨0⟩ ⟨1⟩ := rfl
  have h₁₂ : e.Follows ⟨1⟩ ⟨2⟩ := rfl
  have hback : Relation.ReflTransGen e.Follows ⟨0⟩ ⟨2⟩ := .head h₀₁ (.single h₁₂)
  exact ⟨hunresolved, hback, ((Run.acyclic h₅).2.2.2 ⟨2⟩ ⟨0⟩ hunresolved).1 hback⟩

end Microtask
