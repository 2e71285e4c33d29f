import Microtask.Proofs.Calls
import Microtask.Proofs.Play
import Microtask.Proofs.Promise.Adoption
import Microtask.Proofs.Promise.Cycles

/-!
# Adoption is faithful

A promise that has been resolved with another one is tied to it (`Promise.Tied`): its fate
is decided, and nothing that anybody asks of it makes a difference any more. Only the call
of one of the two callbacks of the adoption does (`Step.tied`). Those are called by a job
with the value that the adopted promise has settled with (`Run.adoption_handed`), so that
the promise settles with exactly the same outcome, and later.

Main statement: `Run.adoption_faithful`.
-/

namespace Microtask

variable {H : Type}

/-! ## Promises that are tied -/

/-- The fate of the promise is decided by another one, which it follows. -/
structure Promise.Tied (r : Promise) (q : PromiseRef) : Prop where
  pending : r.state = .pending
  resolved : r.resolved = true
  following : r.following = some q

namespace Promise.Tied

variable {r r' : Promise} {q : PromiseRef}

theorem locked (h : r.Tied q) : r.Locked := ⟨h.pending, h.resolved⟩

theorem of_eq (h : r.Tied q) (hstate : r'.state = r.state) (hresolved : r'.resolved = r.resolved)
    (hfollowing : r'.following = r.following) : r'.Tied q :=
  ⟨hstate.trans h.pending, hresolved.trans h.resolved, hfollowing.trans h.following⟩

end Promise.Tied

namespace Engine

variable {R : Rights} {e e' : Engine H} {p q x : PromiseRef}

/-- The fate of one promise makes no difference to another one. -/
theorem Fate.promise_ne (h : e.Fate x e') (hp : p ≠ x) : e'.promise p = e.promise p := by
  cases h with
  | settled kind v =>
    by_cases hs : (e.promise x).state = .pending
    · rw [promise_settleNow hs, if_neg hp]
    · rw [settleNow_of_settled hs]
  | adopts hq => rw [promise_link, if_neg hp]

theorem tied_performThen (h : (e.promise p).Tied q) (x : PromiseRef) (f g : Option FunctionRef)
    (capability : Option PromiseRef) : ((e.performThen x f g capability).promise p).Tied q :=
  h.of_eq (read_performThen e x f g capability Promise.state (fun _ _ _ => rfl) p)
    (read_performThen e x f g capability Promise.resolved (fun _ _ _ => rfl) p)
    (read_performThen e x f g capability Promise.following (fun _ _ _ => rfl) p)

/-- A promise that is tied exists already. -/
theorem tied_newPromise (h : (e.promise p).Tied q) : (e.newPromise.2.promise p).Tied q := by
  rw [promise_newPromise, if_neg]
  · exact h
  · rintro rfl
    have hnew : e.promise ⟨e.promises.size⟩ = {} := promise_of_size_le le_rfl
    cases (congrArg Promise.resolved hnew).symm.trans h.resolved

/-- No effect unties a promise. -/
theorem Effect.tied (he : Effect R e e') (h : (e.promise p).Tied q) : (e'.promise p).Tied q := by
  cases he with
  | aside ha =>
    rw [ha.promise]
    exact h
  | newPromise => exact tied_newPromise h
  | @decide _ x hr hR hf =>
    have hne : p ≠ x := by
      rintro rfl
      rw [h.resolved] at hr
      cases hr
    rw [hf.promise_ne hne, promise_lock, if_neg hne]
    exact h
  | performThen x hf hg hc => exact tied_performThen h x _ _ _
  | _ => exact h

theorem Effects.tied (he : Effects R e e') (h : (e.promise p).Tied q) : (e'.promise p).Tied q := by
  induction he with
  | refl => exact h
  | tail _ he ih => exact he.tied ih

/-- A job that runs does not untie a promise. -/
theorem runJob_tied (h : (e.promise p).Tied q) (id : Nat) (d : Drain H) (j : Job H) :
    ((e.runJob id d j).engine.promise p).Tied q := by
  cases j with
  | reaction r v =>
    obtain ⟨kind, handler, capability⟩ := r
    cases handler with
    | some f => exact h
    | none =>
      cases capability with
      | none => exact h
      | some x =>
        have hsettle : Effects Rights.all e (e.settle x kind v) :=
          settle_effects (fun _ => trivial) kind v
        exact hsettle.tied h
  | adoption x thenable =>
    exact tied_performThen
      (e := ((e.newFunction ⟨"resolve", .once, .adopt x .fulfill⟩).2.newFunction
        ⟨"reject", .once, .adopt x .reject⟩).2) h thenable _ _ none
  | callback label code => exact h

/-- The callback of an adoption settles the promise that is tied in the way it is for, unless
the value is a promise. -/
theorem callFunction_adopt {f : FunctionRef} {kind : Settling} (h : (e.promise p).Tied q)
    (hcode : (e.callable f).code = .adopt p kind) {v : Value}
    (hv : kind = .fulfill → ∀ t, v ≠ .promise t) (k : Caller H) :
    ((e.callFunction f [v] k).engine.promise p).Tied q ∨
      ((e.callFunction f [v] k).engine.promise p).state = kind.state v := by
  have hrun : ∀ e₁ : Engine H, e₁.promise p = e.promise p →
      ((e₁.runCode [v] k (.adopt p kind)).engine.promise p).state = kind.state v := by
    intro e₁ he₁
    have hpend : (e₁.promise p).state = .pending := by rw [he₁, h.pending]
    have hengine : (e₁.runCode [v] k (.adopt p kind)).engine = e₁.settleNow p kind v := by
      cases kind with
      | reject => rfl
      | fulfill =>
        show e₁.resolveNow p v = _
        cases v with
        | promise t => exact absurd rfl (hv rfl t)
        | _ => rfl
    rw [hengine, promise_settleNow hpend, if_pos rfl]
    rfl
  cases hu : (e.callable f).usage with
  | repeatable =>
    simp only [callFunction, hu, hcode]
    exact .inr (hrun e rfl)
  | once =>
    simp only [callFunction, hu, hcode]
    exact .inr (hrun (e.spend f) rfl)
  | spent =>
    simp only [callFunction, hu]
    exact .inl h

end Engine

/-! ## Acts and steps -/

/-- Among the acts only the call of a callback of the adoption unties a promise. -/
theorem Act.tied {l l' : Ledger H} (h : Act Rights.busy l l') {p q : PromiseRef}
    (hp : (l.engine.promise p).Tied q) :
    (l'.engine.promise p).Tied q ∨
      ∃ f kind, l.called = some f ∧ (l.engine.callable f).code = .adopt p kind := by
  cases h with
  | effect he => exact .inl (he.tied hp)
  | attach hpop hm => exact hm.elim
  | @adopt f x kind e e' hf hcode hu ha hfate =>
    by_cases hx : p = x
    · subst hx
      exact .inr ⟨f, kind, hf, hcode⟩
    · refine .inl ?_
      rw [hfate.promise_ne hx, ha.promise, Engine.promise_used]
      exact hp
  | wake hf hen hd hu =>
    refine .inl ?_
    rw [Engine.promise_used]
    exact hp
  | @engage d rest x c c' hs hd =>
    exact .inl (Engine.tied_performThen
      (e := ((l.engine.newFunction c).2.newFunction c').2) hp x _ _ none)
  | request a c hr hs => exact .inl (Engine.tied_newPromise hp)
  | @answer a r rest s kind v hs ha hb hv =>
    have hsettle : Engine.Effects Rights.all (l.engine.setAsyncState a s)
        ((l.engine.setAsyncState a s).settle r.capability kind v) :=
      Engine.settle_effects (fun _ => trivial) kind v
    exact .inl (hsettle.tied hp)
  | _ => exact .inl hp

theorem Acts.tied {l l' : Ledger H} (h : Acts Rights.busy l l')
    (hcalled : ∀ f, l.called = some f → (l.engine.engagement? f).isSome = true) {p q : PromiseRef}
    (hp : (l.engine.promise p).Tied q) :
    (l'.engine.promise p).Tied q ∨
      ∃ f kind, l.called = some f ∧ (l.engine.callable f).code = .adopt p kind := by
  induction h with
  | refl => exact .inl hp
  | tail h₀ h ih =>
    rcases ih with ih | ih
    · rcases h.tied ih with htied | ⟨f, kind, hf, hcode⟩
      · exact .inl htied
      · -- the callback was being called before, and its code is the same
        have hf₀ := Acts.called_of_busy h₀ hf
        obtain ⟨x, hx⟩ := Option.isSome_iff_exists.1 (hcalled f hf₀)
        have hsame := (Acts.grows h₀).code f (Engine.exists_of_engagement hx)
        exact .inr ⟨f, kind, hf₀, hsame.symm.trans hcode⟩
    · exact .inr ih

/-- **A promise stays tied** with every step but the call of a callback of its adoption. -/
theorem Step.tied {w w' : World H} {m : Move H} (h : Step w m w')
    (hbacked : w.config.engine.Backed) {p q : PromiseRef}
    (hp : (w.config.engine.promise p).Tied q) :
    (w'.config.engine.promise p).Tied q ∨
      m = .tick ∧ ∃ f args k kind, w.config.control = .call f args k ∧
        (w.config.engine.callable f).code = .adopt p kind := by
  by_cases hm : w.chore m = .nothing
  · have hcalled : ∀ f, w.config.control.called? w.config.engine = some f →
        (w.config.engine.engagement? f).isSome = true := by
      intro f hf
      obtain ⟨-, -, x, -, hx⟩ := Control.exists_call hf
      rw [hx]
      rfl
    rcases (h.acts_of_nothing hm hbacked []).tied hcalled hp with htied | ⟨f, kind, hf, hcode⟩
    · exact .inl htied
    · obtain ⟨args, k, -, hc, -⟩ := Control.exists_call hf
      refine .inr ⟨?_, f, args, k, kind, hc, hcode⟩
      cases h with
      | tick => rfl
      | _ => cases hc
  · left
    obtain ⟨-, -, -, d, id, j, jobs, d', -, -, hj⟩ | ⟨⟨draining, he⟩, -⟩ := h.chore_cases hm
    · rw [hj]
      exact Engine.runJob_tied (e := { w.config.engine with jobs }) hp id d' j
    · rw [he, Engine.promise, Chore.promises_apply]
      exact hp

/-! ## What the callbacks are handed -/

/-- Links and the adoptions that are outstanding fit together, also when some of them have
been dropped. -/
def World.Linked (w : World H) : Prop :=
  w.config.engine.Backed ∧
    ∃ issued, (w.ledger issued).Lawful ∧ (w.ledger issued).Linked

theorem Step.linked {w w' : World H} {m : Move H} (h : Step w m w') (hw : w.Linked) :
    w'.Linked := by
  obtain ⟨hbacked, issued, hl, hk⟩ := hw
  refine ⟨h.backed hbacked, w.issued issued m, ?_⟩
  cases hm : m.clears with
  | false =>
    exact (h.acts hm (Rights.all_covers w m) hbacked issued).preserve
      (P := fun l => l.Lawful ∧ l.Linked) (fun ha hl => ⟨(ha.keeps hl.1).lawful, ha.linked hl.1 hl.2⟩)
      ⟨hl, hk⟩
  | true =>
    obtain ⟨e, hledger, he, -, hj⟩ := h.clears hm issued
    rw [hledger]
    have hp : ∀ p, e.promise p = w.config.engine.promise p := fun p => by
      rw [Engine.promise, Engine.promise, he.promises]
    refine ⟨hl.drop he hj, hk.of_promises hl.sound he.grows hp fun j hjob => ?_⟩
    rw [Ledger.jobs, hj] at hjob
    exact List.mem_append_right _ hjob

theorem Run.linked {es : List (Event H)} {w : World H} (h : Run es w) : w.Linked :=
  h.preserve Step.linked ⟨Run.backed .refl, [], Ledger.lawful_start,
    Ledger.balanced_start.linked⟩

/-- **A callback of an adoption is handed the outcome** of the promise that is adopted. -/
theorem Run.adoption_handed {es : List (Event H)} {w : World H} (h : Run es w) {f : FunctionRef}
    {args : List Value} {k : Caller H} {p : PromiseRef} {kind : Settling}
    (hc : w.config.control = .call f args k)
    (hcode : (w.config.engine.callable f).code = .adopt p kind) :
    ∃ q v, args = [v] ∧ (w.config.engine.promise p).following = some q ∧
      (w.config.engine.promise q).state = kind.state v := by
  cases h with
  | refl => cases hc
  | @step es w₁ _ m h hs =>
    obtain ⟨hbacked, issued, hl, hk⟩ := Run.linked h
    have hen := Engine.engagement?_of_adopt hcode
    have hf : w.config.control.called? w.config.engine = some f :=
      hc ▸ Control.called?_call hen args k
    obtain ⟨rfl, d, id, r, v, jobs, d', -, hpop, hr, rfl⟩ := hs.calls hbacked hf
    cases hc
    have hmem : Job.reaction r v ∈ (w₁.ledger issued).jobs := by
      rw [Ledger.jobs_pop hpop]
      exact List.mem_cons_self
    have hen₁ : w₁.config.engine.engagement? f = some (.adopt p, kind) := hen
    have hduty : w₁.config.engine.jobDuty? (.reaction r v) = some (.adopt p) := by
      simp only [Engine.jobDuty?, Engine.reactionDuty?, hr, Option.bind_some, hen₁, Option.map_some]
    obtain ⟨q, hq, hv⟩ := (hk p).jobs _ hmem hduty
    refine ⟨q, v, rfl, hq, ?_⟩
    obtain ⟨d, hb⟩ := hl.sound.jobs _ hmem
    obtain rfl : d = some (.adopt p) := hb.reactionDuty?.symm.trans hduty
    obtain ⟨f', hf', hen', -⟩ := hb
    obtain rfl : f' = f := Option.some.inj (hf'.symm.trans hr)
    obtain rfl : kind = r.kind := congrArg Prod.snd (Option.some.inj (hen₁.symm.trans hen'))
    exact hv

/-! ## Runs -/

/-- What the second promise has settled with, the first one has settled with later. -/
structure World.SettledLike (w : World H) (es : List (Event H)) (p q : PromiseRef) : Prop where
  settled : (w.config.engine.promise p).state ≠ .pending
  state : (w.config.engine.promise p).state = (w.config.engine.promise q).state
  before : ∃ ev ∈ es, (ev.before.config.engine.promise p).state = .pending ∧
    (ev.before.config.engine.promise q).state = (w.config.engine.promise q).state

/-- **A promise that is tied stays tied or settles like the other one**, as long as that is
not fulfilled with a promise. -/
theorem Steps.tied {es es' : List (Event H)} {w w' : World H} (h : Run es w)
    (h' : Steps w es' w') {p q : PromiseRef} (hp : (w.config.engine.promise p).Tied q)
    (hq : ∀ t, (w'.config.engine.promise q).state ≠ .fulfilled (.promise t)) :
    (w'.config.engine.promise p).Tied q ∨ w'.SettledLike es' p q := by
  induction h' with
  | refl => exact .inl hp
  | @step es' w₁ w' m h' hs ih =>
    have hrun : Run (es' ++ es) w₁ := h.trans h'
    have hkeep : ∀ x, (w₁.config.engine.promise x).state ≠ .pending →
        (w'.config.engine.promise x).state = (w₁.config.engine.promise x).state :=
      fun x => ((hs.lawful hrun.lawful).2 x).settled
    have hq₁ : ∀ t, (w₁.config.engine.promise q).state ≠ .fulfilled (.promise t) := by
      intro t ht
      have hne : (w₁.config.engine.promise q).state ≠ .pending := by
        rw [ht]
        nofun
      exact hq t ((hkeep q hne).trans ht)
    rcases ih hq₁ with htied | ⟨hsettled, hstate, ev, hev, hpend, hbefore⟩
    · rcases hs.tied (Run.backed hrun) htied with htied' | ⟨rfl, f, args, k, kind, hc, hcode⟩
      · exact .inl htied'
      · -- the callback of the adoption is called with what `q` has settled with
        obtain ⟨q', v, rfl, hq', hv⟩ := hrun.adoption_handed hc hcode
        obtain rfl : q' = q := Option.some.inj (hq'.symm.trans htied.following)
        have hvalue : kind = .fulfill → ∀ t, v ≠ .promise t := by
          rintro rfl t rfl
          exact hq₁ t hv
        have hsettled : (w₁.config.engine.promise q').state ≠ .pending :=
          hv ▸ kind.state_ne_pending v
        obtain ⟨⟨e, control⟩, held⟩ := w₁
        cases hc
        cases hs with
        | tick =>
          rcases Engine.callFunction_adopt htied hcode hvalue k with htied' | hstate
          · exact .inl htied'
          · refine .inr ⟨?_, hstate.trans (hv.symm.trans (hkeep q' hsettled).symm),
              _, List.mem_cons_self, htied.pending, (hkeep q' hsettled).symm⟩
            exact fun hpend => kind.state_ne_pending v (hstate.symm.trans hpend)
    · have hqs : (w₁.config.engine.promise q).state ≠ .pending := hstate ▸ hsettled
      refine .inr ⟨?_, (hkeep p hsettled).trans (hstate.trans (hkeep q hqs).symm), ev,
        List.mem_cons_of_mem _ hev, hpend, hbefore.trans (hkeep q hqs).symm⟩
      rw [hkeep p hsettled]
      exact hsettled

/-- A promise that nobody has resolved is tied to the one that it is resolved with, if that does
not follow it. -/
theorem Engine.tied_resolve {e : Engine H} {p q : PromiseRef} (hg : e.Grounded)
    (hsane : (e.promise p).Sane) (hr : (e.promise p).resolved = false)
    (hback : ¬ Relation.ReflTransGen e.Follows q p) :
    ((e.resolve p (.promise q)).promise p).Tied q := by
  have hcycle : e.closesCycle p q = false := by
    rw [← hg.closesCycle_iff] at hback
    exact Bool.not_eq_true _ ▸ hback
  have hadopts := Engine.resolve_adopts hr hsane hg hcycle
  refine ⟨hadopts.pending, ?_, hadopts.link⟩
  rw [Engine.resolve_promise_eq hr hg, hcycle, if_neg Bool.false_ne_true, Engine.promise_link,
    if_pos rfl, Engine.promise_lock, if_pos rfl]

/-- **Adoption is faithful and exclusive.** A promise that nobody has resolved, when it is
resolved with a promise whose links do not lead to it, is tied to that promise. From then on,
whatever is asked of it and however long the links of the other promise are, it either is
still pending and follows that promise, or it has settled with exactly the same outcome,
which the other promise had before; unless the outcome is a fulfillment with a promise. If no
jobs have been dropped and none is left, and no callback with a duty is just being called,
both have settled or none has. -/
theorem Run.adoption_faithful {es : List (Event H)} {w : World H} (h : Run es w)
    (p q : PromiseRef) :
    (∀ e : Engine H, e.promises = w.config.engine.promises → (e.promise p).resolved = false →
      ¬ Relation.ReflTransGen e.Follows q p → ((e.resolve p (.promise q)).promise p).Tied q) ∧
    ((w.config.engine.promise p).Tied q → ∀ es' w', Steps w es' w' →
      (∀ t, (w'.config.engine.promise q).state ≠ .fulfilled (.promise t)) →
      ((w'.config.engine.promise p).Tied q ∨ w'.SettledLike es' p q) ∧
      ((∀ ev ∈ es' ++ es, ev.move.clears = false) →
        w'.config.control.called? w'.config.engine = none → w'.jobs = [] →
        ((w'.config.engine.promise p).state ≠ .pending ↔
          (w'.config.engine.promise q).state ≠ .pending))) := by
  refine ⟨fun e he hr hback => ?_, fun hp es' w' h' hq => ?_⟩
  · refine Engine.tied_resolve (h.grounded.same he) ?_ hr hback
    rw [Engine.promise, he]
    exact h.sane p
  · have hcases := Steps.tied h h' hp hq
    refine ⟨hcases, fun hes hc hj => ?_⟩
    rcases hcases with htied | ⟨hsettled, hstate, -⟩
    · have hb := Run.balanced (h.trans h') hes
      have hpend := hb.following_pending hc hj htied.locked htied.following
      exact ⟨fun hp => absurd htied.pending hp, fun hq => absurd hpend hq⟩
    · exact ⟨fun hp => hstate ▸ hp, fun hq => hstate ▸ hq⟩

/-- Moves with which a promise adopts another one, is rejected by hand in vain, and gets the
outcome of the other one after that has been fulfilled. -/
def World.adopting : List (Move Unit) :=
  [.perform .newPromise, .perform .newPromise, .perform (.resolve ⟨0⟩ (.promise ⟨1⟩))]

def World.outcomes : List (Move Unit) :=
  [.perform (.reject ⟨0⟩ .undefined), .perform (.fulfill ⟨1⟩ .null), .perform .runJobs, .tick,
    .tick, .tick, .tick, .tick]

theorem Run.adoption_faithful_fulfilled :
    let w := ({} : World Unit).after World.adopting
    let w' := w.after World.outcomes
    (w.config.engine.promise ⟨0⟩).Tied ⟨1⟩ ∧ (w'.config.engine.promise ⟨0⟩).state = .fulfilled .null ∧
      w'.SettledLike (w.events World.outcomes) ⟨0⟩ ⟨1⟩ := by
  intro w w'
  have h : Run (({} : World Unit).events World.adopting) w :=
    World.steps_after (by decide +kernel)
  have h' : Steps w (w.events World.outcomes) w' := World.steps_after (by decide +kernel)
  have htied : (w.config.engine.promise ⟨0⟩).Tied ⟨1⟩ := ⟨rfl, rfl, rfl⟩
  have hstate : (w'.config.engine.promise ⟨0⟩).state = .fulfilled .null := by decide +kernel
  have hq : (w'.config.engine.promise ⟨1⟩).state = .fulfilled .null := by decide +kernel
  have hcases := ((Run.adoption_faithful h ⟨0⟩ ⟨1⟩).2 htied _ _ h' (by rw [hq]; nofun)).1
  refine ⟨htied, hstate, hcases.resolve_left fun hpend => ?_⟩
  cases hstate.symm.trans hpend.pending

end Microtask
