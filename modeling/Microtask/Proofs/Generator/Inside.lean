import Microtask.Proofs.Generator.Kept

/-!
# The generator inside

An async generator has the same generator inside for good (`Act.retains`), and it changes
only with requests and with the duty to serve one (`Act.asyncGenerator_eq`). A generator that
is in no async generator that has something to do stays apart (`Step.stays_apart`). A step that
is under way for a request is a step of the generator inside (`World.Inside`).

Main statement: `Step.inside`.
-/

namespace Microtask

variable {H : Type}

/-! ## Records of async generators -/

namespace Engine

/-- No async generator is lost, and none gets another generator. -/
structure Retains (e e' : Engine H) : Prop where
  size : e.asyncGenerators.size ≤ e'.asyncGenerators.size
  inner : ∀ a : AsyncGeneratorRef, a.index < e.asyncGenerators.size →
    (e'.asyncGenerator a).inner = (e.asyncGenerator a).inner

variable {e e' e'' : Engine H} {a : AsyncGeneratorRef}

namespace Retains

theorem of_eq (h : e'.asyncGenerators = e.asyncGenerators) : e.Retains e' :=
  ⟨h ▸ Nat.le_refl _, fun a _ => by rw [asyncGenerator, asyncGenerator, h]⟩

theorem refl (e : Engine H) : e.Retains e := .of_eq rfl

theorem trans (h : e.Retains e') (h' : e'.Retains e'') : e.Retains e'' :=
  ⟨h.size.trans h'.size, fun a ha => (h'.inner a (ha.trans_le h.size)).trans (h.inner a ha)⟩

theorem modify (e : Engine H) (b : AsyncGeneratorRef) (change : AsyncGenerator → AsyncGenerator)
    (h : ∀ r, (change r).inner = r.inner) : e.Retains (e.modifyAsyncGenerator b change) := by
  refine ⟨?_, fun a ha => ?_⟩
  · rw [modifyAsyncGenerator, Store.modify, Store.size_set]
    exact Nat.le_max_left _ _
  · rw [asyncGenerator_modify]
    split
    · next hab => rw [h, hab]
    · rfl

end Retains

theorem newAsyncGenerator_retains (e : Engine H) (f : Frame H) :
    e.Retains (e.newAsyncGenerator f).2 := by
  refine ⟨?_, fun a ha => ?_⟩
  · show e.asyncGenerators.size ≤ (e.asyncGenerators.push _).size
    rw [Store.size_push]
    exact Nat.le_succ _
  · show ((e.asyncGenerators.push _).get a.index).inner = _
    rw [Store.get_push, if_neg ha.ne]
    rfl

theorem Effect.retains {R : Rights} (h : Effect R e e') : e.Retains e' := by
  cases h with
  | aside ha =>
    cases ha with
    | newAsyncGenerator f => exact newAsyncGenerator_retains e f
    | _ => exact .of_eq rfl
  | decide hq hR hfate => exact .of_eq hfate.asyncGenerators
  | performThen q hf hg hc => exact .of_eq (asyncGenerators_performThen e q _ _ _)
  | _ => exact .of_eq rfl

/-- An async generator that has something to do exists. -/
theorem allocated_of_occupied
    (h : (e.asyncGenerator a).state.isBusy = true ∨ (e.asyncGenerator a).queue ≠ []) :
    a.index < e.asyncGenerators.size := by
  refine Nat.lt_of_not_le fun hle => ?_
  rw [asyncGenerator, Store.get_of_size_le hle] at h
  rcases h with h | h
  · cases h
  · exact h rfl

end Engine

/-- An effect leaves async generators alone, or makes one that has nothing to do. -/
theorem Engine.Effect.asyncGenerator_eq {R : Rights} {e e' : Engine H} (h : e.Effect R e')
    (a : AsyncGeneratorRef) :
    e'.asyncGenerator a = e.asyncGenerator a ∨
      e.asyncGenerators.size ≤ a.index ∧
        (e'.asyncGenerator a).state.isBusy = false ∧ (e'.asyncGenerator a).queue = [] := by
  have hsame : e'.asyncGenerators = e.asyncGenerators →
      e'.asyncGenerator a = e.asyncGenerator a := by
    intro heq
    rw [Engine.asyncGenerator, Engine.asyncGenerator, heq]
  cases h with
  | aside ha =>
    cases ha with
    | newAsyncGenerator f =>
      have hget : (e.newAsyncGenerator f).2.asyncGenerator a =
          if a.index = e.asyncGenerators.size then
            { id := e.nextId, inner := ⟨e.generators.size⟩, state := .suspendedStart }
          else e.asyncGenerator a :=
        Store.get_push e.asyncGenerators _ a.index
      rw [hget]
      split
      · next ha => exact .inr ⟨ha.ge, rfl, rfl⟩
      · exact .inl rfl
    | _ => exact .inl (hsame rfl)
  | decide hq hR hfate => exact .inl (hsame hfate.asyncGenerators)
  | performThen q hf hg hc => exact .inl (hsame (asyncGenerators_performThen e q _ _ _))
  | _ => exact .inl (hsame rfl)

section Acts

variable {R : Rights} {l l' : Ledger H} {a : AsyncGeneratorRef}

/-- **No act takes the generator inside away.** -/
theorem Act.retains (h : Act R l l') : l.engine.Retains l'.engine := by
  cases h with
  | effect he => exact he.retains
  | @attach id p q jobs hpop => exact .of_eq (Engine.asyncGenerators_engage _ q _ _)
  | @adopt f p kind e e' hf hcode hu ha hfate =>
    have hused : l.engine.Retains (l.engine.used f) :=
      .of_eq (Engine.asyncGenerators_used l.engine f)
    exact (hused.trans (Engine.Effect.aside ha).retains).trans (.of_eq hfate.asyncGenerators)
  | wake hf hen hd hu => exact .of_eq (Engine.asyncGenerators_used _ _)
  | engage hs hd => exact .of_eq (Engine.asyncGenerators_engage _ _ _ _)
  | request b c hr hs =>
    have hnew : l.engine.Retains l.engine.newPromise.2 := .of_eq rfl
    refine hnew.trans (.modify l.engine.newPromise.2 b _ fun _ => rfl)
  | take hs hb hq ht => exact .modify l.engine _ _ fun _ => rfl
  | hold hs => exact .modify l.engine _ _ fun _ => rfl
  | @answer b r rest s kind v hs hserving hb hv =>
    have hstate : l.engine.Retains (l.engine.setAsyncState b s) := .modify l.engine b _ fun _ => rfl
    exact hstate.trans (.of_eq (Engine.spares_settle _ r.capability kind v).asyncGenerators)
  | _ => exact .of_eq rfl

theorem Acts.retains (h : Acts R l l') : l.engine.Retains l'.engine := by
  induction h with
  | refl => exact .refl _
  | tail _ h ih => exact ih.trans h.retains

/-- **An async generator changes with requests only**, and with the duty to serve one. -/
theorem Act.asyncGenerator_eq (h : Act R l l') (hR : ¬ R.request)
    (hm : ∀ r, ¬ R.move (.serve a r)) :
    l'.engine.asyncGenerator a = l.engine.asyncGenerator a ∨
      l.engine.asyncGenerators.size ≤ a.index ∧
        (l'.engine.asyncGenerator a).state.isBusy = false ∧
        (l'.engine.asyncGenerator a).queue = [] := by
  have hsame : ∀ {e' : Engine H}, e'.asyncGenerators = l.engine.asyncGenerators →
      e'.asyncGenerator a = l.engine.asyncGenerator a := fun heq =>
    congrArg (Store.get · a.index) heq
  -- another one changes
  have hother : ∀ {b : AsyncGeneratorRef} {r : Request} {change : AsyncGenerator → AsyncGenerator},
      R.move (.serve b r) →
      (l.engine.modifyAsyncGenerator b change).asyncGenerator a = l.engine.asyncGenerator a := by
    intro b r change hb
    refine (Engine.asyncGenerator_modify l.engine b a change).trans (if_neg ?_)
    rintro rfl
    exact hm r hb
  cases h with
  | effect he => exact he.asyncGenerator_eq a
  | @attach id p q jobs hpop => exact .inl (hsame (Engine.asyncGenerators_engage _ q _ _))
  | @adopt f q kind e e' hf hcode hu haside hfate =>
    have hused := Engine.asyncGenerators_used l.engine f
    have hlast : e'.asyncGenerator a = e.asyncGenerator a :=
      congrArg (Store.get · a.index) hfate.asyncGenerators
    rw [show ({ l with engine := e', called := none } : Ledger H).engine = e' from rfl, hlast,
      ← hsame hused, ← hused]
    exact Engine.Effect.asyncGenerator_eq (.aside haside) a
  | wake hf hen hd hu => exact .inl (hsame (Engine.asyncGenerators_used _ _))
  | engage hs hd => exact .inl (hsame (Engine.asyncGenerators_engage _ _ _ _))
  | request b c hr => exact absurd hr hR
  | take hs hb hq ht hmove => exact .inl (hother hmove)
  | hold hs hmove => exact .inl (hother hmove)
  | @answer b r rest s kind v hs hserving hb hv hmove =>
    have hspares := Engine.spares_settle (l.engine.setAsyncState b s) r.capability kind v
    have hlast : ((l.engine.setAsyncState b s).settle r.capability kind v).asyncGenerator a =
        (l.engine.setAsyncState b s).asyncGenerator a :=
      congrArg (Store.get · a.index) hspares.asyncGenerators
    exact .inl (hlast.trans (hother hmove))
  | _ => exact .inl rfl

theorem Acts.asyncGenerator_eq (h : Acts R l l') (hR : ¬ R.request)
    (hm : ∀ r, ¬ R.move (.serve a r)) :
    l'.engine.asyncGenerator a = l.engine.asyncGenerator a ∨
      l.engine.asyncGenerators.size ≤ a.index ∧
        (l'.engine.asyncGenerator a).state.isBusy = false ∧
        (l'.engine.asyncGenerator a).queue = [] := by
  induction h with
  | refl => exact .inl rfl
  | tail h₀ h ih =>
    rcases h.asyncGenerator_eq hR hm with heq | ⟨hle, hidle⟩
    · rw [heq]
      exact ih
    · exact .inr ⟨(Acts.retains h₀).size.trans hle, hidle⟩

end Acts

/-! ## Steps for requests -/

/-- The steps that are under way for requests are steps of the generators inside. -/
def World.Inside (w : World H) : Prop :=
  ∀ x ∈ w.config.control.steps, ∀ a r, x.2 = some (.serve a r) →
    a.index < w.config.engine.asyncGenerators.size ∧
      x.1 = (w.config.engine.asyncGenerator a).inner

namespace World

variable {w : World H} {m : Move H} {g : GeneratorRef} {a : AsyncGeneratorRef} {r : Request}
  {issued : List (AsyncGeneratorRef × Request)}

/-- A move that drives a generator for a request drives the one inside. -/
theorem inside_of_drives (hl : (w.ledger issued).Exclusive) (hw : w.Inside)
    (h : w.Drives m g (some (.serve a r))) :
    a.index < w.config.engine.asyncGenerators.size ∧
      g = (w.config.engine.asyncGenerator a).inner := by
  refine ⟨Engine.allocated_of_occupied (occupied_of_drives hl h), ?_⟩
  generalize hd : some (Duty.serve a r) = d at h
  cases h with
  | @wake e f args k held waiter kind _ d hcode hmem =>
    obtain rfl := Option.some.inj hd
    cases waiter with
    | yielding a' r' | awaiting a' r' | returning a' r' =>
      obtain ⟨hg, heq⟩ := Prod.mk.inj (List.mem_singleton.1 hmem)
      cases heq
      exact hg
    | body g' q => cases (Prod.mk.inj (List.mem_singleton.1 hmem)).2
    | host onFulfilled onRejected => cases hmem
  | resume => exact (hw _ List.mem_cons_self a r hd.symm).2
  | run => exact (hw _ List.mem_cons_self a r hd.symm).2
  | frame o code => exact (hw _ List.mem_cons_self a r hd.symm).2
  | serve hq =>
    cases hd
    rfl
  | start f => cases hd
  | named hmem => cases hd

end World

section Steps

variable {w w' : World H} {m : Move H} {a : AsyncGeneratorRef}
  {issued : List (AsyncGeneratorRef × Request)}

theorem Step.retains (h : Step w m w') (hbacked : w.config.engine.Backed) :
    w.config.engine.Retains w'.config.engine := by
  cases hm : m.clears with
  | true =>
    obtain ⟨e, hl, -, hasync, -⟩ := h.clears hm []
    have hengine : w'.config.engine = e := congrArg Ledger.engine hl
    exact .of_eq (hengine ▸ hasync)
  | false => exact (h.acts hm (Rights.all_covers w m) hbacked []).retains

/-- An async generator that a step is not about stays as it is, if no request is made, or is
made by it. -/
theorem Step.asyncGenerator_eq (h : Step w m w') (hbacked : w.config.engine.Backed)
    (hreq : m.request? = none) (hnot : ∀ x ∈ w.drives m, ∀ r, x.2 ≠ some (.serve a r)) :
    w'.config.engine.asyncGenerator a = w.config.engine.asyncGenerator a ∨
      w.config.engine.asyncGenerators.size ≤ a.index ∧
        (w'.config.engine.asyncGenerator a).state.isBusy = false ∧
        (w'.config.engine.asyncGenerator a).queue = [] := by
  cases hclears : m.clears with
  | true =>
    obtain ⟨e, hledger, -, hasync, -⟩ := h.clears hclears []
    obtain rfl : w'.config.engine = e := congrArg Ledger.engine hledger
    exact .inl (congrArg (Store.get · a.index) hasync)
  | false =>
    let R : Rights := { Rights.all with request := False, move := fun d => ∀ r, d ≠ .serve a r }
    have hcovers : R.Covers w m := by
      refine { Rights.all_covers w m with
        fresh := ⟨fun _ _ => trivial, fun _ _ => trivial, fun _ _ => trivial⟩
        request := fun hsome => ?_
        drive := fun x hx => ⟨trivial, ?_⟩ }
      · rw [hreq] at hsome
        cases hsome
      · rintro d hd r rfl
        exact hnot x hx r hd
    exact (h.acts hclears hcovers hbacked []).asyncGenerator_eq id fun r hr => hr r rfl

/-- A request is appended to the queue. -/
theorem Step.asyncGenerator_request (h : Step w m w') {b : AsyncGeneratorRef} {c : Completion}
    (hreq : m.request? = some (b, c)) (a : AsyncGeneratorRef) :
    w'.config.engine.asyncGenerator a = if a = b then
      { w.config.engine.asyncGenerator b with
        queue := (w.config.engine.asyncGenerator b).queue ++ [⟨c, w.config.engine.newPromise.1⟩] }
      else w.config.engine.asyncGenerator a := by
  obtain ⟨-, hledger⟩ := h.request hreq []
  have hengine : w'.config.engine = (w.config.engine.addRequest b c).2 :=
    congrArg Ledger.engine hledger
  rw [hengine]
  exact Engine.asyncGenerator_modify w.config.engine.newPromise.2 b a _

/-- A step that is not for a request of an async generator leaves its state alone. -/
theorem Step.state_eq (h : Step w m w') (hbacked : w.config.engine.Backed)
    (ha : a.index < w.config.engine.asyncGenerators.size)
    (hnot : ∀ x ∈ w.drives m, ∀ r, x.2 ≠ some (.serve a r)) :
    (w'.config.engine.asyncGenerator a).state = (w.config.engine.asyncGenerator a).state := by
  cases hreq : m.request? with
  | none =>
    rcases h.asyncGenerator_eq hbacked hreq hnot with heq | ⟨hle, -⟩
    · rw [heq]
    · exact absurd ha (Nat.not_lt_of_le hle)
  | some x =>
    rw [h.asyncGenerator_request (b := x.1) (c := x.2) hreq]
    split
    · next hab => rw [hab]
    · rfl

/-- A generator stays apart from an async generator that no request is made of, and that a
step is not about. -/
theorem Step.apart (h : Step w m w') (hbacked : w.config.engine.Backed) {g : GeneratorRef}
    (hg : ∀ c, m.request? = some (a, c) → (w.config.engine.asyncGenerator a).inner ≠ g)
    (hnot : ∀ x ∈ w.drives m, ∀ r, x.2 ≠ some (.serve a r))
    (ha : (w.ledger issued).Apart g a) : (w'.ledger (w.issued issued m)).Apart g a := by
  show (w'.config.engine.asyncGenerator a).inner = g → _
  cases hreq : m.request? with
  | none =>
    rcases h.asyncGenerator_eq hbacked hreq hnot with heq | ⟨-, hidle⟩
    · exact fun hinner => heq ▸ ha (heq ▸ hinner)
    · exact fun _ => hidle
  | some x =>
    have hsame := h.asyncGenerator_request (b := x.1) (c := x.2) hreq a
    split at hsame
    · next hab =>
      intro hinner
      rw [hsame] at hinner
      exact absurd (hab ▸ hinner) (hg x.2 (hab ▸ hreq))
    · exact fun hinner => hsame ▸ ha (hsame ▸ hinner)

/-- **A generator stays apart** from an async generator that no request is made of, whatever
is lost. -/
theorem Step.stays_apart (h : Step w m w') (hbacked : w.config.engine.Backed)
    {js : List (Job H)} (hl : ((w.keeping js).ledger issued).Exclusive) {g : GeneratorRef}
    (hg : ∀ c, m.request? = some (a, c) → (w.config.engine.asyncGenerator a).inner ≠ g)
    (ha : (w.ledger issued).Apart g a) : (w'.ledger (w.issued issued m)).Apart g a := by
  by_cases hdrive : ∃ x ∈ w.drives m, ∃ r, x.2 = some (.serve a r)
  · -- it has something to do, and so another generator is inside, which stays there
    obtain ⟨x, hx, r, hr⟩ := hdrive
    have hdrives := World.drives_of_mem (w := w.keeping js) hx
    have hocc := World.occupied_of_drives hl (hr ▸ hdrives)
    have hsame : (w'.config.engine.asyncGenerator a).inner = (w.config.engine.asyncGenerator a).inner :=
      (h.retains hbacked).inner a (Engine.allocated_of_occupied hocc)
    intro hinner
    obtain ⟨hidle, hnone⟩ := ha (hsame.symm.trans hinner)
    rcases hocc with hbusy | hqueue
    · cases hbusy.symm.trans hidle
    · exact absurd hnone hqueue
  · exact h.apart hbacked hg (fun x hx r hr => hdrive ⟨x, hx, r, hr⟩) ha

/-- **A step for a request is a step of the generator inside.** -/
theorem Step.inside (h : Step w m w') (hbacked : w.config.engine.Backed)
    {js : List (Job H)} (hl : ((w.keeping js).ledger issued).Exclusive) (hw : w.Inside) :
    w'.Inside := by
  have hkeep := h.retains hbacked
  have hold : ∀ {x : GeneratorRef × Option Duty} {a},
      a.index < w.config.engine.asyncGenerators.size ∧
        x.1 = (w.config.engine.asyncGenerator a).inner →
      a.index < w'.config.engine.asyncGenerators.size ∧
        x.1 = (w'.config.engine.asyncGenerator a).inner :=
    fun hx => ⟨hx.1.trans_le hkeep.size, hx.2.trans (hkeep.inner _ hx.1).symm⟩
  cases h.turn with
  | advances hadv =>
    obtain ⟨config, held⟩ := w'
    cases hadv with
    | quiet hsteps => exact fun x hx a r hd => hold (hw x (hsteps ▸ hx) a r hd)
    | begins hmay hsteps hsame ht hf =>
      intro x hx a r hd
      rcases List.mem_cons.1 hx with rfl | hx
      · have hdrives := World.drives_of_mem (w := w.keeping js) hmay
        exact hold (World.inside_of_drives (w := w.keeping js) hl hw (hd ▸ hdrives))
      · exact hold (hw x (hsteps ▸ hx) a r hd)
  | stops hstop hsteps =>
    exact fun x hx a r hd => hold (hw x (hsteps ▸ List.mem_cons_of_mem _ hx) a r hd)
  | lost _ hcontrol =>
    intro x hx
    rw [hcontrol] at hx
    cases hx

end Steps

theorem Run.inside {es : List (Event H)} {w : World H} (h : Run es w) : w.Inside := by
  induction h with
  | refl => exact fun x hx => by cases hx
  | @step es w₁ w₂ m h hs ih =>
    have hl := Run.exclusive h
    rw [← w₁.keeping_nil] at hl
    exact hs.inside (Run.backed h) hl ih

end Microtask
