import Microtask.Proofs.Generator.Inside

/-!
# Bodies of async functions

The generator of an async function is driven by nobody but the function itself, as long
as the host does not reach it. So its frame is away on the control stack once, or it is
put back and one wait is outstanding, or it is done and nothing is owed (`World.Body`).

A step either passes the body by, or it begins the body (`World.Unborn.start`), goes on
after a wait (`World.Bound.wake`), or ends a step of the frame (`World.Bound.stop`).

Main statement: `Run.bodies`.
-/

namespace Microtask

variable {H : Type}

/-! ## Steps of a body on the stack -/

/-- A predicate that holds as often as a stronger one holds of the same elements. -/
theorem forall_of_countP_le {α : Type} {P Q : α → Bool} :
    ∀ {xs : List α}, (∀ x ∈ xs, P x = true → Q x = true) → xs.countP Q ≤ xs.countP P →
      ∀ x ∈ xs, Q x = true → P x = true
  | [], _, _ => by simp
  | y :: ys, himp, hle => by
    have himp' : ∀ x ∈ ys, P x = true → Q x = true := fun x hx => himp x (List.mem_cons_of_mem y hx)
    have hmono := List.countP_mono_left himp'
    have hy := himp y List.mem_cons_self
    rw [List.countP_cons, List.countP_cons] at hle
    intro x hx hQ
    rcases List.mem_cons.1 hx with rfl | hx
    · by_contra hP
      rw [if_pos hQ, if_neg hP] at hle
      omega
    · refine forall_of_countP_le himp' ?_ x hx hQ
      by_cases hP : P y = true
      · rw [if_pos hP, if_pos (hy hP)] at hle
        omega
      · rw [if_neg hP] at hle
        omega

namespace Tallies

variable {steps : List (GeneratorRef × Option Duty)} {running : List GeneratorRef}
  {duties : List Duty} {g : GeneratorRef} {p : PromiseRef}

theorem count_body (h : Tallies steps running duties) (g : GeneratorRef) (p : PromiseRef) :
    duties.count (.body g p) = steps.countP (·.2 = some (.body g p)) :=
  h.duties (.body g p) trivial

theorem generator_of_body (h : Tallies steps running duties) (g : GeneratorRef) (p : PromiseRef) :
    ∀ x ∈ steps, decide (x.2 = some (.body g p)) = true → decide (x.1 = g) = true :=
  fun x hx hd => decide_eq_true (h.body x hx g p (of_decide_eq_true hd))

/-- Every duty of a body on the stack belongs to a step of its generator. -/
theorem count_body_le (h : Tallies steps running duties) (g : GeneratorRef) (p : PromiseRef) :
    duties.count (.body g p) ≤ running.count g := by
  rw [h.count_body, h.count_running]
  exact List.countP_mono_left (h.generator_of_body g p)

/-- If there are no more steps of the generator than duties of the body, then all are for
the body. -/
theorem duty_of_le (h : Tallies steps running duties)
    (hle : running.count g ≤ duties.count (.body g p)) {x : GeneratorRef × Option Duty}
    (hx : x ∈ steps) (hg : x.1 = g) : x.2 = some (.body g p) := by
  rw [h.count_body, h.count_running] at hle
  exact of_decide_eq_true
    (forall_of_countP_le (h.generator_of_body g p) hle x hx (decide_eq_true hg))

end Tallies

/-! ## The life of a body -/

/-- Where the frame of an async function is, and how often its promise is owed a result. -/
inductive World.Body (w : World H) (issued : List (AsyncGeneratorRef × Request))
    (g : GeneratorRef) (p : PromiseRef) : Prop where
  | running : (w.config.engine.generator g).state = .executing →
      w.config.control.running.count g = 1 → w.config.control.duties.count (.body g p) = 1 →
      (w.ledger issued).owed (.body g p) = 1 → Body w issued g p
  | suspended : (w.config.engine.generator g).state = .suspendedYield →
      (w.config.engine.generator g).frame.isSome = true →
      w.config.control.running.count g = 0 →
      (w.ledger issued).owed (.body g p) = 1 → Body w issued g p
  | finished : (w.config.engine.generator g).state = .completed →
      w.config.control.running.count g = 0 →
      (w.ledger issued).owed (.body g p) = 0 → Body w issued g p

/-- The generator is the body of an async function with the given promise, and nothing
else has to do with it. -/
structure World.Bound (w : World H) (issued : List (AsyncGeneratorRef × Request))
    (g : GeneratorRef) (p : PromiseRef) : Prop where
  allocated : g.index < w.config.engine.generators.size
  apart : ∀ a, (w.ledger issued).Apart g a
  unspent : (w.ledger issued).Unspent (.body g p)
  others : ∀ q, q ≠ p → (w.ledger issued).owed (.body g q) = 0
  body : w.Body issued g p

/-- The generator does not exist yet, and nothing has to do with it. -/
structure World.Unborn (w : World H) (issued : List (AsyncGeneratorRef × Request))
    (g : GeneratorRef) : Prop where
  unallocated : w.config.engine.generators.size ≤ g.index
  apart : ∀ a, (w.ledger issued).Apart g a
  running : w.config.control.running.count g = 0
  owed : ∀ p, (w.ledger issued).owed (.body g p) = 0

namespace World

variable {w w' : World H} {issued issued' : List (AsyncGeneratorRef × Request)}
  {g : GeneratorRef} {p : PromiseRef}

/-- Jobs that the host holds do not bear a generator. -/
theorem Unborn.forget {js : List (Job H)} (h : (w.keeping js).Unborn issued g) :
    w.Unborn issued g where
  unallocated := h.unallocated
  apart := h.apart
  running := h.running
  owed p := Nat.le_zero.1 (((w.forgets js issued).owed_mono _).trans_eq (h.owed p))

namespace Body

/-- Every step of the generator that is under way is for the async function. -/
theorem count_le (h : w.Body issued g p) :
    w.config.control.running.count g ≤ w.config.control.duties.count (.body g p) := by
  cases h with
  | running hs hrun hduty ho => rw [hrun, hduty]
  | suspended hs hf hrun ho => exact hrun.le.trans (Nat.zero_le _)
  | finished hs hrun ho => exact hrun.le.trans (Nat.zero_le _)

theorem owed_le (h : w.Body issued g p) : (w.ledger issued).owed (.body g p) ≤ 1 := by
  cases h with
  | running hs hrun hduty ho => exact ho.le
  | suspended hs hf hrun ho => exact ho.le
  | finished hs hrun ho => exact ho.le.trans (Nat.zero_le 1)

/-- A body that a step passes by. -/
theorem pass (h : w.Body issued g p)
    (hp : Ledger.Passes (.body g p) (w.ledger issued) (w'.ledger issued'))
    (hgen : w'.config.engine.generator g = w.config.engine.generator g)
    (hrun : w'.config.control.running.count g = w.config.control.running.count g) :
    w'.Body issued' g p := by
  cases h with
  | running hs hr hduty ho =>
    exact .running (hgen ▸ hs) (hrun.trans hr) (hp.count.trans hduty) (hp.owed.trans ho)
  | suspended hs hf hr ho =>
    exact .suspended (hgen ▸ hs) (hgen ▸ hf) (hrun.trans hr) (hp.owed.trans ho)
  | finished hs hr ho => exact .finished (hgen ▸ hs) (hrun.trans hr) (hp.owed.trans ho)

end Body

/-! ## Moves that drive a body -/

theorem body_of_drives {m : Move H} {g' : GeneratorRef}
    (h : w.Drives m g' (some (.body g p))) : g' = g := by
  have hpurpose : ∀ {purpose : Purpose H}, some (.body g p) = purpose.duty? g' → g' = g := by
    intro purpose hd
    cases purpose <;> cases hd
    rfl
  generalize hd : some (Duty.body g p) = d at h
  cases h with
  | @wake e f args k held waiter kind _ d hcode hmem =>
    obtain rfl := Option.some.inj hd
    cases waiter with
    | body g'' q =>
      obtain ⟨rfl, heq⟩ := Prod.mk.inj (List.mem_singleton.1 hmem)
      cases heq
      rfl
    | host onFulfilled onRejected => cases hmem
    | _ => cases (Prod.mk.inj (List.mem_singleton.1 hmem)).2
  | resume => exact hpurpose hd
  | run => exact hpurpose hd
  | frame o code => exact hpurpose hd
  | serve hq => cases hd
  | start f =>
    cases hd
    rfl
  | named hmem => cases hd

theorem reaches_of_drives {op : Op H} {e : Engine H} (h : (g, none) ∈ op.drives e) :
    g ∈ op.reaches e := by
  cases op with
  | stepGenerator g' c | advanceGenerator g' c | closeGenerator g' | dropFrame g' =>
    obtain ⟨rfl, -⟩ := Prod.mk.inj (List.mem_singleton.1 h)
    exact List.mem_singleton.2 rfl
  | generatorMethod receiver method args =>
    cases receiver with
    | generator g' =>
      obtain ⟨rfl, -⟩ := Prod.mk.inj (List.mem_singleton.1 h)
      exact List.mem_singleton.2 rfl
    | _ => cases h
  | startAsync f => cases (Prod.mk.inj (List.mem_singleton.1 h)).2
  | _ => cases h

/-- A move that drives a body has its duty, or it starts the async function. -/
theorem owed_of_drives {m : Move H} (h : w.Drives m g (some (.body g p))) :
    0 < (w.ledger issued).owed (.body g p) ∨
      (∃ f, m = .perform (.startAsync f)) ∧ g = ⟨w.config.engine.generators.size⟩ := by
  obtain hpos | ⟨a, r, hd, -⟩ | ⟨f, hm, hd⟩ := origin_of_drives h issued
  · exact .inl hpos
  · cases hd
  · cases hd
    exact .inr ⟨⟨f, hm⟩, rfl⟩

/-- A generator that the host does not reach, and that is apart from async generators, is
driven as the body of an async function only, or it is the one that a new async function
gets. -/
theorem duty_of_drives {m : Move H} (hl : (w.ledger issued).Exclusive)
    (ha : ∀ a, (w.ledger issued).Apart g a) (hreach : g ∉ w.reaches m)
    (hcount : w.config.control.running.count g ≤ w.config.control.duties.count (.body g p))
    (hothers : ∀ q, q ≠ p → (w.ledger issued).owed (.body g q) = 0) {d : Option Duty}
    (h : w.Drives m g d) :
    d = some (.body g p) ∨
      (∃ f, m = .perform (.startAsync f)) ∧ g = ⟨w.config.engine.generators.size⟩ := by
  have hstack : ∀ {x}, x ∈ w.config.control.steps → x.1 = g → x.2 = some (.body g p) :=
    w.config.control.tallies.duty_of_le hcount
  cases h with
  | @wake e f args k held waiter kind _ d hcode hmem =>
    have hinner : ∀ {a r}, (e.asyncGenerator a).inner = g → waiter.duty? ≠ some (.serve a r) := by
      intro a r hin hd
      have hbusy := hl.busy (owed_of_wake hcode hd)
      rw [(ha a hin).1] at hbusy
      cases hbusy
    cases waiter with
    | yielding a r | awaiting a r | returning a r =>
      obtain ⟨hg, -⟩ := Prod.mk.inj (List.mem_singleton.1 hmem)
      exact absurd rfl (hinner hg.symm)
    | body g' q =>
      obtain ⟨rfl, hd⟩ := Prod.mk.inj (List.mem_singleton.1 hmem)
      obtain rfl : q = p := by
        by_contra hq
        exact absurd (hothers q hq) (owed_of_wake hcode rfl).ne'
      exact .inl hd
    | host onFulfilled onRejected => cases hmem
  | resume => exact .inl (hstack List.mem_cons_self rfl)
  | run => exact .inl (hstack List.mem_cons_self rfl)
  | frame o code => exact .inl (hstack List.mem_cons_self rfl)
  | @serve e a reply k held r rest hq =>
    have hnone : (e.asyncGenerator a).queue = [] := (ha a rfl).2
    rw [hq] at hnone
    cases hnone
  | start f => exact .inr ⟨⟨f, rfl⟩, rfl⟩
  | named hmem => exact absurd (reaches_of_drives hmem) hreach

end World

/-! ## Waits and results -/

namespace Ledger

variable {l : Ledger H} {rest : List Duty} {d₀ d : Duty} {p : PromiseRef}

/-- A duty that has been seen to is owed once less. -/
theorem Sound.ends (hs : l.Sound) (hstack : l.stack = d₀ :: rest) (hd₀ : d₀.settles? = some p)
    {e : Engine H} (he : l.engine.Effects Rights.all e) (hd : ∀ q, d ≠ .adopt q) :
    ({ l with engine := e, stack := rest } : Ledger H).owed d + (if d₀ = d then 1 else 0) =
      l.owed d ∧
    (l.owed d ≤ 1 → l.Unspent d →
      ({ l with engine := e, stack := rest } : Ledger H).Unspent d) := by
  obtain ⟨h₁, ho₁⟩ := hs.effects he
  obtain ⟨howed, hunspent⟩ := ho₁ d hd
  have hdrop := (h₁.drop hstack).2 d
  have hdrives : Rights.all.Drives d₀ := by cases d₀ <;> trivial
  have hact : Act Rights.all ({ l with engine := e } : Ledger H)
      { l with engine := e, stack := rest } := .discharge hstack hd₀ hdrives
  exact ⟨hdrop.trans howed,
    fun hle hu => hact.unspent h₁ (howed.trans_le hle) (hunspent hle hu)⟩

/-- A duty that waits is owed as before. -/
theorem Sound.waits (hs : l.Sound) (hstack : l.stack = d₀ :: rest) {w : Waiter H}
    (hw : w.duty? = some d₀) (v : Value) (hd : ∀ q, d ≠ .adopt q) :
    ({ l with engine := l.engine.await v w, stack := rest } : Ledger H).owed d = l.owed d ∧
    (l.owed d ≤ 1 → l.Unspent d →
      ({ l with engine := l.engine.await v w, stack := rest } : Ledger H).Unspent d) := by
  have he : l.engine.Effects Rights.all (l.engine.promiseOf v).2 :=
    Engine.promiseOf_effects ⟨fun _ _ => trivial, fun _ _ => trivial, fun _ _ => trivial⟩ v
  obtain ⟨h₁, ho₁⟩ := hs.effects he
  obtain ⟨howed, hunspent⟩ := ho₁ d hd
  obtain ⟨h₂, ho₂⟩ := h₁.drop hstack
  have hengages := Engine.engages_wake hw
  have ho₃ := (h₂.engage (l.engine.promiseOf v).1 hengages).2 d
  have hdrives : Rights.all.Drives d₀ := by cases d₀ <;> trivial
  have hact : Act Rights.all ({ l with engine := (l.engine.promiseOf v).2 } : Ledger H)
      { l with engine := l.engine.await v w, stack := rest } := .engage hstack hengages hdrives
  exact ⟨(ho₃.trans (ho₂ d)).trans howed,
    fun hle hu => hact.unspent h₁ (howed.trans_le hle) (hunspent hle hu)⟩

section Absorb

variable {g : GeneratorRef} (hs : l.Sound) (hstack : l.stack = .body g p :: rest) {o : Outcome}
  (hd : ∀ q, d ≠ .adopt q)
include hs hstack hd

/-- A body that stops for good has its promise settled. -/
theorem Sound.absorb_finished (ho : o.isFinished = true) :
    ({ l with engine := l.engine.absorbBodyOutcome g p (.ok o), stack := rest } : Ledger H).owed d +
        (if Duty.body g p = d then 1 else 0) = l.owed d ∧
    (l.owed d ≤ 1 → l.Unspent d →
      ({ l with engine := l.engine.absorbBodyOutcome g p (.ok o), stack := rest } :
        Ledger H).Unspent d) := by
  cases o with
  | returned v => exact hs.ends hstack rfl (Engine.resolve_effects (fun _ => trivial) v) hd
  | threw reason =>
    exact hs.ends hstack rfl (Engine.reject_effects (fun _ => trivial) reason) hd
  | awaiting v | yielded v => cases ho

/-- A body that stops for now waits again. -/
theorem Sound.absorb_paused (ho : o.isFinished = false) :
    ({ l with engine := l.engine.absorbBodyOutcome g p (.ok o), stack := rest } : Ledger H).owed d =
        l.owed d ∧
    (l.owed d ≤ 1 → l.Unspent d →
      ({ l with engine := l.engine.absorbBodyOutcome g p (.ok o), stack := rest } :
        Ledger H).Unspent d) := by
  have hw : (Waiter.body (H := H) g p).duty? = some (.body g p) := rfl
  cases o with
  | awaiting v | yielded v => exact hs.waits hstack hw v hd
  | returned v | threw reason => cases ho

omit hd in
/-- What is owed to a body when its frame has stopped. -/
theorem Sound.stop (hu : l.Unspent (.body g p))
    (howed : ∀ q, l.owed (.body g q) = if q = p then 1 else 0) (fr : Frame H) :
    (∀ q, ({ l with
        engine := (l.engine.endStep g fr o).absorbBodyOutcome g p (.ok o)
        stack := rest } : Ledger H).owed (.body g q) =
      if o.isFinished = false ∧ q = p then 1 else 0) ∧
    ({ l with
      engine := (l.engine.endStep g fr o).absorbBodyOutcome g p (.ok o)
      stack := rest } : Ledger H).Unspent (.body g p) := by
  have hbody : ∀ q q', Duty.body g q ≠ .adopt q' := Duty.body_ne_adopt g
  have he : l.engine.Effects Rights.all (l.engine.endStep g fr o) :=
    Engine.endStep_effects trivial fr o
  obtain ⟨h₁, ho₁⟩ := hs.effects he
  have hsame := fun q => (ho₁ _ (hbody q)).1.trans (howed q)
  have hone : l.owed (.body g p) ≤ 1 := ((howed p).trans (if_pos rfl)).le
  have hone₁ := (ho₁ _ (hbody p)).1.trans_le hone
  have hu₁ := (ho₁ _ (hbody p)).2 hone hu
  cases ho : o.isFinished with
  | true =>
    refine ⟨fun q => ?_, (h₁.absorb_finished hstack (hbody p) ho).2 hone₁ hu₁⟩
    have hd := (h₁.absorb_finished hstack (hbody q) ho).1.trans (hsame q)
    simp only [Duty.body.injEq, true_and, eq_comm] at hd
    simp only [Bool.true_eq_false, false_and, if_false]
    omega
  | false =>
    refine ⟨fun q => ?_, (h₁.absorb_paused hstack (hbody p) ho).2 hone₁ hu₁⟩
    simpa using (h₁.absorb_paused hstack (hbody q) ho).1.trans (hsame q)

end Absorb

end Ledger

/-! ## Steps -/

namespace World

variable {e : Engine H} {f : FunctionRef} {args : List Value} {k : Caller H} {held : List (Job H)}
  {issued : List (AsyncGeneratorRef × Request)} {g : GeneratorRef} {p : PromiseRef}
  {kind : Settling}

/-- **When a wait is over, the frame is at hand**, and the callback has not been used up. -/
theorem Bound.at_hand (hw : (World.mk ⟨e, .call f args k⟩ held).Bound issued g p)
    (hcode : (e.callable f).code = .wake (.body g p) kind) :
    (e.callable f).usage = .once ∧ (e.generator g).state = .suspendedYield ∧
      (e.generator g).frame.isSome = true ∧ k.running.count g = 0 := by
  refine ⟨usage_of_wake hw.unspent hcode rfl, ?_⟩
  have hcalled : ((World.mk ⟨e, .call f args k⟩ held).ledger issued).called = some f :=
    called_of_wake hcode rfl
  have hlt := Ledger.count_lt_owed_of_called hcalled (Engine.engagement?_of_wake hcode rfl)
  cases hw.body with
  | running hs hrun hduty ho =>
    -- the duty would be owed twice
    have hstack : ((World.mk ⟨e, .call f args k⟩ held).ledger issued).stack.count (.body g p) = 1 :=
      hduty
    omega
  | suspended hs hf hrun ho => exact ⟨hs, hf, hrun⟩
  | finished hs hrun ho => omega

/-- A body whose frame is taken out, with its duty on top of the stack. -/
theorem Bound.of_resumed {reply : Value} {c : Completion} {fr : Frame H} {l : Ledger H}
    (hl : l = { engine := e, held, stack := .body g p :: k.duties, issued }) (hs : l.Sound)
    (hg : g.index < e.generators.size) (ha : ∀ a, l.Apart g a) (hu : l.Unspent (.body g p))
    (howed : ∀ q, l.owed (.body g q) = if q = p then 1 else 0) (hcount : k.running.count g = 0) :
    (World.mk ⟨e.takeOut g, .resume fr c (.generator g (.body p reply k))⟩ held).Bound issued g p := by
  have he : l.engine.Effects Rights.all (e.takeOut g) := by
    rw [hl]
    exact Engine.modifyGenerator_effects trivial _
  obtain ⟨-, ho⟩ := hs.effects he
  have hledger : ({ l with engine := e.takeOut g } : Ledger H) =
      (World.mk ⟨e.takeOut g, .resume fr c (.generator g (.body p reply k))⟩ held).ledger issued := by
    rw [hl]
    rfl
  rw [hledger] at ho
  have hself : l.owed (.body g p) = 1 := (howed p).trans (if_pos rfl)
  refine ⟨?_, fun a => (ha a).of_asyncGenerators (by rw [hl]; rfl), ?_, fun q hq => ?_, .running ?_ ?_ ?_ ?_⟩
  · exact hg.trans_le (Engine.size_le_modifyGenerator e g _)
  · exact (ho _ (Duty.body_ne_adopt g p)).2 hself.le hu
  · exact (ho _ (Duty.body_ne_adopt g q)).1.trans ((howed q).trans (if_neg hq))
  · show ((e.takeOut g).generator g).state = _
    rw [Engine.takeOut, Engine.generator_modify, if_pos rfl]
  · show (g :: k.running).count g = 1
    rw [List.count_cons_self, hcount]
  · have hk := k.tallies.count_body_le g p
    rw [hcount] at hk
    show (Duty.body g p :: k.duties).count (.body g p) = 1
    rw [List.count_cons_self, Nat.le_zero.1 hk]
  · exact (ho _ (Duty.body_ne_adopt g p)).1.trans hself

variable (args k) in
/-- The step that a callback begins, when the frame is at hand. -/
theorem callFunction_body (hcode : (e.callable f).code = .wake (.body g p) kind)
    (honce : (e.callable f).usage = .once) (hstate : (e.generator g).state = .suspendedYield)
    {fr : Frame H} (hfr : (e.generator g).frame = some fr) :
    e.callFunction f args k =
      ⟨(e.used f).takeOut g, .resume fr (kind.completion (Value.argument args 0))
        (.generator g (.body p .undefined k))⟩ := by
  have hspend : (e.spend f).generator g = e.generator g := rfl
  have hused : e.used f = e.spend f := by rw [Engine.used, honce]
  have hstep : ∀ c, (e.spend f).stepGenerator g c (.body p .undefined k) =
      ⟨(e.used f).takeOut g, .resume fr c (.generator g (.body p .undefined k))⟩ := fun c => by
    simp only [Engine.stepGenerator, Engine.beginStep, hspend, hstate, Engine.takeFrame, hfr,
      Engine.takeOut, hused]
  rw [Engine.callFunction, honce, hcode]
  cases kind <;> exact hstep _

/-- **A body goes on after a wait.** -/
theorem Bound.wake (hw : (World.mk ⟨e, .call f args k⟩ held).Bound issued g p)
    (hs : ((World.mk ⟨e, .call f args k⟩ held).ledger issued).Sound)
    (hcode : (e.callable f).code = .wake (.body g p) kind) :
    (World.mk (e.callFunction f args k) held).Bound issued g p := by
  obtain ⟨honce, hstate, hframe, hcount⟩ := hw.at_hand hcode
  obtain ⟨fr, hfr⟩ := Option.isSome_iff_exists.1 hframe
  have hen := Engine.engagement?_of_wake hcode rfl
  have hcalled : ((World.mk ⟨e, .call f args k⟩ held).ledger issued).called = some f :=
    called_of_wake hcode rfl
  have hcall := callFunction_body args k hcode honce hstate hfr
  -- the duty goes from the callback to the stack
  let l := (World.mk ⟨e, .call f args k⟩ held).ledger issued
  let l₁ : Ledger H := { engine := e.used f, held, stack := .body g p :: k.duties, issued }
  have hl₁ : l₁ = { l with engine := e.used f, called := none, stack := .body g p :: l.stack } := rfl
  have hspent : (e.callable f).usage ≠ .spent := by
    rw [honce]
    exact nofun
  have hle : l.owed (.body g p) ≤ 1 := hw.body.owed_le
  have hact : Act Rights.all l l₁ :=
    .wake hcalled hen (Duty.body_ne_adopt g p) hspent trivial
  obtain ⟨h₁, ho₁⟩ := hs.wake hcalled hen (Duty.body_ne_adopt g p) hl₁
  have hused : (e.used f).generators = e.generators := by
    unfold Engine.used
    split <;> rfl
  rw [hcall]
  refine .of_resumed rfl h₁ (hused ▸ hw.allocated) ?_ (hact.unspent hs hle hw.unspent)
    (fun q => ?_) hcount
  · exact fun a => (hw.apart a).of_asyncGenerators (Engine.asyncGenerators_used e f)
  · rw [ho₁]
    split
    · next hq => exact hq ▸ le_antisymm hle (Ledger.owed_pos_of_called hcalled hen)
    · next hq => exact hw.others q hq

/-- The step that an async function begins with. -/
theorem startAsync_eq (e : Engine H) (fr : Frame H) (k : Caller H) :
    e.startAsync fr k =
      ⟨(e.newPromise.2.newGenerator fr).2.takeOut ⟨e.generators.size⟩,
        .resume fr (.normal .undefined) (.generator ⟨e.generators.size⟩
          (.body ⟨e.promises.size⟩ (.promise ⟨e.promises.size⟩) k))⟩ := by
  have hnew : (e.newPromise.2.newGenerator fr).2.generator ⟨e.generators.size⟩ =
      { id := e.newPromise.2.nextId, state := .suspendedStart, frame := some fr } :=
    e.newPromise.2.generator_newGenerator fr
  show (e.newPromise.2.newGenerator fr).2.stepGenerator ⟨e.generators.size⟩ (.normal .undefined)
    (.body ⟨e.promises.size⟩ (.promise ⟨e.promises.size⟩) k) = _
  simp only [Engine.stepGenerator, Engine.beginStep, hnew, Engine.takeFrame, Engine.takeOut]
  rfl

/-- **The body of an async function begins** as soon as it is made. -/
theorem Unborn.start {h : Activation H} {prompt : Prompt H}
    (hw : (World.mk ⟨e, .host h prompt⟩ held).Unborn issued ⟨e.generators.size⟩)
    (hs : ((World.mk ⟨e, .host h prompt⟩ held).ledger issued).Sound) (fr : Frame H) :
    (World.mk (e.startAsync fr (.host h)) held).Bound issued ⟨e.generators.size⟩
      ⟨e.promises.size⟩ := by
  let l := (World.mk ⟨e, .host h prompt⟩ held).ledger issued
  let g : GeneratorRef := ⟨e.generators.size⟩
  let p : PromiseRef := ⟨e.promises.size⟩
  let e₁ := (e.newPromise.2.newGenerator fr).2
  have he : l.engine.Effects Rights.all e₁ :=
    (Engine.newPromise_effects e).tail (.aside (.newGenerator _ fr))
  obtain ⟨h₁, ho₁⟩ := hs.effects he
  obtain ⟨h₂, ho₂⟩ := h₁.push (Duty.body_ne_adopt g p)
  have hzero : ∀ q, ({ l with engine := e₁ } : Ledger H).owed (.body g q) = 0 := fun q =>
    (ho₁ _ (Duty.body_ne_adopt g q)).1.trans (hw.owed q)
  have hown : Rights.all.Owns e₁ p := by
    refine ⟨?_, trivial⟩
    show e.promises.size < (e.promises.push _).size
    rw [Store.size_push]
    exact Nat.lt_succ_self _
  have hact : Act Rights.all ({ l with engine := e₁ } : Ledger H)
      { l with engine := e₁, stack := .body g p :: l.stack } := .start rfl hown trivial
  rw [startAsync_eq]
  refine .of_resumed rfl h₂ ?_ (fun a => (hw.apart a).of_asyncGenerators rfl)
    (hact.unspent h₁ ((hzero p).trans_le (Nat.zero_le 1)) (h₁.unspent_of_owed (hzero p)))
    (fun q => ?_) hw.running
  · show e.generators.size < (e.generators.push _).size
    rw [Store.size_push]
    exact Nat.lt_succ_self _
  · calc
      _ = ({ l with engine := e₁ } : Ledger H).owed (.body g q) +
          if Duty.body g p = .body g q then 1 else 0 := ho₂ _
      _ = if q = p then 1 else 0 := by
        rw [hzero, Nat.zero_add]
        simp only [Duty.body.injEq, true_and, eq_comm]

/-- **A step of a body ends** when its frame stops: it waits again, or it is done. -/
theorem Bound.stop {control : Control H} {reply : Value}
    (hw : (World.mk ⟨e, control⟩ held).Bound issued g p)
    (hs : ((World.mk ⟨e, control⟩ held).ledger issued).Sound)
    (hl : (World.mk ⟨e, control⟩ held).ledger issued =
      { engine := e, held, stack := .body g p :: k.duties, issued })
    (hrunning : control.running = g :: k.running) (o : Outcome) (fr : Frame H) :
    (World.mk (e.frameStopped o fr (.generator g (.body p reply k))) held).Bound issued g p := by
  have hcount : k.running.count g = 0 ∧
      ((World.mk ⟨e, control⟩ held).ledger issued).owed (.body g p) = 1 := by
    have hcons : control.running.count g = k.running.count g + 1 := by
      rw [hrunning, List.count_cons_self]
    cases hw.body with
    | running hstate hrun hduty ho => exact ⟨Nat.succ.inj (hcons.symm.trans hrun), ho⟩
    | suspended hstate hf hrun ho => cases hcons.symm.trans hrun
    | finished hstate hrun ho => cases hcons.symm.trans hrun
  obtain ⟨hcount, hone⟩ := hcount
  let l := (World.mk ⟨e, control⟩ held).ledger issued
  have hstack : l.stack = .body g p :: k.duties := by
    show ((World.mk ⟨e, control⟩ held).ledger issued).stack = _
    rw [hl]
  have howed : ∀ q, l.owed (.body g q) = if q = p then 1 else 0 := by
    intro q
    split
    · next hq => exact hq ▸ hone
    · next hq => exact hw.others q hq
  obtain ⟨ho, hunspent⟩ := hs.stop hstack (o := o) hw.unspent howed fr
  let w' := World.mk (e.frameStopped o fr (.generator g (.body p reply k))) held
  have hledger : ({ l with
      engine := (l.engine.endStep g fr o).absorbBodyOutcome g p (.ok o)
      stack := k.duties } : Ledger H) = w'.ledger issued := by
    show ({ ((World.mk ⟨e, control⟩ held).ledger issued) with
      engine := (e.endStep g fr o).absorbBodyOutcome g p (.ok o), stack := k.duties } : Ledger H) = _
    rw [hl]
    rfl
  rw [hledger] at ho hunspent
  have hspares := Engine.spares_absorbBodyOutcome (e.endStep g fr o) g p (.ok o)
  have hgen : w'.config.engine.generator g = (e.endStep g fr o).generator g := by
    rw [Engine.generator, Engine.generator, ← hspares.generators]
    rfl
  rw [Engine.generator_endStep] at hgen
  refine ⟨?_, fun a => (hw.apart a).of_asyncGenerators (hspares.asyncGenerators.trans
    (Engine.asyncGenerators_endStep e g fr o)), hunspent, fun q hq => ?_, ?_⟩
  · show g.index < ((e.endStep g fr o).absorbBodyOutcome g p (.ok o)).generators.size
    rw [hspares.generators]
    exact hw.allocated.trans_le (Engine.size_le_endStep e g fr o)
  · exact (ho q).trans (if_neg fun hand => hq hand.2)
  · cases hf : o.isFinished with
    | true =>
      rw [hf, if_pos rfl] at hgen
      exact .finished (by rw [hgen]) hcount ((ho p).trans (by simp [hf]))
    | false =>
      rw [hf, if_neg Bool.false_ne_true] at hgen
      exact .suspended (by rw [hgen]) (by rw [hgen]; rfl) hcount ((ho p).trans (by simp [hf]))

/-- A body whose frame goes on. -/
theorem Bound.goOn {c c' : Control H} (hw : (World.mk ⟨e, c⟩ held).Bound issued g p)
    (hl : (World.mk ⟨e, c'⟩ held).ledger issued = (World.mk ⟨e, c⟩ held).ledger issued)
    (hrun : c'.running = c.running) : (World.mk ⟨e, c'⟩ held).Bound issued g p := by
  refine ⟨hw.allocated, hl ▸ hw.apart, hl ▸ hw.unspent, fun q hq => hl ▸ hw.others q hq, ?_⟩
  exact hw.body.pass (hl ▸ .refl _ _) rfl (congrArg (·.count g) hrun)

/-- Some instructions of the script of a body. -/
theorem Bound.progress {control : Control H} {reply : Value}
    (hw : (World.mk ⟨e, control⟩ held).Bound issued g p)
    (hs : ((World.mk ⟨e, control⟩ held).ledger issued).Sound)
    (hl : (World.mk ⟨e, control⟩ held).ledger issued =
      { engine := e, held, stack := .body g p :: k.duties, issued })
    (hrunning : control.running = g :: k.running) (progress : ScriptFrame.Progress) :
    (World.mk (e.scriptProgress (.generator g (.body p reply k)) progress) held).Bound issued g p := by
  cases progress with
  | running f => exact hw.goOn hl.symm hrunning.symm
  | stopped o f => exact hw.stop hs hl hrunning o (.script f)

/-- The async functions that a move starts, each with its body and its promise. -/
def launches (w : World H) : Move H → List (GeneratorRef × PromiseRef)
  | .perform (.startAsync _) =>
    [(⟨w.config.engine.generators.size⟩, ⟨w.config.engine.promises.size⟩)]
  | _ => []

end World

/-- The async functions that have been started in the course of some events. -/
def launchedIn (es : List (Event H)) : List (GeneratorRef × PromiseRef) :=
  es.flatMap fun ev => ev.before.launches ev.move

section Steps

variable {w w' : World H} {m : Move H} {issued : List (AsyncGeneratorRef × Request)}
  {g : GeneratorRef} {p : PromiseRef}

/-- Only steps of bodies are for the duty of one. -/
theorem Purpose.eq_body {purpose : Purpose H} (h : purpose.duty? g = some (.body g p)) :
    ∃ reply k, purpose = .body p reply k := by
  cases purpose with
  | body q reply k =>
    cases h
    exact ⟨reply, k, rfl⟩
  | _ => cases h

/-- A body that is being woken, or whose frame is on top of the stack. -/
theorem Step.bound_driven (h : Step w m w') (hs : (w.ledger issued).Sound)
    (hw : w.Bound issued g p) (hdrive : w.Drives m g (some (.body g p))) :
    w'.Bound (w.issued issued m) g p := by
  generalize hd : some (Duty.body g p) = d at hdrive
  cases hdrive with
  | @wake e f args k held waiter kind _ d hcode hmem =>
    cases h
    cases hd
    cases waiter with
    | body g' q =>
      obtain ⟨-, hq⟩ := Prod.mk.inj (List.mem_singleton.1 hmem)
      cases hq
      exact hw.wake hs hcode
    | host onFulfilled onRejected => cases hmem
    | _ => cases (Prod.mk.inj (List.mem_singleton.1 hmem)).2
  | @resume e f c _ purpose held =>
    obtain ⟨reply, k, rfl⟩ := Purpose.eq_body hd.symm
    cases h
    cases f with
    | values f => exact hw.stop hs rfl rfl _ _
    | script f => exact hw.progress hs rfl rfl _
    | host code => exact hw.goOn rfl rfl
  | run =>
    obtain ⟨reply, k, rfl⟩ := Purpose.eq_body hd.symm
    cases h
    exact hw.progress hs rfl rfl _
  | frame o code =>
    obtain ⟨reply, k, rfl⟩ := Purpose.eq_body hd.symm
    cases h
    exact hw.stop hs rfl rfl o (.host code)
  | serve hq => cases hd
  | start f => exact absurd hw.allocated (Nat.lt_irrefl _)
  | named hmem => cases hd

/-- **Every step keeps a body bound** to its async function. -/
theorem Step.bound (h : Step w m w') (hm : m ≠ .abandon) (hbacked : w.config.engine.Backed)
    {js : List (Job H)} (hl : ((w.keeping js).ledger issued).Flights) (hg : g ∉ w.reaches m)
    (hw : (w.keeping js).Bound issued g p) :
    (w'.keeping (w.drops m ++ js)).Bound (w.issued issued m) g p := by
  have hdrives : ∀ {x}, x ∈ w.drives m → (w.keeping js).Drives m x.1 x.2 :=
    World.drives_of_mem (w := w.keeping js)
  have honly : ∀ x ∈ w.drives m, x.1 = g → x.2 = some (.body g p) := by
    rintro x hx rfl
    refine (World.duty_of_drives hl.exclusive hw.apart hg hw.body.count_le hw.others
      (hdrives hx)).resolve_right ?_
    rintro ⟨-, hnew⟩
    have hlt := hw.allocated
    rw [hnew] at hlt
    exact Nat.lt_irrefl _ hlt
  by_cases hdrive : ∃ x ∈ w.drives m, x.1 = g
  · obtain ⟨x, hx, rfl⟩ := hdrive
    rw [World.drops_of_drives hx]
    exact (h.keeping js).bound_driven hl.lawful.sound hw (honly x hx rfl ▸ hdrives hx)
  · have hnot : ∀ x ∈ w.drives m, x.1 ≠ g := fun x hx hxg => hdrive ⟨x, hx, hxg⟩
    have hself : ¬ g ≠ g := fun hne => hne rfl
    have hpass := fun q => h.passes_kept hm hbacked hl.lawful (d := .body g q) trivial
      fun x hx hd => hnot x hx (World.body_of_drives (hd ▸ hdrives hx))
    have hc := h.changes (D := (· ≠ g)) hnot fun hab => absurd hab hm
    exact ⟨hw.allocated.trans_le hc.size_le, fun a => h.stays_apart hbacked hl.exclusive
        (fun c hc hinner => hg (hinner ▸ w.reaches_request hc)) (hw.apart a),
      (hpass p).2 hw.body.owed_le hw.unspent,
      fun q hq => (hpass q).1.owed.trans (hw.others q hq),
      hw.body.pass (hpass p).1 (hc.generator_eq hself hw.allocated) (hc.count_eq hself)⟩

/-- An async function that is started has the next generator for a body. -/
theorem Step.started (h : Step w m w') (hs : (w.ledger issued).Sound)
    (hp : (g, p) ∈ w.launches m) (hw : w.Unborn issued g) : w'.Bound (w.issued issued m) g p := by
  cases h with
  | @perform e a prompt held op hop =>
    cases op with
    | startAsync f =>
      obtain ⟨rfl, rfl⟩ := Prod.mk.inj (List.mem_singleton.1 hp)
      exact hw.start hs f
    | _ => cases hp
  | _ => cases hp

/-- A generator that is not made by a move is not driven by it. -/
theorem World.Unborn.not_driven {js : List (Job H)} (hw : (w.keeping js).Unborn issued g)
    (h : Step w m w') (hl : ((w.keeping js).ledger issued).Exclusive) (hg : g ∉ w.reaches m)
    (hsize : w'.config.engine.generators.size ≤ g.index) : ∀ x ∈ w.drives m, x.1 ≠ g := by
  have hnew : ¬ ((∃ f, m = .perform (.startAsync f)) ∧ g = ⟨w.config.engine.generators.size⟩) := by
    rintro ⟨⟨f, rfl⟩, hnew⟩
    have hbound := (h.keeping js).started hl.lawful.sound (p := ⟨w.config.engine.promises.size⟩)
      (List.mem_singleton.2 (by rw [hnew]; rfl)) hw
    exact absurd hbound.allocated (Nat.not_lt_of_le hsize)
  rintro x hx rfl
  have hdrive := World.drives_of_mem (w := w.keeping js) hx
  have hd := (World.duty_of_drives (p := ⟨0⟩) hl hw.apart hg
    (hw.running.le.trans (Nat.zero_le _)) (fun q _ => hw.owed q) hdrive).resolve_right hnew
  have hpos : 0 < ((w.keeping js).ledger issued).owed (.body x.1 ⟨0⟩) :=
    (World.owed_of_drives (hd ▸ hdrive)).resolve_right hnew
  exact absurd (hw.owed ⟨0⟩) hpos.ne'

/-- Until a generator is made, nothing has to do with it. -/
theorem Step.unborn (h : Step w m w') (hbacked : w.config.engine.Backed)
    {js : List (Job H)} (hl : ((w.keeping js).ledger issued).Exclusive) (hg : g ∉ w.reaches m)
    (hw : (w.keeping js).Unborn issued g) (hsize : w'.config.engine.generators.size ≤ g.index) :
    (w'.keeping (w.drops m ++ js)).Unborn (w.issued issued m) g := by
  have hnot := hw.not_driven h hl hg hsize
  have hapart : ∀ a, (w'.ledger (w.issued issued m)).Apart g a := fun a =>
    h.stays_apart hbacked hl (fun c hc hinner => hg (hinner ▸ w.reaches_request hc)) (hw.apart a)
  by_cases hm : m = .abandon
  · subst hm
    obtain ⟨hloses, hcontrol, -, -⟩ := (h.keeping js).abandons issued
    refine ⟨hsize, hapart, ?_, fun p => Nat.le_zero.1 ((hloses.owed_mono _).trans_eq (hw.owed p))⟩
    show w'.config.control.running.count g = 0
    rw [show w'.config.control = _ from hcontrol]
    rfl
  · have hself : ¬ g ≠ g := fun hne => hne rfl
    have hpass := fun q => h.passes_kept hm hbacked hl.lawful (d := .body g q) trivial
      fun x hx hd => hnot x hx (World.body_of_drives (hd ▸ World.drives_of_mem (w := w.keeping js) hx))
    have hc := h.changes (D := (· ≠ g)) hnot fun hab => absurd hab hm
    exact ⟨hsize, hapart, (hc.count_eq hself).trans hw.running,
      fun q => (hpass q).1.owed.trans (hw.owed q)⟩

end Steps

/-! ## Runs -/

theorem World.unborn_start (g : GeneratorRef) : ({} : World H).Unborn [] g := by
  refine ⟨Nat.zero_le _, fun a _ => ?_, rfl, fun p => rfl⟩
  have hnew : (({} : World H).ledger []).engine.asyncGenerator a = {} :=
    Store.get_of_size_le (Nat.zero_le _)
  rw [hnew]
  exact ⟨rfl, rfl⟩

/-- A generator is not made before its async function is started. -/
theorem World.size_le_of_launches {w : World H} {m : Move H} {g : GeneratorRef} {p : PromiseRef}
    (hp : (g, p) ∈ w.launches m) : w.config.engine.generators.size ≤ g.index := by
  cases m with
  | perform op =>
    cases op with
    | startAsync f => exact (Prod.mk.inj (List.mem_singleton.1 hp)).1 ▸ Nat.le_refl _
    | _ => cases hp
  | _ => cases hp

/-- A move that starts an async function drops nothing. -/
theorem World.drops_of_launches {w : World H} {m : Move H} {g : GeneratorRef} {p : PromiseRef}
    (hp : (g, p) ∈ w.launches m) : w.drops m = [] := by
  cases m with
  | perform op =>
    cases op with
    | startAsync f => rfl
    | _ => cases hp
  | _ => cases hp

/-- **The bodies of all async functions** that have been started are bound to them, as
far as the host does not reach them, if dropped jobs are kept. -/
theorem Run.bodies_kept {es : List (Event H)} {w : World H} (h : Run es w)
    (hes : ∀ ev ∈ es, ev.move ≠ .abandon) {g : GeneratorRef}
    (hg : ∀ ev ∈ es, g ∉ ev.before.reaches ev.move) :
    (w.config.engine.generators.size ≤ g.index →
        (w.keeping (droppedIn es)).Unborn (requestsIn es) g) ∧
      ∀ p, (g, p) ∈ launchedIn es → (w.keeping (droppedIn es)).Bound (requestsIn es) g p := by
  induction h with
  | refl => exact ⟨fun _ => World.unborn_start g, fun p hp => by cases hp⟩
  | @step es w₁ w₂ m h hs ih =>
    obtain ⟨hm, hes⟩ := List.forall_mem_cons.1 hes
    obtain ⟨hgm, hg⟩ := List.forall_mem_cons.1 hg
    obtain ⟨hunborn, hbound⟩ := ih hes hg
    have hbacked := Run.backed h
    have hl := Run.flights_kept h hes
    have hsize := (hs.changes (D := fun _ => True) (fun _ _ => trivial) fun _ _ => trivial).size_le
    rw [droppedIn_cons]
    refine ⟨fun hle => hs.unborn hbacked hl.exclusive hgm (hunborn (hsize.trans hle)) hle,
      fun p hp => ?_⟩
    rcases List.mem_append.1 hp with hp | hp
    · have hborn := (hs.keeping _).started hl.lawful.sound hp (hunborn (World.size_le_of_launches hp))
      rw [World.drops_of_launches hp]
      exact hborn
    · exact hs.bound hm hbacked hl hgm (hbound p hp)

/-- The bodies of all async functions on a run that loses nothing. -/
theorem Run.bodies {es : List (Event H)} {w : World H} (h : Run es w)
    (hes : ∀ ev ∈ es, ev.move.Lossless) {g : GeneratorRef}
    (hg : ∀ ev ∈ es, g ∉ ev.before.reaches ev.move) {p : PromiseRef} (hp : (g, p) ∈ launchedIn es) :
    w.Bound (requestsIn es) g p := by
  have hw := (Run.bodies_kept h (fun ev hev => (hes ev hev).abandon) hg).2 p hp
  rw [droppedIn_eq_nil fun ev hev => (hes ev hev).clears, World.keeping_nil] at hw
  exact hw

end Microtask
