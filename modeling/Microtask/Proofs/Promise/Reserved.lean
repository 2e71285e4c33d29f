import Microtask.Proofs.Generator.Bodies
import Microtask.Proofs.Generator.Requests

/-!
# Reserved promises

A promise that the engine has made for a purpose of its own is settled by whatever serves
that purpose, and by nothing else, unless the host has asked for means to settle it
(`World.Reserved`). What serves it is a duty, as of an async function to settle its result, or
a few functions, as the callbacks of a combinator.

Before it is made, every promise is reserved for nobody (`Run.reserved_unborn`). A step that
neither moves the duty nor calls one of the functions leaves it reserved and unresolved
(`World.Reserved.idle`).
-/

namespace Microtask

variable {H : Type}

/-! ## What acts leave alone -/

section Acts

variable {R : Rights} {l l' : Ledger H} {p : PromiseRef}

open Ledger

/-- A request that waits in a queue has waited there before, or its promise is new. -/
theorem Act.queued (h : Act R l l') (hs : l.Sound) {a : AsyncGeneratorRef} {r : Request}
    (hr : r ∈ (l'.engine.asyncGenerator a).queue) :
    r ∈ (l.engine.asyncGenerator a).queue ∨
      l.engine.promises.size ≤ r.capability.index ∧
        r.capability.index < l'.engine.promises.size := by
  have hkeep : (l'.engine.asyncGenerator a).queue = (l.engine.asyncGenerator a).queue →
      r ∈ (l.engine.asyncGenerator a).queue ∨
        l.engine.promises.size ≤ r.capability.index ∧
          r.capability.index < l'.engine.promises.size := fun heq => .inl (heq ▸ hr)
  have hsame : l'.engine.asyncGenerators = l.engine.asyncGenerators →
      (l'.engine.asyncGenerator a).queue = (l.engine.asyncGenerator a).queue := by
    intro heq
    rw [Engine.asyncGenerator, Engine.asyncGenerator, heq]
  cases h with
  | effect he => exact hkeep (he.asyncGenerator a).1
  | @attach id q t jobs hpop => exact hkeep (hsame (Engine.asyncGenerators_engage _ t _ _))
  | @adopt f q kind e e' hf hcode hu haside hfate =>
    have hfate' := congrArg (fun s : Store AsyncGenerator => (s.get a.index).queue)
      hfate.asyncGenerators
    have hused := congrArg (fun s : Store AsyncGenerator => (s.get a.index).queue)
      (Engine.asyncGenerators_used l.engine f)
    exact hkeep ((hfate'.trans (Engine.Effect.asyncGenerator (.aside haside) a).1).trans hused)
  | @wake f d kind hf hen hd hu => exact hkeep (hsame (Engine.asyncGenerators_used _ f))
  | @engage d rest q c c' hstack hd => exact hkeep (hsame (Engine.asyncGenerators_engage _ q c c'))
  | request b c hreq =>
    have hgen := Engine.asyncGenerator_modify l.engine.newPromise.2 b a fun g =>
      { g with queue := g.queue ++ [⟨c, l.engine.newPromise.1⟩] }
    have hr' : r ∈ (((l.engine.newPromise.2.modifyAsyncGenerator b fun g =>
        { g with queue := g.queue ++ [⟨c, l.engine.newPromise.1⟩] }).asyncGenerator a).queue) := hr
    rw [hgen] at hr'
    split at hr'
    · next heq =>
      rcases List.mem_append.1 hr' with hold | hnew
      · exact .inl (heq ▸ hold)
      · rw [List.mem_singleton.1 hnew]
        refine .inr ⟨le_rfl, ?_⟩
        show l.engine.promises.size < (l.engine.promises.push _).size
        rw [Store.size_push]
        exact Nat.lt_succ_self _
    · exact .inl hr'
  | @take b r' rest s hserving hb hq ht =>
    have hgen := (taken l b r' rest s).generator a
    rw [hgen] at hr
    split at hr
    · next heq =>
      left
      rw [heq, hq]
      exact List.mem_cons_of_mem _ hr
    · exact .inl hr
  | @hold b r' rest hstack =>
    have hgen := Engine.asyncGenerator_modify l.engine b a fun g =>
      { g with state := .awaitingReturn }
    refine hkeep ((congrArg AsyncGenerator.queue hgen).trans ?_)
    split
    · next heq => rw [heq]
    · rfl
  | @answer b r' rest s kind v hstack hserving hb hv =>
    have hgen := (answer_frame hs hstack s hv).1 a
    refine hkeep ((congrArg AsyncGenerator.queue hgen).trans ?_)
    split
    · next heq => rw [heq]
    · rfl
  | _ => exact hkeep rfl

theorem Acts.queued (h : Acts R l l') (hl : l.Lawful) {a : AsyncGeneratorRef} {r : Request}
    (hr : r ∈ (l'.engine.asyncGenerator a).queue) :
    r ∈ (l.engine.asyncGenerator a).queue ∨
      l.engine.promises.size ≤ r.capability.index ∧
        r.capability.index < l'.engine.promises.size := by
  induction h with
  | refl => exact .inl hr
  | tail h₀ hact ih =>
    obtain hr | ⟨hle, hlt⟩ := hact.queued (Acts.keeps h₀ hl).lawful.sound hr
    · exact (ih hr).imp id fun hnew => ⟨hnew.1, hnew.2.trans_le hact.grows.promises⟩
    · exact .inr ⟨(Acts.grows h₀).promises.trans hle, hlt⟩

/-- **A promise that an act may not settle** stays unresolved, if no request is answered with
it either. -/
theorem Act.unresolved (h : Act R l l') (hR : ¬ R.settle p)
    (hserve : ∀ a r, R.move (.serve a r) → r.capability ≠ p) (hl : l.Lawful)
    (hp : p.index < l.engine.promises.size) (hr : (l.engine.promise p).resolved = false) :
    (l'.engine.promise p).resolved = false := by
  cases h with
  | effect he => exact he.unresolved hR hp hr
  | @attach id q t jobs hpop =>
    exact (Engine.resolved_engage { l.engine with jobs } t _ _ p).trans hr
  | @adopt f q kind e e' hf hcode hu haside hfate =>
    -- one that adopts another has been resolved before
    have hne : p ≠ q := by
      rintro rfl
      rw [(hl.due hf hcode).2] at hr
      cases hr
    rw [hfate.promise_of_ne hne, haside.promise, Engine.promise_used]
    exact hr
  | @wake f d kind hf hen hd hu =>
    exact (congrArg Promise.resolved (Engine.promise_used _ f p)).trans hr
  | @engage d rest q c c' hstack hd => exact (Engine.resolved_engage _ q c c' p).trans hr
  | request b c hreq =>
    have hprom := Engine.promise_newPromise l.engine p
    rw [if_neg] at hprom
    · exact (congrArg Promise.resolved hprom).trans hr
    · rintro rfl
      exact absurd hp (Nat.lt_irrefl _)
  | @answer b r rest s kind v hstack hserving hb hv hm =>
    have hne : p ≠ r.capability := (hserve b r hm).symm
    by_cases hdone : (l.engine.promise r.capability).resolved = true
    · have hsettle := Engine.settle_of_resolved (e := l.engine.setAsyncState b s) hdone kind v
      rw [hsettle]
      exact hr
    · rw [(answered hl hstack (by simpa using hdone) s hv).promise p hne]
      exact hr
  | _ => exact hr

theorem Acts.unresolved (h : Acts R l l') (hR : ¬ R.settle p)
    (hserve : ∀ a r, R.move (.serve a r) → r.capability ≠ p) (hl : l.Lawful)
    (hp : p.index < l.engine.promises.size) (hr : (l.engine.promise p).resolved = false) :
    (l'.engine.promise p).resolved = false := by
  induction h with
  | refl => exact hr
  | tail h₀ hact ih =>
    exact hact.unresolved hR hserve (Acts.keeps h₀ hl).lawful
      (hp.trans_le (Acts.grows h₀).promises) ih

end Acts

/-! ## Reserved promises -/

/-- The promise that the step of a generator is to settle in the end. -/
def Duty.answers? : Duty → Option PromiseRef
  | .serve _ r => some r.capability
  | .body _ p => some p
  | .adopt _ | .result _ | .construct _ => none

theorem Duty.ofStep_of_answers {d : Duty} {p : PromiseRef} (h : d.answers? = some p) :
    d.OfStep := by
  cases d with
  | serve a r | body g q => trivial
  | _ => cases h

/-- A duty that no step of a generator is for, and that is not the one in charge if that is to
settle the capability of a reaction. -/
def Duty.Foreign (holder : Option Duty) : Duty → Prop
  | .adopt _ | .construct _ => True
  | .result p => holder ≠ some (.result p)
  | .serve _ _ | .body _ _ => False

/-- Without a duty in charge, no fewer are foreign. -/
theorem Duty.Foreign.none {holder : Option Duty} {d : Duty} (h : d.Foreign holder) :
    d.Foreign none := by
  cases d with
  | adopt p | construct p => trivial
  | result p => exact nofun
  | serve a r | body g p => exact h

/-- Only a step with the given duty or the call of one of the given functions can settle the
promise, unless the host has asked for means of settling it. -/
structure World.Reserved (w : World H) (es : List (Event H)) (p : PromiseRef)
    (holder : Option Duty) (own : FunctionRef → Prop) : Prop where
  means : (w.ledger (requestsIn es)).Means (·.Foreign holder) (¬ own ·) p → Entrusted es p
  owed : ∀ d : Duty, d.answers? = some p → some d ≠ holder →
    (w.ledger (requestsIn es)).owed d = 0
  queued : ∀ a, ∀ r ∈ (w.config.engine.asyncGenerator a).queue, r.capability ≠ p

section Reserved

variable {w w' : World H} {m : Move H} {es : List (Event H)} {p : PromiseRef}
  {holder : Option Duty} {own : FunctionRef → Prop}

namespace World

/-- A duty that settles the promise moves only if it is the one in charge, or if an async
function begins. -/
theorem Reserved.eq_holder (h : w.Reserved es p holder own) {g' : GeneratorRef} {d : Duty}
    (hx : (g', some d) ∈ w.drives m) (hd : d.answers? = some p) :
    some d = holder ∨ ∃ f, m = .perform (.startAsync f) ∧
      d = .body ⟨w.config.engine.generators.size⟩ ⟨w.config.engine.promises.size⟩ := by
  obtain hpos | ⟨a, r, rfl, hr⟩ | hnew :=
    origin_of_drives (drives_of_mem hx) (requestsIn es)
  · left
    by_contra hne
    exact absurd (h.owed d hd hne) hpos.ne'
  · exact absurd (Option.some.inj hd) (h.queued a r hr.mem_queue)
  · exact .inr hnew

/-- **Acts keep a promise reserved** that may not move the duties which settle it, and that
make no means of settling it. -/
theorem Reserved.acts {R : Rights} (h : w.Reserved es p holder own)
    (hl : (w.ledger (requestsIn es)).Lawful)
    (hacts : Acts R (w.ledger (requestsIn es)) (w'.ledger (requestsIn (⟨w, m⟩ :: es))))
    (hmeans : R.Allows w'.config.engine p → Entrusted (⟨w, m⟩ :: es) p)
    (hmove : ∀ d : Duty, d.answers? = some p → some d ≠ holder → ¬ R.move d) (hR : ¬ R.abandon)
    (hp : p.index < w.config.engine.promises.size ∨ w'.config.engine.promises.size ≤ p.index) :
    w'.Reserved (⟨w, m⟩ :: es) p holder own := by
  refine ⟨fun hm => ?_, fun d hd hne => ?_, fun a r hr => ?_⟩
  · rcases hacts.means hm with hm | hm
    · exact (h.means hm).later _
    · exact hmeans hm
  · have hstill : ¬ R.Drives d := Rights.not_drives (Duty.ofStep_of_answers hd) (hmove d hd hne)
    exact (hacts.passes hstill hR hl).1.owed.trans (h.owed d hd hne)
  · obtain hr | ⟨hle, hlt⟩ := hacts.queued hl hr
    · exact h.queued a r hr
    · rintro rfl
      have hlt' : r.capability.index < w'.config.engine.promises.size := hlt
      have hle' : w.config.engine.promises.size ≤ r.capability.index := hle
      omega

end World

/-- What gets lost leaves a promise reserved. -/
theorem World.Reserved.lose (hw : w.Reserved es p holder own)
    (hloses : Ledger.Loses (w.ledger (requestsIn es)) (w'.ledger (requestsIn (⟨w, m⟩ :: es)))) :
    w'.Reserved (⟨w, m⟩ :: es) p holder own := by
  refine ⟨fun hmeans => ?_, fun d hd hne => ?_, fun a r hr => ?_⟩
  · exact (hw.means (hmeans.of_alike hloses.alike (fun _ hj => hloses.jobs.subset hj)
      fun _ hd hp => .duty (hloses.stack.subset hd) hp)).later _
  · exact Nat.le_zero.1 ((hloses.owed_mono d).trans_eq (hw.owed d hd hne))
  · have hgen : w'.config.engine.asyncGenerators = w.config.engine.asyncGenerators :=
      hloses.asyncGenerators
    rw [Engine.asyncGenerator, hgen] at hr
    exact hw.queued a r hr

/-- The rights of whoever moves no duty that settles the promise. -/
def Rights.making (es : List (Event H)) (p : PromiseRef) : Rights :=
  { Rights.all with
    entrusted := Entrusted es
    move := fun d => d.answers? ≠ some p
    abandon := False }

/-- A promise that is not made by a step stays reserved. -/
theorem Step.reserved_of_unborn (h : Step w m w') (hm : m.Lossless)
    (hbacked : w.config.engine.Backed) (hl : (w.ledger (requestsIn es)).Lawful)
    (hw : w.Reserved es p none own) (hp : w'.config.engine.promises.size ≤ p.index) :
    w'.Reserved (⟨w, m⟩ :: es) p none own := by
  have hcovers : (Rights.making (⟨w, m⟩ :: es) p).Covers w m := by
    refine { Rights.all_covers w m with
      fresh := ⟨fun _ _ => trivial, fun _ _ => trivial, fun _ _ => trivial⟩
      entrusted := fun q hq => ⟨_, List.mem_cons_self, hq⟩
      drive := fun x hx => ⟨trivial, fun d hd hans => ?_⟩
      abandon := hm.abandon }
    obtain ⟨g', d'⟩ := x
    cases hd
    obtain hnone | ⟨f, rfl, rfl⟩ := hw.eq_holder hx hans
    · cases hnone
    · -- the promise of the async function would be made by the step
      cases hans
      cases h with
      | @perform e a prompt held op hop =>
        have heq : (e.startAsync f (.host a)).engine.promises.size = e.promises.size + 1 := by
          rw [World.startAsync_eq]
          exact Store.size_push ..
        have hp' : (e.startAsync f (.host a)).engine.promises.size ≤ e.promises.size := hp
        omega
  have hacts := h.acts hm.clears hcovers hbacked (requestsIn es)
  refine hw.acts hl hacts (fun hallows => ?_) (fun d hd _ hmove => hmove hd) id (.inr hp)
  rcases hallows with hown | hentrusted
  · exact absurd hown.1 (Nat.not_lt_of_le hp)
  · exact hentrusted

/-! ## Steps that leave it alone -/

/-- The rights of whoever may not settle the promise, call the functions or move the duties
that settle it. -/
def Rights.idle (es : List (Event H)) (p : PromiseRef) (own : FunctionRef → Prop) : Rights :=
  { Rights.all with
    settle := (· ≠ p)
    entrusted := Entrusted es
    move := fun d => d.answers? ≠ some p
    abandon := False
    attach := (¬ own ·) }

/-- A step that does not move the duty, call one of the functions, settle the promise for the
host or redeem it has no more rights than that. -/
theorem Step.acts_idle (h : Step w m w') (hm : m.Lossless)
    (hbacked : w.config.engine.Backed) (hw : w.Reserved es p holder own)
    (hp : p.index < w.config.engine.promises.size)
    (hsize : ∀ f, own f → f.index < w.config.engine.callables.size)
    (hfree : ∀ g d, (g, some d) ∈ w.drives m → d.answers? ≠ some p)
    (hcall : ∀ f ∈ w.config.control.callee?, ¬ own f) (hattach : ∀ f ∈ m.functions, ¬ own f)
    (hredeem : holder = some (.result p) → ¬ w.config.Redeems p)
    (hhost : (w.config.engine.promise p).resolved = false → p ∈ w.targets m →
      p ∉ m.settles ∧ ¬ Entrusted (⟨w, m⟩ :: es) p) :
    Acts (Rights.idle (⟨w, m⟩ :: es) p own) (w.ledger (requestsIn es))
      (w'.ledger (requestsIn (⟨w, m⟩ :: es))) := by
  refine h.acts hm.clears ?_ hbacked (requestsIn es)
  refine { Rights.all_covers w m with
    fresh := ⟨?_, fun f hle hf => absurd (hsize f hf) (Nat.not_lt_of_le hle),
      fun _ _ => trivial⟩
    targets := fun q hq hres => ?_
    entrusted := fun q hq => ⟨_, List.mem_cons_self, hq⟩
    drive := fun x hx => ⟨trivial, fun d hd => ?_⟩
    abandon := hm.abandon
    attach := hattach }
  · rintro q hle rfl
    exact absurd hp (Nat.not_lt_of_le hle)
  · rintro rfl
    obtain ⟨hop, hnot⟩ := hhost hres hq
    refine hnot ((hw.means ?_).later _)
    exact World.means_of_target trivial hbacked hq hop (fun hr hholder => hredeem hholder hr) hcall
      (fun g hx => absurd rfl (hfree g _ hx)) _
  · exact hfree x.1 d (by rw [← (hd : x.2 = some d)]; exact hx)

/-- **A promise that is left alone stays reserved and unresolved.** -/
theorem World.Reserved.idle (hw : w.Reserved es p holder own)
    (hl : (w.ledger (requestsIn es)).Lawful)
    (hacts : Acts (Rights.idle (⟨w, m⟩ :: es) p own) (w.ledger (requestsIn es))
      (w'.ledger (requestsIn (⟨w, m⟩ :: es))))
    (hp : p.index < w.config.engine.promises.size)
    (hr : (w.config.engine.promise p).resolved = false) :
    w'.Reserved (⟨w, m⟩ :: es) p holder own ∧ (w'.config.engine.promise p).resolved = false := by
  refine ⟨hw.acts hl hacts (fun hallows => ?_) (fun d hd _ hmove => hmove hd) id (.inl hp),
    hacts.unresolved (fun hne => hne rfl) (fun a r hmove hcap => hmove (congrArg some hcap))
      hl hp hr⟩
  rcases hallows with hown | hentrusted
  · exact absurd rfl hown.2
  · exact hentrusted

/-! ## Promises that are not made yet -/

theorem World.reserved_start (p : PromiseRef) : ({} : World H).Reserved [] p none own := by
  refine ⟨fun hmeans => absurd hmeans Ledger.not_means_start, fun d _ _ => rfl, fun a r hr => ?_⟩
  have hnew : ({} : World H).config.engine.asyncGenerator a = {} :=
    Store.get_of_size_le (Nat.zero_le _)
  rw [hnew] at hr
  cases hr

/-- **A promise that does not exist yet is reserved for nobody**, whatever has happened. -/
theorem Run.reserved_unborn (h : Run es w) (hp : w.config.engine.promises.size ≤ p.index) :
    w.Reserved es p none own := by
  induction h with
  | refl => exact World.reserved_start p
  | @step es w₁ w₂ m h hs ih =>
    have hbacked := Run.backed h
    have hw := ih ((hs.grows hbacked).promises.trans hp)
    by_cases hm : m.Lossless
    · exact hs.reserved_of_unborn hm hbacked (Run.exclusive h).lawful hw hp
    · exact hw.lose (hs.loses hm (requestsIn es))

end Reserved

end Microtask
