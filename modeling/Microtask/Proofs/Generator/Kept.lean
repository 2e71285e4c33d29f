import Microtask.Proofs.Generator.Passing

/-!
# Dropped jobs that are kept

The host may drop all jobs that wait. Nothing that they owe is seen to after that, but it
is not done either: whoever waits for one of them waits for good. So the dropped jobs are
added to those that the host holds (`World.keeping`), as if it never put them back. In the
world with these jobs nothing gets lost but by a panic, and what is so on all runs that
drop nothing is so on all runs without a panic.

Main statement: `Run.flights_kept`.
-/

namespace Microtask

variable {H : Type}

/-! ## Jobs that change hands -/

namespace Ledger

/-- Jobs change hands, and nothing that is owed does. -/
structure Shuffled (l l' : Ledger H) : Prop where
  alike : l.engine.Alike l'.engine
  asyncGenerators : l'.engine.asyncGenerators = l.engine.asyncGenerators
  jobs : l'.jobs.Perm l.jobs
  called : l'.called = l.called
  stack : l'.stack = l.stack

namespace Shuffled

variable {l l' : Ledger H} {d : Duty}

theorem owed (h : l.Shuffled l') (d : Duty) : l'.owed d = l.owed d :=
  owed_of_perm h.alike h.jobs h.called h.stack d

theorem has (h : l.Shuffled l') {f : FunctionRef} (hf : l'.Has f) : l.Has f :=
  hf.imp (Traces.of_alike h.alike fun _ hj => h.jobs.mem_iff.1 hj).refers fun hf => h.called ▸ hf

theorem callable (h : l.Shuffled l') (f : FunctionRef) :
    l'.engine.callable f = l.engine.callable f := by
  rw [Engine.callable, Engine.callable, h.alike.callables]

theorem passes (h : l.Shuffled l') (d : Duty) : Passes d l l' :=
  ⟨h.owed d, by rw [h.stack], fun f _ _ hf => ⟨h.has hf, by rw [h.callable]⟩⟩

theorem unspent (h : l.Shuffled l') (hu : l.Unspent d) : l'.Unspent d := by
  intro f kind hen hf
  rw [h.alike.engagement?] at hen
  rw [h.callable]
  exact hu f kind hen (h.has hf)

theorem flights (h : l.Shuffled l') (hl : l.Flights) : l'.Flights :=
  hl.steady (Keeps.reorder hl.lawful h.alike h.jobs h.called h.stack).lawful
    (fun a r => h.unspent (hl.unspent a r))
    (.of_asyncGenerators h.asyncGenerators fun a r => h.owed (.serve a r))

end Shuffled

end Ledger

/-! ## What gets lost -/

namespace Ledger

/-- Jobs and duties on the stack get lost, and nothing else happens. -/
structure Loses (l l' : Ledger H) : Prop where
  alike : l.engine.Alike l'.engine
  asyncGenerators : l'.engine.asyncGenerators = l.engine.asyncGenerators
  jobs : l'.jobs.Sublist l.jobs
  called : l'.called = l.called
  stack : l'.stack.Sublist l.stack

namespace Loses

variable {l l' : Ledger H}

theorem owed_le (h : l.Loses l') (d : Duty) :
    l'.owed d + l.stack.count d ≤ l.owed d + l'.stack.count d := by
  have hjobs : l.engine.jobCount d l'.jobs ≤ l.engine.jobCount d l.jobs := h.jobs.countP_le
  rw [owed_rearrange h.alike, h.called, owed]
  omega

/-- Nothing is owed more often. -/
theorem owed_mono (h : l.Loses l') (d : Duty) : l'.owed d ≤ l.owed d := by
  have hle := h.owed_le d
  have hstack : l'.stack.count d ≤ l.stack.count d := h.stack.count_le d
  omega

theorem has (h : l.Loses l') {f : FunctionRef} (hf : l'.Has f) : l.Has f :=
  hf.imp (Traces.of_alike h.alike fun _ hj => h.jobs.subset hj).refers fun hf => h.called ▸ hf

theorem callable (h : l.Loses l') (f : FunctionRef) :
    l'.engine.callable f = l.engine.callable f := by
  rw [Engine.callable, Engine.callable, h.alike.callables]

theorem unspent (h : l.Loses l') {d : Duty} (hu : l.Unspent d) : l'.Unspent d := by
  intro f kind hen hf
  rw [h.alike.engagement?] at hen
  rw [h.callable]
  exact hu f kind hen (h.has hf)

/-- Requests that are not in flight at the same time are not so after something got lost. -/
theorem exclusive (h : l.Loses l') (hl : l'.Lawful) (hx : l.Exclusive) : l'.Exclusive :=
  hx.mono hl (fun a r => h.unspent (hx.unspent a r))
    (fun a => by rw [Engine.asyncGenerator, Engine.asyncGenerator, h.asyncGenerators])
    fun a r => h.owed_mono _

end Loses

end Ledger

/-! ## Worlds -/

namespace World

/-- The host holds more jobs. -/
def keeping (w : World H) (js : List (Job H)) : World H := ⟨w.config, w.held ++ js⟩

/-- The jobs that a move drops. -/
def drops (w : World H) (m : Move H) : List (Job H) :=
  if m.clears then w.config.engine.waitingJobs else []

theorem keeping_nil (w : World H) : w.keeping [] = w := by
  rw [keeping, List.append_nil]

theorem drops_eq_nil {m : Move H} (hm : m.clears = false) (w : World H) : w.drops m = [] := by
  rw [drops, hm]
  rfl

/-- Jobs that the host has held get lost. -/
theorem forgets (w : World H) (js : List (Job H)) (issued : List (AsyncGeneratorRef × Request)) :
    Ledger.Loses ((w.keeping js).ledger issued) (w.ledger issued) := by
  refine ⟨⟨rfl, rfl, rfl⟩, rfl, ?_, rfl, .refl _⟩
  show (w.config.engine.waitingJobs ++ w.held).Sublist
    (w.config.engine.waitingJobs ++ (w.held ++ js))
  rw [← List.append_assoc]
  exact List.sublist_append_left _ js

/-- A move that drives a generator drops nothing. -/
theorem drops_of_drives {w : World H} {m : Move H} {x : GeneratorRef × Option Duty}
    (hx : x ∈ w.drives m) : w.drops m = [] := by
  refine drops_eq_nil ?_ w
  cases m with
  | perform op =>
    cases op with
    | clearJobs | reset => cases hx
    | _ => rfl
  | _ => rfl

end World

/-- The jobs that have been dropped in the course of some events. -/
def droppedIn (es : List (Event H)) : List (Job H) :=
  es.flatMap fun ev => ev.before.drops ev.move

theorem droppedIn_cons (ev : Event H) (es : List (Event H)) :
    droppedIn (ev :: es) = ev.before.drops ev.move ++ droppedIn es :=
  List.flatMap_cons

theorem droppedIn_eq_nil {es : List (Event H)} (hes : ∀ ev ∈ es, ev.move.clears = false) :
    droppedIn es = [] :=
  List.flatMap_eq_nil_iff.2 fun ev hev => World.drops_eq_nil (hes ev hev) ev.before

/-! ## Steps -/

section Steps

variable {w w' : World H} {m : Move H} {g : GeneratorRef} {a : AsyncGeneratorRef} {d : Duty}
  {issued : List (AsyncGeneratorRef × Request)} {js : List (Job H)}

/-- Jobs that the host holds do not matter for a step. -/
theorem Step.keeping (h : Step w m w') (js : List (Job H)) :
    Step (w.keeping js) m (w'.keeping js) := by
  cases h with
  | tick c held => exact .tick c (held ++ js)
  | @perform e h prompt held op hop =>
    have hstep : Step ⟨⟨e, .host h prompt⟩, held ++ js⟩ (.perform op)
        ⟨e.perform h op, op.takes e ++ (held ++ js)⟩ := .perform hop
    rw [← List.append_assoc] at hstep
    exact hstep
  | @putBack e h prompt before after j =>
    have hstep : Step ⟨⟨e, .host h prompt⟩, before ++ j :: (after ++ js)⟩ (.perform (.enqueue j))
        ⟨e.perform h (.enqueue j), before ++ (after ++ js)⟩ := .putBack
    rw [← List.append_assoc, ← List.cons_append, ← List.append_assoc] at hstep
    exact hstep
  | finishCall result => exact .finishCall result
  | finishFrame o code => exact .finishFrame o code
  | finishJob result => exact .finishJob result
  | abandon => exact .abandon

/-- **With everything under way the duties on the stack are lost.** -/
theorem Step.abandons (h : Step w .abandon w') (issued : List (AsyncGeneratorRef × Request)) :
    Ledger.Loses (w.ledger issued) (w'.ledger issued) ∧ w'.config.control = .host .main .outside ∧
      w'.config.engine.generators = w.config.engine.generators ∧ w'.held = w.held := by
  cases h with
  | abandon => exact ⟨⟨⟨rfl, rfl, rfl⟩, rfl, .refl _, rfl, List.nil_sublist _⟩, rfl, rfl, rfl⟩

/-- A move that drops the jobs that wait leaves those that the host holds. -/
theorem Step.held_of_clears (h : Step w m w') (hm : m.clears = true) : w'.held = w.held := by
  cases h with
  | @perform e a prompt held op hop =>
    cases op with
    | clearJobs | reset => rfl
    | _ => cases hm
  | _ => cases hm

/-- **A step drops jobs, or it loses nothing.** If the dropped jobs are kept, they change
hands only. -/
theorem Step.kept_cases (h : Step w m w') (hm : m ≠ .abandon) (js : List (Job H))
    (issued : List (AsyncGeneratorRef × Request)) :
    m.Lossless ∧ Step (w.keeping js) m (w'.keeping (w.drops m ++ js)) ∨
      m.clears = true ∧ ((w.keeping js).ledger issued).Shuffled
        ((w'.keeping (w.drops m ++ js)).ledger (w.issued issued m)) := by
  cases hclears : m.clears with
  | false =>
    rw [World.drops_eq_nil hclears, List.nil_append]
    exact .inl ⟨⟨hclears, hm⟩, h.keeping js⟩
  | true =>
    obtain ⟨e, hledger, halike, hasync, hnone⟩ := h.clears hclears issued
    obtain rfl : w'.config.engine = e := congrArg Ledger.engine hledger
    have hcalled : (w'.ledger (w.issued issued m)).called = (w.ledger issued).called := by
      rw [hledger]
    have hstack : (w'.ledger (w.issued issued m)).stack = (w.ledger issued).stack := by
      rw [hledger]
    refine .inr ⟨rfl, halike, hasync, ?_, hcalled, hstack⟩
    show (w'.config.engine.waitingJobs ++ (w'.held ++ (w.drops m ++ js))).Perm
      (w.config.engine.waitingJobs ++ (w.held ++ js))
    rw [hnone, h.held_of_clears hclears, World.drops, if_pos hclears, List.nil_append,
      ← List.append_assoc, ← List.append_assoc]
    exact List.perm_append_comm.append_right js

theorem Step.flights_kept (h : Step w m w') (hm : m ≠ .abandon)
    (hbacked : w.config.engine.Backed) (hl : ((w.keeping js).ledger issued).Flights) :
    ((w'.keeping (w.drops m ++ js)).ledger (w.issued issued m)).Flights := by
  rcases h.kept_cases hm js issued with ⟨hloss, hs⟩ | ⟨-, hs⟩
  · exact hs.flights hloss hbacked hl
  · exact hs.flights hl

theorem Step.passes_kept (h : Step w m w') (hm : m ≠ .abandon)
    (hbacked : w.config.engine.Backed) (hl : ((w.keeping js).ledger issued).Lawful)
    (hd : d.OfStep) (hnot : ∀ x ∈ w.drives m, x.2 ≠ some d) :
    Ledger.Passes d ((w.keeping js).ledger issued)
        ((w'.keeping (w.drops m ++ js)).ledger (w.issued issued m)) ∧
      (((w.keeping js).ledger issued).owed d ≤ 1 → ((w.keeping js).ledger issued).Unspent d →
        ((w'.keeping (w.drops m ++ js)).ledger (w.issued issued m)).Unspent d) := by
  rcases h.kept_cases hm js issued with ⟨hloss, hs⟩ | ⟨-, hs⟩
  · exact hs.passes hloss hbacked hl hd hnot
  · exact ⟨hs.passes d, fun _ hu => hs.unspent hu⟩

/-- **A step that is not lossless** does nothing but lose jobs or duties. -/
theorem Step.loses (h : Step w m w') (hm : ¬ m.Lossless)
    (issued : List (AsyncGeneratorRef × Request)) :
    Ledger.Loses (w.ledger issued) (w'.ledger (w.issued issued m)) := by
  cases hclears : m.clears with
  | false =>
    obtain rfl : m = .abandon := by
      by_contra hne
      exact hm ⟨hclears, hne⟩
    exact (h.abandons issued).1
  | true =>
    obtain ⟨e, hledger, he, hasync, hj⟩ := h.clears hclears issued
    rw [hledger]
    refine ⟨he, hasync, ?_, rfl, .refl _⟩
    simp only [Ledger.jobs, hj, List.nil_append]
    exact List.sublist_append_right _ _

/-- **Every step keeps requests from being in flight at the same time**, whatever is lost. -/
theorem Step.exclusive (h : Step w m w') (hbacked : w.config.engine.Backed)
    (hl : (w.ledger issued).Exclusive) : (w'.ledger (w.issued issued m)).Exclusive := by
  cases hclears : m.clears with
  | false =>
    exact (h.acts hclears (Rights.all_covers w m) hbacked issued).preserve
      (fun ha => ha.exclusive) hl
  | true =>
    have hloses := h.loses (fun hm => by rw [hm.clears] at hclears; cases hclears) issued
    obtain ⟨e, hledger, he, -, hj⟩ := h.clears hclears issued
    rw [hledger] at hloses ⊢
    exact hloses.exclusive (hl.lawful.drop he hj) hl

/-- A duty that a step is not about is not owed more often after it, whatever is lost. -/
theorem Step.owed_mono (h : Step w m w') (hbacked : w.config.engine.Backed)
    (hl : (w.ledger issued).Lawful) (hd : d.OfStep) (hnot : ∀ x ∈ w.drives m, x.2 ≠ some d) :
    (w'.ledger (w.issued issued m)).owed d ≤ (w.ledger issued).owed d := by
  by_cases hm : m = .abandon
  · subst hm
    exact (h.abandons issued).1.owed_mono d
  · rw [← w.keeping_nil] at hl ⊢
    rw [← (h.passes_kept hm hbacked hl hd hnot).1.owed]
    exact (w'.forgets _ _).owed_mono d

end Steps

/-! ## Runs -/

/-- **In every run at most one request of an async generator is in flight.** -/
theorem Run.exclusive {es : List (Event H)} {w : World H} (h : Run es w) :
    (w.ledger (requestsIn es)).Exclusive := by
  induction h with
  | refl => exact Ledger.flights_start.exclusive
  | step h hs ih => exact hs.exclusive (Run.backed h) ih

/-- **In every run without a panic the requests are in flight** that have to be, if dropped
jobs are kept. -/
theorem Run.flights_kept {es : List (Event H)} {w : World H} (h : Run es w)
    (hes : ∀ ev ∈ es, ev.move ≠ .abandon) :
    ((w.keeping (droppedIn es)).ledger (requestsIn es)).Flights := by
  induction h with
  | refl => exact Ledger.flights_start
  | step h hs ih =>
    obtain ⟨hm, hes⟩ := List.forall_mem_cons.1 hes
    rw [droppedIn_cons]
    exact hs.flights_kept hm (Run.backed h) (ih hes)

/-- In every run that loses nothing the requests are in flight that have to be. -/
theorem Run.flights {es : List (Event H)} {w : World H} (h : Run es w)
    (hes : ∀ ev ∈ es, ev.move.Lossless) : (w.ledger (requestsIn es)).Flights := by
  have hl := Run.flights_kept h fun ev hev => (hes ev hev).abandon
  rw [droppedIn_eq_nil fun ev hev => (hes ev hev).clears, World.keeping_nil] at hl
  exact hl

end Microtask
