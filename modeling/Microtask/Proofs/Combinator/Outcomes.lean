import Microtask.Proofs.Combinator.Course
import Microtask.Proofs.Play

/-!
# Outcomes of collections

What a collection has come to when no job is left, by what its inputs have been settled with:

* `Combining.all_outcome` for `all`,
* `Combining.settled_outcome` for `allSettled`,
* `Combining.any_outcome` for `any`.

The host may do whatever it likes in the meantime, except settle the result itself, drop jobs
or panic (`World.Unimpeded`). When nothing is left to do, every callback has been called that the
settlement of an input is for, so the course of the collection tells the rest
(`World.Course.concluded`).
-/

namespace Microtask

variable {H : Type}

section Combining

variable {w w₁ w' : World H} {m : Move H} {es since : List (Event H)} {k : Combinator}
  {items : List Value} {xs : List Listener}

/-! ## Asking and going on -/

/-- A combinator is asked for in a run, of items that exist. -/
structure Combining (es : List (Event H)) (w : World H) (m : Move H) (w₁ : World H)
    (k : Combinator) (items : List Value) : Prop where
  run : Run es w
  asks : w.Asks k items m
  step : Step w m w₁
  exist : ∀ q, .promise q ∈ items → q.index < w.config.engine.promises.size

/-- The run goes on after a move without losing anything, and without the host settling the
promise made by the move itself. -/
structure World.Unimpeded (w₁ : World H) (es : List (Event H)) (w : World H) (m : Move H)
    (since : List (Event H)) (w' : World H) : Prop where
  later : Steps w₁ since w'
  lossless : ∀ ev ∈ since, ev.move.Lossless
  host : ¬ HostDecides (w.Made w₁) ⟨w.config.engine.promises.size⟩ (since ++ ⟨w, m⟩ :: es)

/-- The host has the floor, and no job is left. -/
def World.Idle (w : World H) : Prop := w.config.atHost = true ∧ w.jobs = []

/-- The inputs of a combinator: a promise for each item, with a pair of callbacks that wait on
it or have their job. -/
structure World.Inputs (w : World H) (items : List Value) (xs : List Listener) : Prop where
  represents : w.config.engine.Represents items xs
  attends : ∀ x ∈ xs, w.Attends [] x
  handled : ∀ x ∈ xs, (w.config.engine.promise x.input).handled = true

/-- The host gets the new promise. -/
def World.Obtains (w : World H) (p : PromiseRef) : Prop :=
  ∃ a, w.config.control = .host a (.answered (.value (.ok (.promise p))))

/-- None of the inputs would be reported as rejected and not handled. -/
def World.Unreported (w : World H) (xs : List Listener) : Prop :=
  ∀ x ∈ xs, ∀ reason, (x.input, reason) ∉ w.config.engine.unhandledReasons

theorem Engine.Combines.inputs {D : Settling → Bool}
    (hc : w.config.engine.Combines w₁.config.engine D items xs) : w₁.Inputs items xs where
  represents := hc.represents
  attends _ hx := hc.attends hx
  handled := hc.equips.handled

theorem Combining.run_set_up (h : Combining es w m w₁ k items) : Run (⟨w, m⟩ :: es) w₁ :=
  Steps.step h.run h.step

theorem Combining.makes (h : Combining es w m w₁ k items) : w.Makes m w₁ k items :=
  h.step.makes h.asks

theorem Combining.engine (h : Combining es w m w₁ k items) :
    w₁.config.engine = (k.make w.config.engine items).2 := by
  obtain ⟨a, prompt, -, rfl⟩ := h.makes.answers
  rfl

theorem Combining.answers (h : Combining es w m w₁ k items) :
    w₁.Obtains ⟨w.config.engine.promises.size⟩ := by
  obtain ⟨a, prompt, -, rfl⟩ := h.makes.answers
  exact ⟨a, rfl⟩

/-- A combinator that is asked for after some moves. -/
theorem Combining.of_play (k : Combinator) (items : List Value) (ms : List (Move H))
    (hms : (({} : World H).play? ms []).isSome = true)
    (hask : ((({} : World H).after ms).next? (.perform (k.op items))).isSome = true)
    (hexist : ∀ q ∈ items.filterMap Value.asPromise?,
      q.index < (({} : World H).after ms).config.engine.promises.size) :
    Combining (({} : World H).events ms) (({} : World H).after ms) (.perform (k.op items))
      ((({} : World H).after ms).after [.perform (k.op items)]) k items where
  run := World.steps_after hms
  asks := .list
  step := World.step_after hask
  exist q hq := hexist q (List.mem_filterMap.2 ⟨_, hq, rfl⟩)

/-- Some moves after it that name neither its promise nor functions. -/
theorem Combining.unimpeded (_ : Combining es w m w₁ k items) (ms : List (Move H))
    (hms : (w₁.play? ms []).isSome = true)
    (hlossless : ∀ ev ∈ w₁.events ms, ev.move.Lossless)
    (hnamed : ∀ ev ∈ w₁.events ms ++ ⟨w, m⟩ :: es,
      ⟨w.config.engine.promises.size⟩ ∉ ev.move.settles ∧
        ⟨w.config.engine.promises.size⟩ ∉ ev.move.entrusts ∧ ev.move.functions = []) :
    w₁.Unimpeded es w m (w₁.events ms) (w₁.after ms) :=
  ⟨World.steps_after hms, hlossless, not_hostDecides hnamed⟩

/-! ## Inputs later on -/

theorem World.Unimpeded.clears (hw : w₁.Unimpeded es w m since w') :
    ∀ ev ∈ since, ev.move.clears = false :=
  fun ev hev => (hw.lossless ev hev).clears

theorem Steps.persists (h : Steps w since w') (hw : w.Lawful) (p : PromiseRef) :
    (w.config.engine.promise p).Persists (w'.config.engine.promise p) :=
  h.relate (R := fun a b => (a.config.engine.promise p).Persists (b.config.engine.promise p))
    (fun _ => .refl _) Promise.Persists.trans
    (fun hs hw => ⟨(hs.lawful hw).1, (hs.lawful hw).2 p⟩) hw

/-- A promise that is handled is not reported. -/
theorem Engine.not_mem_unhandledReasons {e : Engine H} {p : PromiseRef}
    (hp : (e.promise p).handled = true) (reason : Value) : (p, reason) ∉ e.unhandledReasons := by
  intro hmem
  obtain ⟨q, -, hq⟩ := List.mem_filterMap.1 hmem
  split at hq
  · next hhandled =>
    cases hq
    rw [hp] at hhandled
    cases hhandled
  · cases hq

/-- **Inputs are never reported** from the set-up on. -/
theorem Combining.unreported (h : Combining es w m w₁ k items) (hx : w₁.Inputs items xs)
    (hw : w₁.Unimpeded es w m since w') : w'.Unreported xs := fun x hmem reason =>
  Engine.not_mem_unhandledReasons
    ((hw.later.persists h.run_set_up.lawful x.input).handled (hx.handled x hmem)) reason

/-- Every callback is on its way to being called. -/
theorem Combining.attends (h : Combining es w m w₁ k items) (hx : w₁.Inputs items xs)
    (hw : w₁.Unimpeded es w m since w') : ∀ x ∈ xs, w'.Attends since x := fun x hmem =>
  hw.later.attends hw.clears h.run_set_up.lawful (hx.attends x hmem)

/-- No promise among the items has been fulfilled with a promise. -/
def World.Flat (w : World H) (items : List Value) : Prop :=
  ∀ p, .promise p ∈ items → ∀ q, (w.config.engine.promise p).state ≠ .fulfilled (.promise q)

theorem Combining.flat_inputs (h : Combining es w m w₁ k items) (hx : w₁.Inputs items xs)
    (hw : w₁.Unimpeded es w m since w') (hflat : w'.Flat items) :
    ∀ x ∈ xs, ∀ q, (w'.config.engine.promise x.input).state ≠ .fulfilled (.promise q) := by
  intro x hmem q hstate
  obtain ⟨i, hi, rfl⟩ := List.getElem_of_mem hmem
  have hlen := hx.represents.length_eq
  have hstands := ((List.forall₂_iff_get.1 hx.represents).2 i (hlen ▸ hi) hi).persists
    (hw.later.persists h.run_set_up.lawful _)
  have hitem := List.get_mem items ⟨i, hlen ▸ hi⟩
  generalize items.get ⟨i, hlen ▸ hi⟩ = v at hstands hitem
  cases hstands with
  | itself => exact hflat _ hitem q hstate
  | plain hv hs => exact hv q (PromiseState.fulfilled.inj (hs.symm.trans hstate))

end Combining

/-! ## Conclusions -/

section Conclusions

variable {w w₁ w' : World H} {m : Move H} {es since : List (Event H)} {c : Collection}
  {items : List Value} {xs : List Listener} {p : PromiseRef} {t : TallyRef}
  {own : FunctionRef → Prop}

/-- What a collection has come to when nothing is left to do: an input is pending and none has
decided the result, or one has, or all of them together have. -/
inductive World.Concluded (w : World H) (since : List (Event H)) (p : PromiseRef)
    (c : Collection) (xs : List Listener) : Prop where
  | pending : (w.config.engine.promise p).state = .pending →
      (∀ x ∈ xs, ∀ kind v, (w.config.engine.promise x.input).state = kind.state v →
        c.decides kind = false) →
      (∃ x ∈ xs, (w.config.engine.promise x.input).state = .pending) → Concluded w since p c xs
  | decided : w.DecidedBy since p c.decides xs → Concluded w since p c xs
  | announced : w.Announced since p c xs → Concluded w since p c xs

/-- **When nothing is left to do, a collection has concluded.** -/
theorem World.Course.concluded (hw : w.Course es since t p own c xs) (hrun : Run es w)
    (hidle : w.Idle) (hattends : ∀ x ∈ xs, w.Attends since x) : w.Concluded since p c xs := by
  cases hw with
  | undecided hw ht =>
    have hcalled : ∀ x ∈ xs, ∀ kind v, (w.config.engine.promise x.input).state = kind.state v →
        Called since (x.handler kind) [v] := fun x hx kind v hs =>
      (hattends x hx).called_of_idle hidle.1 hidle.2 hs
    have hindecisive : ∀ x ∈ xs, ∀ kind v,
        (w.config.engine.promise x.input).state = kind.state v → c.decides kind = false := by
      intro x hx kind v hs
      by_contra hkind
      exact hw.uncalled _ _ ⟨x, hx, kind, Bool.eq_true_of_not_eq_false hkind, rfl⟩
        (hcalled x hx kind v hs)
    refine .pending (hw.result.pending hrun) hindecisive ?_
    -- otherwise all slots would be filled
    by_contra hnone
    push Not at hnone
    have hlacking := ht.lacking
    rw [ht.outstanding, List.count_pos_iff] at hlacking
    obtain ⟨i, hi, hslot⟩ := List.getElem_of_mem hlacking
    obtain ⟨x, hx⟩ : ∃ x, xs[i]? = some x := ⟨_, List.getElem?_eq_getElem (ht.length ▸ hi)⟩
    have hmem := List.mem_of_getElem? hx
    obtain hs | ⟨kind, v, hs⟩ := (w.config.engine.promise x.input).state.cases_settled
    · exact hnone x hmem hs
    · exact ht.vacant i x hx (hslot ▸ List.getElem?_eq_getElem hi) kind [v]
        (hindecisive x hmem kind v hs) (hcalled x hmem kind v hs)
  | decided hd => exact .decided hd
  | announced ha => exact .announced ha

section SetUp

variable (h : Combining es w m w₁ (.collection c) items)
include h

theorem Combining.set_up :
    w₁.config.engine = (w.config.engine.enrolling c items items.length).countDown
      ⟨w.config.engine.tallies.size⟩ :=
  h.engine.trans (w.config.engine.collect_eq c items)

theorem Combining.callables :
    w₁.config.engine.callables = (w.config.engine.enrolling c items items.length).callables := by
  rw [h.set_up, Engine.callables_countDown]

theorem Combining.callable (f : FunctionRef) :
    w₁.config.engine.callable f = (w.config.engine.enrolling c items items.length).callable f := by
  rw [Engine.callable, h.callables]
  rfl

/-- The elements of a collection have been added one after the other. -/
theorem Combining.enrolls :
    ∃ xs, (w.config.engine.enrolling c items 0).Enrolls
      (w.config.engine.enrolling c items items.length) ⟨w.config.engine.tallies.size⟩
      { w.config.engine.emptyTally c items with outstanding := 1 } items xs := by
  obtain ⟨xs, henrolls⟩ := Engine.enrolls_enrolling h.exist c items.length
  rw [List.take_length] at henrolls
  exact ⟨xs, henrolls⟩

variable (henrolls : (w.config.engine.enrolling c items 0).Enrolls
  (w.config.engine.enrolling c items items.length) ⟨w.config.engine.tallies.size⟩
  { w.config.engine.emptyTally c items with outstanding := 1 } items xs)
include henrolls

/-- The functions that report to its tally are the callbacks that do not decide. -/
theorem Combining.handler_of_report {f : FunctionRef} {i : Nat} {kind : Settling}
    (hcode : (w₁.config.engine.callable f).code =
      .report ⟨w.config.engine.tallies.size⟩ i kind) :
    c.decides kind = false ∧ ∃ x, xs[i]? = some x ∧ x.handler kind = f := by
  obtain hold | hmade | hnone := h.step.code_cases (Run.backed h.run) f
  · -- an older function does not know the tally
    exact absurd ((Run.backed h.run).allocated (hold.symm.trans hcode)) (Nat.lt_irrefl _)
  · rw [World.Made, Engine.Made, h.callables] at hmade
    obtain ⟨j, x, kind', hx, rfl⟩ := henrolls.handler_of_made hmade
    rw [h.callable, henrolls.codes j x hx kind', Tally.elementCode] at hcode
    split at hcode
    · cases kind' <;> cases hcode
    · next hdecides =>
      cases hcode
      exact ⟨Bool.eq_false_iff.2 hdecides, x, hx, rfl⟩
  · cases hnone.symm.trans hcode

/-- All slots are empty. -/
theorem Combining.isOpen {i : Nat} (hi : i < items.length) :
    (w₁.config.engine.tally ⟨w.config.engine.tallies.size⟩).isOpen i = true := by
  rw [h.set_up, Engine.tally_countDown, henrolls.counted, Tally.isOpen_iff]
  show (items.map fun _ => none)[i]? = _
  rw [List.getElem?_map, List.getElem?_eq_getElem hi]
  rfl

/-- **None of the functions that report has been called yet.** -/
theorem Combining.reporters :
    w₁.config.engine.Reporters ⟨w.config.engine.tallies.size⟩ c xs := by
  constructor
  case allocated =>
    rw [h.set_up]
    exact Engine.allocated_countDown henrolls.allocated
  case collection =>
    rw [h.set_up, Engine.tally_countDown, henrolls.counted]
    rfl
  case made =>
    intro x hx kind
    obtain ⟨i, hi⟩ := List.mem_iff_getElem?.1 hx
    exact (henrolls.handler_lt hi kind).trans_eq (congrArg Store.size h.callables.symm)
  case handlers => exact fun f i kind hcode => h.handler_of_report henrolls hcode
  case vacant =>
    intro f i kind hcode _
    obtain ⟨-, x, hx, rfl⟩ := h.handler_of_report henrolls hcode
    rw [h.callable]
    exact henrolls.usage x (List.mem_of_getElem? hx) kind
  case filled =>
    intro f i kind hcode hclosed
    obtain ⟨-, x, hx, -⟩ := h.handler_of_report henrolls hcode
    have hlt : i < items.length :=
      henrolls.represents.length_eq ▸ (List.getElem?_eq_some_iff.1 hx).1
    cases hclosed.symm.trans (h.isOpen henrolls hlt)

end SetUp

/-- A tally that has been set up lacks the reports of all elements. -/
theorem Engine.Enrolls.tallied {e : Engine H} (hne : items ≠ [])
    (hc : e.Enrolls w₁.config.engine t (e.emptyTally c items) items xs)
    (hreporters : w₁.config.engine.Reporters t c xs) : w₁.Tallied [] t ⟨e.promises.size⟩ c xs := by
  have hlen : items.length = xs.length := hc.represents.length_eq
  have hslots : (w₁.config.engine.tally t).slots = List.replicate xs.length none := by
    rw [hc.counted, ← hlen]
    exact List.map_const' ..
  constructor
  case reporters => exact hreporters
  case result => rw [hc.counted]; rfl
  case length => rw [hslots, List.length_replicate]
  case outstanding =>
    rw [hslots, List.count_replicate_self, hc.counted, ← hlen]
    exact Nat.zero_add _
  case lacking =>
    rw [hc.counted]
    exact (List.length_pos_iff.2 hne).trans_eq (Nat.zero_add _).symm
  case codes =>
    intro i x hx kind hkind
    refine (hc.codes i x hx kind).trans (if_neg ?_)
    rw [show (e.emptyTally c items).collection = c from rfl, hkind]
    decide
  case vacant =>
    rintro i x - - kind args - ⟨ev, hev, -⟩
    cases hev
  case filled =>
    intro i x content hx hslot
    rw [hslots, List.getElem?_replicate] at hslot
    split at hslot <;> cases hslot

/-- **What has been set up is at the start of its course.** -/
theorem Combining.course (h : Combining es w m w₁ (.collection c) items) :
    ∃ xs t, w₁.Inputs items xs ∧
      w₁.Course (⟨w, m⟩ :: es) [] t ⟨w.config.engine.promises.size⟩ (w.Made w₁) c xs := by
  have hengine : w₁.config.engine = (w.config.engine.collect c items).2 := h.engine
  by_cases hne : items = []
  · subst hne
    have hann := w.config.engine.collect_nil c
    rw [← hengine] at hann
    refine ⟨[], ⟨w.config.engine.tallies.size⟩,
      ⟨.nil, List.forall_mem_nil _, List.forall_mem_nil _⟩, .announced ⟨[], .nil, ?_⟩⟩
    exact hann.mono fun _ _ ⟨o, ho, hlt, hx⟩ => ⟨o, ho, hlt, fun _ => hx⟩
  · obtain ⟨xs, hloop⟩ := h.enrolls
    obtain ⟨henrolls, hcombines⟩ := hloop.collect hne
    rw [← hengine] at henrolls hcombines
    exact ⟨xs, _, hcombines.inputs, .undecided (h.makes.undecided h.run h.step hcombines)
      (henrolls.tallied hne (h.reporters hloop))⟩

/-- A collection that has been set up concludes when nothing is left to do. -/
theorem Combining.concludes (h : Combining es w m w₁ (.collection c) items) :
    ∃ xs, w₁.Inputs items xs ∧ ∀ since w', w₁.Unimpeded es w m since w' →
      (c.decides .fulfill = true → w'.Flat items) →
      (∃ t, w'.Course (since ++ ⟨w, m⟩ :: es) since t ⟨w.config.engine.promises.size⟩
          (w.Made w₁) c xs) ∧
        (w'.Idle → w'.Concluded since ⟨w.config.engine.promises.size⟩ c xs) := by
  obtain ⟨xs, t, hinputs, hcourse⟩ := h.course
  refine ⟨xs, hinputs, fun since w' hw hflat => ?_⟩
  have hcourse' := Steps.collecting h.run_set_up hw.later hw.lossless hw.host
    (fun hc => h.flat_inputs hinputs hw (hflat hc)) hcourse
  exact ⟨⟨t, hcourse'⟩, fun hidle => hcourse'.concluded (h.run_set_up.trans hw.later) hidle
    (h.attends hinputs hw)⟩

/-- What all elements have been settled with, none of which decides. -/
theorem World.Announced.settled (ha : w.Announced since p c xs) :
    ∀ x ∈ xs, ∃ kind v, c.decides kind = false ∧
      (w.config.engine.promise x.input).state = kind.state v := by
  obtain ⟨contents, hall, -⟩ := ha
  intro x hx
  obtain ⟨i, hi, rfl⟩ := List.getElem_of_mem hx
  obtain ⟨kind, v, hkind, hs, -⟩ :=
    (List.forall₂_iff_get.1 hall).2 i hi ((List.forall₂_iff_get.1 hall).1 ▸ hi)
  exact ⟨kind, v, hkind, hs⟩

end Conclusions

/-! ## Outcomes -/

/-- The kind of settlement that a collection announces what all elements have come to with. -/
def Collection.announcement : Collection → Settling
  | .all | .allSettled => .fulfill
  | .any => .reject

/-- The other kind of settlement decides at once. -/
def Collection.decision : Collection → Settling
  | .all | .allSettled => .reject
  | .any => .fulfill

section Outcomes

variable {w w₁ w' : World H} {m : Move H} {es since : List (Event H)} {items : List Value}
  {xs : List Listener} {p : PromiseRef} {c : Collection} {kind kind' : Settling} {v : Value}

/-- The promise has been settled in the given way. -/
def World.SettledAs (w : World H) (kind : Settling) (p : PromiseRef) (v : Value) : Prop :=
  (w.config.engine.promise p).state = kind.state v

instance (w : World H) (kind : Settling) (p : PromiseRef) (v : Value) :
    Decidable (w.SettledAs kind p v) :=
  inferInstanceAs (Decidable ((w.config.engine.promise p).state = kind.state v))

def World.Pending (w : World H) (p : PromiseRef) : Prop :=
  (w.config.engine.promise p).state = .pending

theorem World.Pending.not_settledAs (h : w.Pending p) : ¬ w.SettledAs kind p v := fun h' =>
  kind.state_ne_pending v (h'.symm.trans h)

theorem World.SettledAs.unique {u : Value} (h : w.SettledAs kind p v) (h' : w.SettledAs kind' p u) :
    kind = kind' ∧ v = u :=
  Settling.state_inj (h.symm.trans h')

theorem World.pending_iff : w.Pending p ↔ ∀ kind v, ¬ w.SettledAs kind p v := by
  refine ⟨fun h kind v => h.not_settledAs, fun h => ?_⟩
  obtain hs | ⟨kind, v, hs⟩ := (w.config.engine.promise p).state.cases_settled
  · exact hs
  · exact absurd hs (h kind v)

theorem Collection.eq_announcement (hc : c ≠ .allSettled) (hkind : c.decides kind = false) :
    kind = c.announcement := by
  cases c <;> cases kind <;> first | rfl | exact absurd rfl hc | cases hkind

theorem Collection.eq_decision (hkind : c.decides kind = true) : kind = c.decision := by
  cases c <;> cases kind <;> first | rfl | cases hkind

theorem Collection.decides_decision (hc : c ≠ .allSettled) : c.decides c.decision = true := by
  cases c <;> first | rfl | exact absurd rfl hc

theorem Collection.decision_ne_announcement (c : Collection) : c.decision ≠ c.announcement := by
  cases c <;> exact nofun

theorem Collection.Announces.settles {Shows : Value → Object → Prop} {s : PromiseState}
    {contents : List Value} (h : c.Announces Shows s contents) : ∃ v, s = c.announcement.state v := by
  cases c with
  | all | allSettled =>
    obtain ⟨list, hs, -⟩ := h
    exact ⟨list, hs⟩
  | any =>
    obtain ⟨error, list, hs, -⟩ := h
    exact ⟨error, hs⟩

/-- What a collection comes to that one kind of settlement decides at once: the outcome of the
input whose callback for that was called first, or else what all inputs have come to. -/
structure World.Comes (w : World H) (since : List (Event H)) (p : PromiseRef) (c : Collection)
    (xs : List Listener) : Prop where
  decided : (∃ v, w.SettledAs c.decision p v) ↔ ∃ x ∈ xs, ∃ v, w.SettledAs c.decision x.input v
  first : ∀ v, w.SettledAs c.decision p v → ∃ x ∈ xs, w.SettledAs c.decision x.input v ∧
    CalledFirst since (fun f => ∃ y ∈ xs, f = y.handler c.decision) (x.handler c.decision) [v]
  announced : (∃ v, w.SettledAs c.announcement p v) ↔
    ∀ x ∈ xs, ∃ v, w.SettledAs c.announcement x.input v
  contents : ∀ v, w.SettledAs c.announcement p v → ∃ vs,
    List.Forall₂ (fun x u => w.SettledAs c.announcement x.input u) xs vs ∧
      c.Announces (w.Shows since) (c.announcement.state v) vs
  pending : w.Pending p ↔
    (∀ x ∈ xs, ∀ v, ¬ w.SettledAs c.decision x.input v) ∧ ∃ x ∈ xs, w.Pending x.input

/-- **The outcome of a collection that has concluded.** -/
theorem World.Concluded.outcome (h : w.Concluded since p c xs) (hc : c ≠ .allSettled) :
    w.Comes since p c xs := by
  cases h with
  | pending hp hindecisive hsome =>
    have hnone : ∀ x ∈ xs, ∀ v, ¬ w.SettledAs c.decision x.input v := by
      intro x hx v hv
      cases (hindecisive x hx _ v hv).symm.trans (Collection.decides_decision hc)
    have hp : w.Pending p := hp
    obtain ⟨x, hx, hpend⟩ := id hsome
    have hpend : w.Pending x.input := hpend
    exact
      { decided := iff_of_false (fun ⟨v, hv⟩ => hp.not_settledAs hv) fun ⟨y, hy, v, hv⟩ =>
          hnone y hy v hv
        first := fun v hv => absurd hv hp.not_settledAs
        announced := iff_of_false (fun ⟨v, hv⟩ => hp.not_settledAs hv) fun hall =>
          (hall x hx).elim fun v hv => hpend.not_settledAs hv
        contents := fun v hv => absurd hv hp.not_settledAs
        pending := iff_of_true hp ⟨hnone, hsome⟩ }
  | decided hd =>
    obtain ⟨x, hx, kind, v, hkind, hfirst, hinput, hresult⟩ := hd
    obtain rfl := Collection.eq_decision hkind
    have hresult : w.SettledAs c.decision p v := hresult
    have hinput : w.SettledAs c.decision x.input v := hinput
    refine
      { decided := iff_of_true ⟨v, hresult⟩ ⟨x, hx, v, hinput⟩
        first := fun u hu => ?_
        announced := iff_of_false
          (fun ⟨u, hu⟩ => c.decision_ne_announcement (hresult.unique hu).1) fun hall =>
            (hall x hx).elim fun u hu => c.decision_ne_announcement (hinput.unique hu).1
        contents := fun u hu => absurd (hresult.unique hu).1 c.decision_ne_announcement
        pending := iff_of_false (fun hp => hp.not_settledAs hresult) fun ⟨hnone, _⟩ =>
          hnone x hx v hinput }
    obtain rfl := (hresult.unique hu).2
    refine ⟨x, hx, hinput, hfirst.of_among ?_⟩
    rintro f ⟨y, hy, rfl⟩
    exact ⟨y, hy, _, hkind, rfl⟩
  | announced ha =>
    have hall : ∀ x ∈ xs, ∃ v, w.SettledAs c.announcement x.input v := by
      intro x hx
      obtain ⟨kind, v, hkind, hs⟩ := ha.settled x hx
      exact ⟨v, Collection.eq_announcement hc hkind ▸ hs⟩
    obtain ⟨contents, hcontents, hannounces⟩ := ha
    obtain ⟨v, hs⟩ := hannounces.settles
    have hresult : w.SettledAs c.announcement p v := hs
    refine
      { decided := iff_of_false
          (fun ⟨u, hu⟩ => c.decision_ne_announcement (hu.unique hresult).1) fun ⟨x, hx, u, hu⟩ =>
            (hall x hx).elim fun u' hu' => c.decision_ne_announcement (hu.unique hu').1
        first := fun u hu => absurd (hu.unique hresult).1 c.decision_ne_announcement
        announced := iff_of_true ⟨v, hresult⟩ hall
        contents := fun u hu => ⟨contents, hcontents.imp fun x content hx => ?_, ?_⟩
        pending := iff_of_false (fun hp => hp.not_settledAs hresult) fun ⟨_, x, hx, hpend⟩ =>
          (hall x hx).elim fun u hu => hpend.not_settledAs hu }
    · obtain ⟨kind, u', hkind, hs', hcontent⟩ := hx
      obtain rfl : content = u' := by
        cases c with
        | all | any => exact hcontent
        | allSettled => exact absurd rfl hc
      exact Collection.eq_announcement hc hkind ▸ hs'
    · obtain rfl := (hresult.unique hu).2
      exact hs ▸ hannounces

/-- What `allSettled` comes to: a record for each input. -/
structure World.SettledOutcome (w : World H) (since : List (Event H)) (p : PromiseRef)
    (xs : List Listener) : Prop where
  fulfilled : (∃ v, w.SettledAs .fulfill p v) ↔ ∀ x ∈ xs, ∃ kind v, w.SettledAs kind x.input v
  records : ∀ v, w.SettledAs .fulfill p v → ∃ records, w.Shows since v (.ofList records) ∧
    List.Forall₂ (fun x record =>
      (∃ u, w.SettledAs .fulfill x.input u ∧
        w.Shows since record (.settlementRecord "fulfilled" "value" u)) ∨
      ∃ u, w.SettledAs .reject x.input u ∧
        w.Shows since record (.settlementRecord "rejected" "reason" u)) xs records
  pending : w.Pending p ↔ ∃ x ∈ xs, w.Pending x.input

theorem World.Concluded.outcome_settled (h : w.Concluded since p .allSettled xs) :
    w.SettledOutcome since p xs := by
  cases h with
  | pending hp _ hsome =>
    have hp : w.Pending p := hp
    obtain ⟨x, hx, hpend⟩ := id hsome
    have hpend : w.Pending x.input := hpend
    exact
      { fulfilled := iff_of_false (fun ⟨v, hv⟩ => hp.not_settledAs hv) fun hall =>
          (hall x hx).elim fun kind ⟨v, hv⟩ => hpend.not_settledAs hv
        records := fun v hv => absurd hv hp.not_settledAs
        pending := iff_of_true hp hsome }
  | decided hd =>
    obtain ⟨x, hx, kind, v, hkind, -⟩ := hd
    cases hkind
  | announced ha =>
    have hall : ∀ x ∈ xs, ∃ kind v, w.SettledAs kind x.input v := by
      intro x hx
      obtain ⟨kind, v, -, hs⟩ := ha.settled x hx
      exact ⟨kind, v, hs⟩
    obtain ⟨records, hrecords, list, hs, hlist⟩ := ha
    have hresult : w.SettledAs .fulfill p list := hs
    refine
      { fulfilled := iff_of_true ⟨list, hresult⟩ hall
        records := fun u hu => ⟨records, ?_, hrecords.imp fun x record hx => ?_⟩
        pending := iff_of_false (fun hp => hp.not_settledAs hresult) fun ⟨x, hx, hpend⟩ =>
          (hall x hx).elim fun kind ⟨v, hv⟩ => World.Pending.not_settledAs hpend hv }
    · obtain rfl := (hresult.unique hu).2
      exact hlist
    · obtain ⟨kind, v, -, hs, hcontent⟩ := hx
      cases kind with
      | fulfill => exact .inl ⟨v, hs, hcontent⟩
      | reject => exact .inr ⟨v, hs, hcontent⟩

/-! ## All -/

/-- What `all` comes to: the values of all inputs in order, or the reason of the input whose
callback for rejections was called first. -/
structure World.AllOutcome (w : World H) (since : List (Event H)) (p : PromiseRef)
    (xs : List Listener) : Prop where
  fulfilled : (∃ v, w.SettledAs .fulfill p v) ↔ ∀ x ∈ xs, ∃ v, w.SettledAs .fulfill x.input v
  values : ∀ v, w.SettledAs .fulfill p v → ∃ vs,
    List.Forall₂ (fun x u => w.SettledAs .fulfill x.input u) xs vs ∧ w.Shows since v (.ofList vs)
  rejected : (∃ v, w.SettledAs .reject p v) ↔ ∃ x ∈ xs, ∃ v, w.SettledAs .reject x.input v
  reason : ∀ v, w.SettledAs .reject p v → ∃ x ∈ xs, w.SettledAs .reject x.input v ∧
    CalledFirst since (fun f => ∃ y ∈ xs, f = y.onRejected) x.onRejected [v]
  pending : w.Pending p ↔
    (∀ x ∈ xs, ∀ v, ¬ w.SettledAs .reject x.input v) ∧ ∃ x ∈ xs, w.Pending x.input

theorem World.Comes.all (h : w.Comes since p .all xs) : w.AllOutcome since p xs where
  fulfilled := h.announced
  values v hv := by
    obtain ⟨vs, hvs, list, hs, hlist⟩ := h.contents v hv
    cases hs
    exact ⟨vs, hvs, hlist⟩
  rejected := h.decided
  reason := h.first
  pending := h.pending

/-- **All.** The promise that `all` answers with is fulfilled with the values of all inputs in
order once these are fulfilled, and it is rejected with the reason of the input whose callback
for rejections was called first, in every state where no job is left. No input is ever reported
from then on. -/
theorem Combining.all_outcome (h : Combining es w m w₁ (.collection .all) items) :
    w₁.Obtains ⟨w.config.engine.promises.size⟩ ∧ ∃ xs, w₁.Inputs items xs ∧
      ∀ since w', w₁.Unimpeded es w m since w' → w'.Unreported xs ∧
        (w'.Idle → w'.AllOutcome since ⟨w.config.engine.promises.size⟩ xs) := by
  obtain ⟨xs, hinputs, hconcludes⟩ := h.concludes
  refine ⟨h.answers, xs, hinputs, fun since w' hw => ⟨h.unreported hinputs hw, fun hidle => ?_⟩⟩
  obtain ⟨-, hconcluded⟩ := hconcludes since w' hw nofun
  exact ((hconcluded hidle).outcome nofun).all

/-- A promise that is given twice is fulfilled after the call, with another value between. -/
theorem Combining.all_outcome_repeated :
    let items : List Value := [.promise ⟨0⟩, .null, .promise ⟨0⟩]
    let w : World Unit := ({} : World Unit).after [.perform .newPromise]
    let w₁ := w.after [.perform (.collect .all items)]
    let later := [.perform (.fulfill ⟨0⟩ (.boolean true)), .perform .runJobs] ++
      List.replicate 10 .tick
    let w' := w₁.after later
    w'.SettledAs .fulfill ⟨1⟩ (.object ⟨0⟩) ∧
      w'.config.engine.object ⟨0⟩ = .ofList [.boolean true, .null, .boolean true] ∧
      ∃ xs, w₁.Inputs items xs ∧ w'.AllOutcome (w₁.events later) ⟨1⟩ xs := by
  intro items w w₁ later w'
  have h := Combining.of_play (.collection .all) items [.perform (.newPromise : Op Unit)]
    (by decide +kernel) (by decide +kernel) (by decide +kernel)
  obtain ⟨-, xs, hinputs, houtcome⟩ := Combining.all_outcome h
  have hw := h.unimpeded later (by decide +kernel) (by decide +kernel) (by decide +kernel)
  exact ⟨by decide +kernel, by decide +kernel, xs, hinputs,
    (houtcome _ _ hw).2 ⟨by decide +kernel, by decide +kernel⟩⟩

/-! ## All settled -/

/-- **All settled.** The promise that `allSettled` answers with is never rejected, and it is
fulfilled with the records of all inputs in order once these are settled, in every state where
no job is left. -/
theorem Combining.settled_outcome (h : Combining es w m w₁ (.collection .allSettled) items) :
    w₁.Obtains ⟨w.config.engine.promises.size⟩ ∧ ∃ xs, w₁.Inputs items xs ∧
      ∀ since w', w₁.Unimpeded es w m since w' →
        (∀ v, ¬ w'.SettledAs .reject ⟨w.config.engine.promises.size⟩ v) ∧
        (w'.Idle → w'.SettledOutcome since ⟨w.config.engine.promises.size⟩ xs) := by
  obtain ⟨xs, hinputs, hconcludes⟩ := h.concludes
  refine ⟨h.answers, xs, hinputs, fun since w' hw => ?_⟩
  obtain ⟨⟨t, hcourse⟩, hconcluded⟩ := hconcludes since w' hw nofun
  refine ⟨fun v hv => ?_, fun hidle => (hconcluded hidle).outcome_settled⟩
  cases hcourse with
  | undecided hundecided =>
    exact World.Pending.not_settledAs
      (hundecided.result.pending (h.run_set_up.trans hw.later)) hv
  | decided hd =>
    obtain ⟨x, hx, kind, u, hkind, -⟩ := hd
    cases hkind
  | announced ha =>
    obtain ⟨contents, -, list, hs, -⟩ := ha
    cases hs.symm.trans hv

/-- One input is rejected and the other one is fulfilled later on. -/
theorem Combining.settled_outcome_mixed :
    let items : List Value := [.promise ⟨0⟩, .promise ⟨1⟩]
    let w : World Unit := ({} : World Unit).after [.perform .newPromise, .perform .newPromise]
    let w₁ := w.after [.perform (.collect .allSettled items)]
    let later := [.perform (.reject ⟨0⟩ .null), .perform (.fulfill ⟨1⟩ (.boolean true)),
      .perform .runJobs] ++ List.replicate 7 .tick
    let w' := w₁.after later
    w'.SettledAs .fulfill ⟨2⟩ (.object ⟨2⟩) ∧
      w'.config.engine.object ⟨0⟩ = .settlementRecord "rejected" "reason" .null ∧
      w'.config.engine.object ⟨1⟩ = .settlementRecord "fulfilled" "value" (.boolean true) ∧
      w'.config.engine.object ⟨2⟩ = .ofList [.object ⟨0⟩, .object ⟨1⟩] ∧
      ∃ xs, w₁.Inputs items xs ∧ w'.SettledOutcome (w₁.events later) ⟨2⟩ xs := by
  intro items w w₁ later w'
  have h := Combining.of_play (.collection .allSettled) items
    [.perform .newPromise, .perform (.newPromise : Op Unit)]
    (by decide +kernel) (by decide +kernel) (by decide +kernel)
  obtain ⟨-, xs, hinputs, houtcome⟩ := Combining.settled_outcome h
  have hw := h.unimpeded later (by decide +kernel) (by decide +kernel) (by decide +kernel)
  exact ⟨by decide +kernel, by decide +kernel, by decide +kernel, by decide +kernel, xs, hinputs,
    (houtcome _ _ hw).2 ⟨by decide +kernel, by decide +kernel⟩⟩

/-! ## Any -/

/-- What `any` comes to: the value of the input whose callback for fulfilments was called first,
or the reasons of all inputs in order. -/
structure World.AnyOutcome (w : World H) (since : List (Event H)) (p : PromiseRef)
    (xs : List Listener) : Prop where
  fulfilled : (∃ v, w.SettledAs .fulfill p v) ↔ ∃ x ∈ xs, ∃ v, w.SettledAs .fulfill x.input v
  value : ∀ v, w.SettledAs .fulfill p v → ∃ x ∈ xs, w.SettledAs .fulfill x.input v ∧
    CalledFirst since (fun f => ∃ y ∈ xs, f = y.onFulfilled) x.onFulfilled [v]
  rejected : (∃ v, w.SettledAs .reject p v) ↔ ∀ x ∈ xs, ∃ v, w.SettledAs .reject x.input v
  errors : ∀ v, w.SettledAs .reject p v → ∃ list vs,
    List.Forall₂ (fun x u => w.SettledAs .reject x.input u) xs vs ∧
      w.Shows since list (.ofList vs) ∧ w.Shows since v
        ((Object.error "AggregateError" "All promises were rejected").set "errors" list)
  pending : w.Pending p ↔
    (∀ x ∈ xs, ∀ v, ¬ w.SettledAs .fulfill x.input v) ∧ ∃ x ∈ xs, w.Pending x.input

theorem World.Comes.any (h : w.Comes since p .any xs) : w.AnyOutcome since p xs where
  fulfilled := h.decided
  value := h.first
  rejected := h.announced
  errors v hv := by
    obtain ⟨vs, hvs, error, list, hs, hlist, herror⟩ := h.contents v hv
    cases hs
    exact ⟨list, vs, hvs, hlist, herror⟩
  pending := h.pending

/-- A collection of nothing has concluded from the start. -/
theorem World.Course.concluded_of_nil {t : TallyRef} {own : FunctionRef → Prop}
    (hw : w.Course es since t p own c []) : w.Concluded since p c [] := by
  cases hw with
  | undecided _ ht =>
    have hlacking := ht.lacking
    rw [ht.outstanding, List.length_eq_zero_iff.1 ht.length] at hlacking
    cases hlacking
  | decided hd => exact .decided hd
  | announced ha => exact .announced ha

/-- **Any.** The promise that `any` answers with is fulfilled with the value of the input whose
callback for fulfilments was called first, and it is rejected with the reasons of all inputs in
order once these are rejected, in every state where no job is left. Without inputs it is rejected
from the start. -/
theorem Combining.any_outcome (h : Combining es w m w₁ (.collection .any) items) :
    w₁.Obtains ⟨w.config.engine.promises.size⟩ ∧ ∃ xs, w₁.Inputs items xs ∧
      ∀ since w', w₁.Unimpeded es w m since w' → w'.Flat items →
        (w'.Idle ∨ items = [] → w'.AnyOutcome since ⟨w.config.engine.promises.size⟩ xs) := by
  obtain ⟨xs, hinputs, hconcludes⟩ := h.concludes
  refine ⟨h.answers, xs, hinputs, fun since w' hw hflat => ?_⟩
  obtain ⟨⟨t, hcourse⟩, hconcluded⟩ := hconcludes since w' hw fun _ => hflat
  rintro (hidle | rfl)
  · exact ((hconcluded hidle).outcome nofun).any
  · obtain rfl : xs = [] := List.forall₂_nil_left_iff.1 hinputs.represents
    exact (hcourse.concluded_of_nil.outcome nofun).any

/-- The only promise among the inputs is rejected. -/
theorem Combining.any_outcome_repeated :
    let items : List Value := [.promise ⟨0⟩, .promise ⟨0⟩]
    let w : World Unit := ({} : World Unit).after [.perform .newPromise]
    let w₁ := w.after [.perform (.collect .any items)]
    let later := [.perform (.reject ⟨0⟩ .null), .perform .runJobs] ++ List.replicate 7 .tick
    let w' := w₁.after later
    w'.SettledAs .reject ⟨1⟩ (.object ⟨1⟩) ∧
      w'.config.engine.object ⟨1⟩ =
        (Object.error "AggregateError" "All promises were rejected").set "errors" (.object ⟨0⟩) ∧
      w'.config.engine.object ⟨0⟩ = .ofList [.null, .null] ∧
      ∃ xs, w₁.Inputs items xs ∧ w'.AnyOutcome (w₁.events later) ⟨1⟩ xs := by
  intro items w w₁ later w'
  have h := Combining.of_play (.collection .any) items [.perform (.newPromise : Op Unit)]
    (by decide +kernel) (by decide +kernel) (by decide +kernel)
  obtain ⟨-, xs, hinputs, houtcome⟩ := Combining.any_outcome h
  have hw := h.unimpeded later (by decide +kernel) (by decide +kernel) (by decide +kernel)
  have hflat : w'.Flat items := by
    intro p hp q
    obtain rfl : p = ⟨0⟩ := by simpa [items] using hp
    have hstate : w'.SettledAs .reject ⟨0⟩ .null := by decide +kernel
    rw [show (w'.config.engine.promise ⟨0⟩).state = _ from hstate]
    exact nofun
  exact ⟨by decide +kernel, by decide +kernel, by decide +kernel, xs, hinputs,
    houtcome _ _ hw hflat (.inl ⟨by decide +kernel, by decide +kernel⟩)⟩

end Outcomes

end Microtask
