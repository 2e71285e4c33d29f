import Microtask.Proofs.Combinator.Outcomes
import Microtask.Proofs.Promise.Settlements

/-!
# Races

All inputs of a race share two functions, and the first one that is called decides
(`Combining.race_outcome`). As long as the host takes no jobs off the queue itself, that is the
one whose job is foremost in the queue (`Engine.Foremost`), and so it is told by the order in
which the inputs have been settled: at the call the first input in the list wins that has been
settled, and if there is none, the first one that is settled afterwards (`World.FirstSettled`).
-/

namespace Microtask

variable {H : Type}

/-! ## The order of jobs -/

/-- The function that a job calls. -/
def Job.handler? : Job H → Option FunctionRef
  | .reaction r _ => r.handler
  | .adoption _ _ | .callback _ _ => none

/-- The first job in the queue that calls one of the functions calls the given one, with the
value. -/
def Engine.Foremost (e : Engine H) (own : FunctionRef → Prop) (f : FunctionRef) (v : Value) : Prop :=
  ∃ before r after, e.waitingJobs = before ++ .reaction r v :: after ∧ r.handler = some f ∧
    ∀ j ∈ before, ∀ g ∈ j.handler?, ¬ own g

section Queue

variable {w w' : World H} {m : Move H} {own : FunctionRef → Prop}

/-- Jobs are only added to the end of the queue, and a drain takes the first one. -/
theorem Step.queue_cases (h : Step w m w') (hm : m.clears = false) (hpop : m ≠ .perform .popJob)
    (hbacked : w.config.engine.Backed) :
    ∃ new, w'.config.engine.waitingJobs = w.config.engine.waitingJobs ++ new ∨
      ∃ id d j jobs rest, w'.config = ({ w.config.engine with jobs } : Engine H).runJob id d j ∧
        w.config.engine.waitingJobs = j :: rest ∧
        w'.config.engine.waitingJobs = rest ++ new := by
  obtain ⟨new, hr⟩ := h.recounted hbacked
  have hjobs := hr.waitingJobs
  cases hc : w.chore m with
  | nothing | report | handOver =>
    rw [hc] at hjobs
    exact ⟨_, .inl hjobs⟩
  | put j =>
    rw [hc, Chore.apply, Engine.waitingJobs_enqueue, List.append_assoc] at hjobs
    exact ⟨_, .inl hjobs⟩
  | clear => exact absurd hc (World.chore_ne_clear (by rintro rfl; cases hm))
  | reset => exact absurd hc (World.chore_ne_reset (by rintro rfl; cases hm))
  | next =>
    cases h with
    | tick c held =>
      cases hd : c.control with
      | drain d =>
        obtain ⟨hround, -⟩ | ⟨hround, -⟩ | ⟨-, id, j, jobs, d', htaken, ht⟩ :=
          World.round (w := ⟨c, held⟩) hd
        · cases hround.symm.trans hc
        · cases hround.symm.trans hc
        · rw [hc, Chore.apply_next htaken] at hjobs
          exact ⟨_, .inr ⟨id, d', j, jobs, _, ht, Engine.waitingJobs_pop htaken, hjobs⟩⟩
      | _ =>
        simp only [World.chore, hd] at hc
        cases hc
    | @perform e a prompt held op hop =>
      cases op with
      | popJob => exact absurd rfl hpop
      | _ => cases hc
    | _ => cases hc

/-- Without taking jobs off the queue the host has no more of them. -/
theorem Step.held_subset (h : Step w m w') (hpop : m ≠ .perform .popJob) : w'.held ⊆ w.held := by
  cases h with
  | @perform e a prompt held op hop =>
    cases op with
    | popJob => exact absurd rfl hpop
    | _ => exact List.Subset.refl _
  | @putBack e a prompt before after j =>
    exact ((List.sublist_cons_self j after).append_left before).subset
  | _ => exact List.Subset.refl _

/-- The foremost job stays so until it is run. -/
theorem Step.foremost (h : Step w m w') (hm : m.clears = false) (hpop : m ≠ .perform .popJob)
    (hbacked : w.config.engine.Backed) {f : FunctionRef} {v : Value}
    (hf : w.config.engine.Foremost own f v) :
    w'.config.engine.Foremost own f v ∨ ∃ k, w'.config.control = .call f [v] k := by
  obtain ⟨before, r, after, hjobs, hr, hbefore⟩ := hf
  obtain ⟨new, hw' | ⟨id, d, j, jobs, rest, hrun, hw, hw'⟩⟩ := h.queue_cases hm hpop hbacked
  · refine .inl ⟨before, r, after ++ new, ?_, hr, hbefore⟩
    rw [hw', hjobs, List.append_assoc]
    rfl
  · rw [hjobs] at hw
    cases before with
    | nil =>
      right
      cases hw
      obtain ⟨kind, handler, capability⟩ := r
      cases hr
      exact ⟨_, congrArg Config.control hrun⟩
    | cons b before =>
      cases hw
      refine .inl ⟨before, r, after ++ new, ?_, hr, fun j hj => hbefore j (List.mem_cons_of_mem _ hj)⟩
      rw [hw']
      exact List.append_assoc before _ new

end Queue

/-! ## Races under way -/

section Races

variable {w w₁ w' : World H} {m : Move H} {es since : List (Event H)} {p : PromiseRef}
  {own : FunctionRef → Prop} {xs : List Listener} {x : Listener} {kind : Settling} {v : Value}
  {items : List Value}

/-- A race that none of its functions has decided yet. -/
abbrev World.Racing (w : World H) (es since : List (Event H)) (p : PromiseRef)
    (own : FunctionRef → Prop) (xs : List Listener) : Prop :=
  w.Undecided es since p own (fun _ => true) xs

/-- **A race is under way, or it has been decided** by the function that was called first. -/
theorem Steps.race (hrun : Run es w) (h : Steps w since w') (hes : ∀ ev ∈ since, ev.move.Lossless)
    (hhost : ¬ HostDecides own p (since ++ es))
    (hv : ∀ x ∈ xs, ∀ q, (w'.config.engine.promise x.input).state ≠ .fulfilled (.promise q))
    (hw : w.Racing es [] p own xs) :
    w'.Racing (since ++ es) since p own xs ∨ w'.DecidedBy since p (fun _ => true) xs := by
  induction h with
  | refl => exact .inl hw
  | @step since w₁ w' m h hs ih =>
    obtain ⟨hm, hes⟩ := List.forall_mem_cons.1 hes
    have hrun₁ : Run (since ++ es) w₁ := hrun.trans h
    have hv₁ : ∀ x ∈ xs, ∀ q, (w₁.config.engine.promise x.input).state ≠ .fulfilled (.promise q) :=
      fun x hx => (Steps.refl.step hs).not_fulfilled_before hrun₁.lawful (hv x hx)
    rcases ih hes (fun hearlier => hhost (.earlier hearlier)) hv₁ with hracing | hdecided
    · obtain ⟨hracing', -⟩ | hdecided | ⟨x, kind, v, k, hreports⟩ :=
        hs.undecided hm hrun₁ hracing hhost fun _ => hv₁
      · exact .inl hracing'
      · exact .inr hdecided
      · cases hreports.2.1
    · exact .inr (hs.decidedBy hrun₁.lawful hdecided)

/-- A function that begins to be called has been called by the first job. -/
theorem Step.own_call (h : Step w m w') (hconfines : w.Confines own xs)
    (hhost : ∀ f ∈ m.functions, ¬ own f) {f : FunctionRef} {args : List Value} {k : Caller H}
    (hc : w'.config.control = .call f args k) (hown : own f) :
    ∃ r v rest, w.config.engine.waitingJobs = .reaction r v :: rest ∧ r.handler = some f ∧
      args = [v] := by
  cases h.begins hc with
  | job hm hd hpop hr hargs => exact ⟨_, _, _, Engine.waitingJobs_pop hpop, hr, hargs⟩
  | host hmem => exact absurd hown (hhost f hmem)
  | @afterwards g _ _ kind _ _ hcode => exact absurd hown (hconfines.ledger.afterwards g f kind hcode)

/-- A race goes on as long as none of its functions is called. -/
theorem Step.racing (h : Step w m w') (hm : m.Lossless) (hrun : Run es w)
    (hw : w.Racing es since p own xs) (hcall : ∀ f ∈ w.config.control.callee?, ¬ own f)
    (hhost : ¬ HostDecides own p (⟨w, m⟩ :: es)) :
    w'.Racing (⟨w, m⟩ :: es) (⟨w, m⟩ :: since) p own xs := by
  refine h.undecided_of_open hm hrun hw hhost (h.open_of_passing hm hrun hw.result hcall hhost) ?_
  rintro f hf ⟨y, hy, kind, -, rfl⟩
  exact hcall _ hf (hw.owns y hy kind)

/-- The result is on its way to being settled like the input of the listener. -/
inductive World.Winning (w : World H) (es since : List (Event H)) (p : PromiseRef)
    (own : FunctionRef → Prop) (xs : List Listener) (x : Listener) (kind : Settling) (v : Value) :
    Prop where
  | queued : w.Racing es since p own xs → (∀ f ∈ w.config.control.callee?, ¬ own f) →
      w.config.engine.Foremost own (x.handler kind) v → Winning w es since p own xs x kind v
  | calling {k : Caller H} : w.Racing es since p own xs →
      w.config.control = .call (x.handler kind) [v] k → Winning w es since p own xs x kind v
  | settled : w.SettledAs kind p v → Winning w es since p own xs x kind v

/-- **Whoever is foremost wins.** -/
theorem Step.winning (h : Step w m w') (hm : m.Lossless) (hpop : m ≠ .perform .popJob)
    (hrun : Run es w) (hhost : ¬ HostDecides own p (⟨w, m⟩ :: es)) (hx : x ∈ xs)
    (hv : kind = .fulfill → ∀ q, v ≠ .promise q) (hw : w.Winning es since p own xs x kind v) :
    w'.Winning (⟨w, m⟩ :: es) (⟨w, m⟩ :: since) p own xs x kind v := by
  cases hw with
  | queued hracing hcall hforemost =>
    have hracing' := h.racing hm hrun hracing hcall hhost
    have hfunctions := HostDecides.functions hhost ⟨w, m⟩ List.mem_cons_self
    by_cases hcall' : ∀ f ∈ w'.config.control.callee?, ¬ own f
    · rcases h.foremost hm.clears hpop (Run.backed hrun) hforemost with hforemost' | ⟨k, hc⟩
      · exact .queued hracing' hcall' hforemost'
      · refine absurd (hracing.owns x hx kind) (hcall' (x.handler kind) ?_)
        rw [hc]
        rfl
    · -- the first job of all has called a function, so it is the foremost one
      push Not at hcall'
      obtain ⟨f, hf, hown⟩ := hcall'
      obtain ⟨args, k, hc⟩ := Control.exists_callee hf
      obtain ⟨r, u, rest, hjobs, hr, rfl⟩ := h.own_call hracing.confines hfunctions hc hown
      obtain ⟨before, r', after, hjobs', hr', hbefore⟩ := hforemost
      cases before with
      | nil =>
        obtain ⟨hjob, -⟩ := List.cons.inj (hjobs.symm.trans hjobs')
        cases hjob
        obtain rfl := Option.some.inj (hr.symm.trans hr')
        exact .calling hracing' hc
      | cons b before =>
        obtain ⟨rfl, -⟩ := List.cons.inj (hjobs.symm.trans hjobs')
        exact absurd hown (hbefore _ List.mem_cons_self f hr)
  | calling hracing hc =>
    exact .settled (h.decided hrun hracing.result hc (hracing.does x hx kind rfl) hv)
  | settled hp => exact .settled (h.keeps_state hrun.lawful hp)

theorem Steps.winning (hrun : Run es w) (h : Steps w since w')
    (hes : ∀ ev ∈ since, ev.move.Lossless ∧ ev.move ≠ .perform .popJob)
    (hhost : ¬ HostDecides own p (since ++ es)) (hx : x ∈ xs)
    (hv : kind = .fulfill → ∀ q, v ≠ .promise q) (hw : w.Winning es [] p own xs x kind v) :
    w'.Winning (since ++ es) since p own xs x kind v := by
  induction h with
  | refl => exact hw
  | @step since w₁ w' m h hs ih =>
    obtain ⟨⟨hm, hpop⟩, hes⟩ := List.forall_mem_cons.1 hes
    exact hs.winning hm hpop (hrun.trans h) hhost hx hv
      (ih hes fun hearlier => hhost (.earlier hearlier))

/-- When no job is left, the winner has won. -/
theorem World.Winning.settled_of_idle (hw : w.Winning es since p own xs x kind v)
    (hidle : w.Idle) : w.SettledAs kind p v := by
  cases hw with
  | queued hracing hcall hforemost =>
    obtain ⟨before, r, after, hjobs, -⟩ := hforemost
    have hnone := (List.append_eq_nil_iff.1 hidle.2).1
    rw [hjobs] at hnone
    exact absurd (List.append_eq_nil_iff.1 hnone).2 nofun
  | calling hracing hc =>
    have hhost := hidle.1
    rw [Config.atHost, hc] at hhost
    cases hhost
  | settled hp => exact hp

/-! ## The first one in the list -/

/-- The jobs of a run call functions that exist. -/
theorem Run.handler_lt (hrun : Run es w) {j : Job H} (hj : j ∈ w.jobs) {f : FunctionRef}
    (hf : f ∈ j.handler?) : f.index < w.config.engine.callables.size := by
  cases j with
  | reaction r v =>
    obtain ⟨d, hd⟩ : ∃ d, w.config.engine.Bears r d :=
      (Run.exclusive hrun).lawful.sound.jobs (.reaction r v) hj
    exact hd.allocated hf
  | _ => cases hf

/-- **At the set-up the first input in the list is foremost** that has been settled. -/
theorem Combining.foremost (h : Combining es w m w₁ .race items)
    (hc : w.config.engine.Combines w₁.config.engine (fun _ => true) items xs)
    {before after : List Listener} (hxs : xs = before ++ x :: after)
    (hbefore : ∀ y ∈ before, w₁.Pending y.input) (hx : w₁.SettledAs kind x.input v) :
    w₁.config.engine.Foremost (w.Made w₁) (x.handler kind) v := by
  have hnone : (before.flatMap fun y => (y.jobs (w₁.config.engine.promise y.input).state :
      List (Job H))) = [] := by
    refine List.flatMap_eq_nil_iff.2 fun y hy => ?_
    rw [show (w₁.config.engine.promise y.input).state = .pending from hbefore y hy]
    rfl
  have hjobs := hc.equips.waitingJobs
  rw [hxs, List.flatMap_append, hnone, List.nil_append, List.flatMap_cons,
    show (w₁.config.engine.promise x.input).state = kind.state v from hx, x.jobs_settled] at hjobs
  rw [x.job_eq] at hjobs
  refine ⟨w.config.engine.waitingJobs, x.reaction kind, _, hjobs, by rw [x.reaction_eq],
    fun j hj f hf hown => ?_⟩
  exact Nat.not_lt_of_le hown.1 (h.run.handler_lt (List.mem_append_left _ hj) hf)

/-! ## The first one afterwards -/

/-- No promise is ever lost. -/
theorem Steps.promises_le (h : Steps w since w') (hw : w.Lawful) :
    w.config.engine.promises.size ≤ w'.config.engine.promises.size :=
  h.relate (R := fun a b => a.config.engine.promises.size ≤ b.config.engine.promises.size)
    (fun _ => le_rfl) le_trans (fun hs hw => ⟨(hs.lawful hw).1, (hs.grows hw.1).promises⟩) hw

/-- The promise of the listener has been settled in the course of the events, by a step before
which all of them were pending, and none of the others has been settled by that. -/
def World.FirstSettled (w₁ : World H) (since : List (Event H)) (w' : World H) (xs : List Listener)
    (x : Listener) : Prop :=
  ∃ later ev earlier w₂, since = later ++ ev :: earlier ∧ Steps w₁ (ev :: earlier) w₂ ∧
    Steps w₂ later w' ∧ (∀ y ∈ xs, ev.before.Pending y.input) ∧ ¬ w₂.Pending x.input ∧
      ∀ y ∈ xs, ¬ w₂.Pending y.input → y.input = x.input

theorem World.FirstSettled.step (h : w₁.FirstSettled since w xs x) (hs : Step w m w') :
    w₁.FirstSettled (⟨w, m⟩ :: since) w' xs x := by
  obtain ⟨later, ev, earlier, w₂, rfl, h₁, h₂, hall⟩ := h
  exact ⟨⟨w, m⟩ :: later, ev, earlier, w₂, rfl, h₁, h₂.step hs, hall⟩

/-- All inputs of a race are pending, and none of its functions is being called. -/
structure World.Waiting (w : World H) (es since : List (Event H)) (p : PromiseRef)
    (own : FunctionRef → Prop) (xs : List Listener) : Prop where
  racing : w.Racing es since p own xs
  uncalled : ∀ f ∈ w.config.control.callee?, ¬ own f
  pending : ∀ x ∈ xs, w.Pending x.input

/-- No function of the race has a job. -/
theorem World.Waiting.not_own (hw : w.Waiting es since p own xs) {r : Reaction}
    (hj : .reaction r v ∈ w.jobs) {f : FunctionRef} (hf : r.handler = some f) : ¬ own f := by
  intro hown
  obtain ⟨x, hx, kind, -, hs⟩ := hw.racing.confines.ledger.job r v hj f hf hown
  exact (hw.pending x hx).not_settledAs hs

/-- **Whoever is settled first is foremost.** -/
theorem Step.waiting (h : Step w m w') (hm : m.Lossless) (hpop : m ≠ .perform .popJob)
    (hrun : Run es w) (hhost : ¬ HostDecides own p (⟨w, m⟩ :: es))
    (hattends : ∀ x ∈ xs, w'.Attends (⟨w, m⟩ :: since) x) (hw : w.Waiting es since p own xs) :
    w'.Waiting (⟨w, m⟩ :: es) (⟨w, m⟩ :: since) p own xs ∨
      ∃ x ∈ xs, ∃ kind v, w'.SettledAs kind x.input v ∧
        w'.Winning (⟨w, m⟩ :: es) (⟨w, m⟩ :: since) p own xs x kind v := by
  have hracing := h.racing hm hrun hw.racing hw.uncalled hhost
  have hcall : ∀ f ∈ w'.config.control.callee?, ¬ own f := by
    intro f hf hown
    obtain ⟨args, k, hc⟩ := Control.exists_callee hf
    obtain ⟨r, v, rest, hjobs, hr, -⟩ := h.own_call hw.racing.confines
      (HostDecides.functions hhost ⟨w, m⟩ List.mem_cons_self) hc hown
    exact hw.not_own (List.mem_append_left _ (hjobs ▸ List.mem_cons_self)) hr hown
  by_cases hpend : ∀ x ∈ xs, w'.Pending x.input
  · exact .inl ⟨hracing, hcall, hpend⟩
  right
  push Not at hpend
  obtain ⟨x, hx, hpend⟩ := hpend
  -- the job of the input waits in the queue, so there is a first one
  obtain ⟨kind, v, hjob⟩ : ∃ kind v, x.job kind v ∈ w'.config.engine.waitingJobs := by
    cases hattends x hx with
    | waiting hl => exact absurd hl.pending hpend
    | @queued kind v hs hj =>
      refine ⟨kind, v, (List.mem_append.1 hj).resolve_right fun hheld => ?_⟩
      rw [x.job_eq] at hheld
      exact hw.not_own (List.mem_append_right _ (h.held_subset hpop hheld))
        (by rw [x.reaction_eq]) (hw.racing.owns x hx kind)
    | @calling kind v k hs hc =>
      exact absurd (hw.racing.owns x hx kind) (hcall _ (by rw [hc]; rfl))
    | @called kind v hs hc => exact absurd hc (hracing.uncalled _ _ ⟨x, hx, kind, rfl, rfl⟩)
  classical
  have hsome : (w'.config.engine.waitingJobs.find? fun j => ∃ f ∈ j.handler?, own f).isSome :=
    List.find?_isSome.2 ⟨_, hjob, decide_eq_true
      ⟨x.handler kind, by rw [x.job_eq, x.reaction_eq]; rfl, hracing.owns x hx kind⟩⟩
  obtain ⟨j, hfirst⟩ := Option.isSome_iff_exists.1 hsome
  obtain ⟨hj, before, after, hjobs, hbefore⟩ := List.find?_eq_some_iff_append.1 hfirst
  obtain ⟨f, hf, hown⟩ := of_decide_eq_true hj
  cases j with
  | reaction r u =>
    obtain ⟨y, hy, kind', rfl, hs⟩ := hracing.confines.ledger.job r u
      (List.mem_append_left _ (hjobs ▸ List.mem_append_right _ List.mem_cons_self)) f hf hown
    refine ⟨y, hy, kind', u, hs, .queued hracing hcall
      ⟨before, r, after, hjobs, hf, fun j hj g hg hown => ?_⟩⟩
    have hnot := hbefore j hj
    rw [Bool.not_eq_true', decide_eq_false_iff_not] at hnot
    exact hnot ⟨g, hg, hown⟩
  | _ => cases hf

/-- **All inputs are pending, or the one that is settled first is on its way to winning.** -/
theorem Steps.waiting (hrun : Run es w₁) (h : Steps w₁ since w')
    (hes : ∀ ev ∈ since, ev.move.Lossless ∧ ev.move ≠ .perform .popJob)
    (hhost : ¬ HostDecides own p (since ++ es))
    (hv : ∀ x ∈ xs, ∀ q, (w'.config.engine.promise x.input).state ≠ .fulfilled (.promise q))
    (hattends : ∀ x ∈ xs, w₁.Attends [] x)
    (hinputs : ∀ x ∈ xs, x.input.index < w₁.config.engine.promises.size)
    (hw : w₁.Waiting es [] p own xs) :
    w'.Waiting (since ++ es) since p own xs ∨
      ∃ x ∈ xs, ∃ kind v, w₁.FirstSettled since w' xs x ∧ w'.SettledAs kind x.input v ∧
        w'.Winning (since ++ es) since p own xs x kind v := by
  induction h with
  | refl => exact .inl hw
  | @step since w w' m h hs ih =>
    have hclears : ∀ ev ∈ ⟨w, m⟩ :: since, ev.move.clears = false :=
      fun ev hev => (hes ev hev).1.clears
    have hattends' : ∀ x ∈ xs, w'.Attends (⟨w, m⟩ :: since) x := fun x hx =>
      (h.step hs).attends hclears hrun.lawful (hattends x hx)
    obtain ⟨⟨hm, hpop⟩, hes⟩ := List.forall_mem_cons.1 hes
    have hrun₁ : Run (since ++ es) w := hrun.trans h
    have hv₁ : ∀ x ∈ xs, ∀ q, (w.config.engine.promise x.input).state ≠ .fulfilled (.promise q) :=
      fun x hx => (Steps.refl.step hs).not_fulfilled_before hrun₁.lawful (hv x hx)
    rcases ih hes (fun hearlier => hhost (.earlier hearlier)) hv₁ with
      hwaiting | ⟨x, hx, kind, v, hfirst, hs', hwinning⟩
    · rcases hs.waiting hm hpop hrun₁ hhost hattends' hwaiting with
        hwaiting' | ⟨x, hx, kind, v, hs', hwinning⟩
      · exact .inl hwaiting'
      · -- no other input has been settled by the same step
        refine .inr ⟨x, hx, kind, v, ⟨[], _, since, w', rfl, h.step hs, .refl, hwaiting.pending,
          fun hp => hp.not_settledAs hs', fun y hy hsettled => ?_⟩, hs', hwinning⟩
        have hlt : ∀ z ∈ xs, z.input.index < w.config.engine.promises.size := fun z hz =>
          (hinputs z hz).trans_le (h.promises_le hrun.lawful)
        refine hs.settles_one hm.clears (Run.backed hrun₁) (hlt y hy) (hlt x hx) ?_ ?_
        · rw [show (w.config.engine.promise y.input).state = .pending from hwaiting.pending y hy]
          exact hsettled
        · rw [show (w.config.engine.promise x.input).state = .pending from hwaiting.pending x hx]
          exact fun hp => World.Pending.not_settledAs hp hs'
    · refine .inr ⟨x, hx, kind, v, hfirst.step hs, hs.keeps_state hrun₁.lawful hs',
        hs.winning hm hpop hrun₁ hhost hx ?_ hwinning⟩
      rintro rfl q rfl
      exact hv₁ x hx q hs'

/-! ## Outcomes -/

/-- What a race comes to, from its set-up on: the outcome of the input whose callback was called
first. If the host takes no jobs off the queue itself, that is the first input in the list that
has been settled before, or else the one that is settled first afterwards. -/
structure World.RaceOutcome (w₁ : World H) (since : List (Event H)) (w : World H) (p : PromiseRef)
    (xs : List Listener) : Prop where
  settled : (∃ kind v, w.SettledAs kind p v) ↔ ∃ x ∈ xs, ∃ kind v, w.SettledAs kind x.input v
  winner : ∀ kind v, w.SettledAs kind p v → ∃ x ∈ xs, w.SettledAs kind x.input v ∧
    CalledFirst since (fun f => ∃ y ∈ xs, ∃ kind, f = y.handler kind) (x.handler kind) [v]
  early : (∀ ev ∈ since, ev.move ≠ .perform .popJob) → ∀ before x after kind v,
    xs = before ++ x :: after → (∀ y ∈ before, w₁.Pending y.input) →
      w₁.SettledAs kind x.input v → w.SettledAs kind p v
  late : (∀ ev ∈ since, ev.move ≠ .perform .popJob) → (∀ x ∈ xs, w₁.Pending x.input) →
    ∀ kind v, w.SettledAs kind p v →
      ∃ x ∈ xs, w₁.FirstSettled since w xs x ∧ w.SettledAs kind x.input v

/-- **A race that none of its functions has decided has only pending inputs**, when no job is
left. -/
theorem World.Undecided.pending_of_idle (hw : w.Racing es since p own xs) (hidle : w.Idle)
    (hattends : ∀ x ∈ xs, w.Attends since x) : ∀ x ∈ xs, w.Pending x.input := by
  intro x hx
  refine World.pending_iff.2 fun kind v hs => ?_
  exact hw.uncalled _ _ ⟨x, hx, kind, rfl, rfl⟩ ((hattends x hx).called_of_idle hidle.1 hidle.2 hs)

/-- **Race.** The promise that `race` answers with is settled like the input whose callback was
called first, as soon as one is settled, in every state where no job is left. What it has been
settled with stays, and no input is ever reported. -/
theorem Combining.race_outcome (h : Combining es w m w₁ .race items) :
    w₁.Obtains ⟨w.config.engine.promises.size⟩ ∧ ∃ xs, w₁.Inputs items xs ∧
      ∀ since w', w₁.Unimpeded es w m since w' → w'.Unreported xs ∧
        (∀ later w'', Steps w' later w'' → ∀ kind v,
          w'.SettledAs kind ⟨w.config.engine.promises.size⟩ v →
            w''.SettledAs kind ⟨w.config.engine.promises.size⟩ v) ∧
        (w'.Flat items → w'.Idle →
          w₁.RaceOutcome since w' ⟨w.config.engine.promises.size⟩ xs) := by
  obtain ⟨xs, hc⟩ := Engine.race_sets_up h.exist
  rw [← show w₁.config.engine = (w.config.engine.race items).2 from h.engine] at hc
  have hracing := h.makes.undecided h.run h.step hc
  have huncalled : ∀ f ∈ w₁.config.control.callee?, ¬ w.Made w₁ f := by
    obtain ⟨a, ha⟩ := h.answers
    rw [ha]
    exact nofun
  refine ⟨h.answers, xs, hc.inputs, fun since w' hw => ⟨h.unreported hc.inputs hw, ?_, ?_⟩⟩
  · intro later w'' hlater kind v hs
    have hrun : Run _ w' := h.run_set_up.trans hw.later
    exact ((hlater.persists hrun.lawful _).settled (hs ▸ kind.state_ne_pending v)).trans hs
  intro hflat hidle
  have hv := h.flat_inputs hc.inputs hw hflat
  have hattends := h.attends hc.inputs hw
  have hrace := Steps.race h.run_set_up hw.later hw.lossless hw.host hv hracing
  have hpending : ∀ {kind v}, w'.SettledAs kind ⟨w.config.engine.promises.size⟩ v →
      ¬ w'.Racing (since ++ ⟨w, m⟩ :: es) since ⟨w.config.engine.promises.size⟩ (w.Made w₁) xs :=
    fun hs hracing' =>
      World.Pending.not_settledAs (hracing'.result.pending (h.run_set_up.trans hw.later)) hs
  have hno : (∀ ev ∈ since, ev.move ≠ .perform .popJob) →
      ∀ ev ∈ since, ev.move.Lossless ∧ ev.move ≠ .perform .popJob :=
    fun hpop ev hev => ⟨hw.lossless ev hev, hpop ev hev⟩
  constructor
  case settled =>
    constructor
    · rintro ⟨kind, v, hs⟩
      obtain ⟨x, hx, kind', v', -, -, hinput, -⟩ := hrace.resolve_left (hpending hs)
      exact ⟨x, hx, kind', v', hinput⟩
    · rintro ⟨x, hx, kind, v, hs⟩
      rcases hrace with hracing' | ⟨-, -, kind', v', -, -, -, hresult⟩
      · exact absurd hs (hracing'.pending_of_idle hidle hattends x hx).not_settledAs
      · exact ⟨kind', v', hresult⟩
  case winner =>
    intro kind v hs
    obtain ⟨x, hx, kind', v', -, hfirst, hinput, hresult⟩ := hrace.resolve_left (hpending hs)
    obtain ⟨rfl, rfl⟩ := World.SettledAs.unique hresult hs
    refine ⟨x, hx, hinput, hfirst.of_among ?_⟩
    rintro f ⟨y, hy, kind, rfl⟩
    exact ⟨y, hy, kind, rfl, rfl⟩
  case early =>
    intro hpop before x after kind v hxs hbefore hs
    have hx : x ∈ xs := hxs ▸ List.mem_append_right _ List.mem_cons_self
    have hs' : w'.SettledAs kind x.input v :=
      ((hw.later.persists h.run_set_up.lawful _).settled (hs ▸ kind.state_ne_pending v)).trans hs
    refine (Steps.winning h.run_set_up hw.later (hno hpop) hw.host hx ?_
      (.queued hracing huncalled (h.foremost hc hxs hbefore hs))).settled_of_idle hidle
    rintro rfl q rfl
    exact hv x hx q hs'
  case late =>
    intro hpop hpend kind v hs
    rcases Steps.waiting h.run_set_up hw.later (hno hpop) hw.host hv hc.inputs.attends
      hc.equips.inputs ⟨hracing, huncalled, hpend⟩ with hwaiting | ⟨x, hx, kind', v', hfirst, hs', hwinning⟩
    · exact absurd hwaiting.racing (hpending hs)
    · obtain ⟨rfl, rfl⟩ := (hwinning.settled_of_idle hidle).unique hs
      exact ⟨x, hx, hfirst, hs'⟩

/-- The second input is fulfilled first, and the first one is rejected after that. -/
theorem Combining.race_outcome_overtaken :
    let items : List Value := [.promise ⟨0⟩, .promise ⟨1⟩]
    let w : World Unit := ({} : World Unit).after [.perform .newPromise, .perform .newPromise]
    let w₁ := w.after [.perform (.race items)]
    let later := [.perform (.fulfill ⟨1⟩ (.boolean true)), .perform (.reject ⟨0⟩ .null),
      .perform .runJobs] ++ List.replicate 7 .tick
    let w' := w₁.after later
    w'.SettledAs .fulfill ⟨2⟩ (.boolean true) ∧ w'.SettledAs .reject ⟨0⟩ .null ∧
      ∃ xs, w₁.Inputs items xs ∧ w'.Unreported xs ∧
        w₁.RaceOutcome (w₁.events later) w' ⟨2⟩ xs := by
  intro items w w₁ later w'
  have h := Combining.of_play .race items [.perform .newPromise, .perform (.newPromise : Op Unit)]
    (by decide +kernel) (by decide +kernel) (by decide +kernel)
  obtain ⟨-, xs, hinputs, houtcome⟩ := Combining.race_outcome h
  have hw := h.unimpeded later (by decide +kernel) (by decide +kernel) (by decide +kernel)
  have hflat : w'.Flat items := by
    have h₀ : w'.SettledAs .reject ⟨0⟩ .null := by decide +kernel
    have h₁ : w'.SettledAs .fulfill ⟨1⟩ (.boolean true) := by decide +kernel
    intro p hp q hq
    obtain rfl | rfl : p = ⟨0⟩ ∨ p = ⟨1⟩ := by simpa [items] using hp
    · cases h₀.symm.trans hq
    · cases h₁.symm.trans hq
  obtain ⟨hunreported, -, hrace⟩ := houtcome _ _ hw
  exact ⟨by decide +kernel, by decide +kernel, xs, hinputs, hunreported,
    hrace hflat ⟨by decide +kernel, by decide +kernel⟩⟩

end Races

end Microtask
