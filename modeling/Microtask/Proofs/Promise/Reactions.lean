import Microtask.Proofs.History

/-!
# Reactions in order

A reaction that is attached early waits in its promise until the promise settles, and
one that is attached late goes to the job queue at once. Both ways lead to one order
(`Engine.Scheduled`): for every promise that has settled, the queue has got one job for
each registration, in the order of the registrations. The queue is first in, first out
(`Chronicle.fifo`), and it is the only place that jobs run from.

Main statement: `Run.reactions_in_order`.
-/

namespace Microtask

variable {H : Type}

/-! ## Registrations and their jobs -/

namespace Registration

variable (r : Registration) (kind : Settling) (v : Value)

def handler : Settling → Option FunctionRef
  | .fulfill => r.onFulfilled
  | .reject => r.onRejected

/-- The reaction to a way of settling. -/
def reaction : Reaction := ⟨kind, r.handler kind, r.capability⟩

/-- The job that a settlement leads to. -/
def job : Job H := .reaction (r.reaction kind) v

/-- The handler is called with the settled value, and its result goes to the capability.
Without a handler the settlement itself goes there. -/
def fire (e : Engine H) (d : Drain H) : Config H :=
  match r.handler kind, r.capability with
  | some f, capability => ⟨e, .call f [v] (.reaction capability d)⟩
  | none, some p => ⟨e.settle p kind v, .drain d⟩
  | none, none => ⟨e, .drain d⟩

theorem runJob_job (e : Engine H) (id : Nat) (d : Drain H) :
    e.runJob id d (r.job kind v) = r.fire kind v e d := by
  simp only [job, reaction, fire, Engine.runJob]
  cases r.handler kind with
  | some f => rfl
  | none => cases r.capability <;> rfl

end Registration

theorem Promise.reactions_attach {r : Promise} (hr : r.state = .pending) (x : Registration)
    (kind : Settling) :
    (r.attach x.onFulfilled x.onRejected x.capability).reactions kind =
      r.reactions kind ++ [x.reaction kind] := by
  unfold attach
  rw [hr]
  cases kind <;> rfl

theorem Promise.reactions_attach_settled {r : Promise} (hr : r.state ≠ .pending)
    (f g : Option FunctionRef) (capability : Option PromiseRef) (kind : Settling) :
    (r.attach f g capability).reactions kind = r.reactions kind := by
  unfold attach
  split
  · next hp => exact absurd hp hr
  · rfl

theorem Promise.attachJobs_pending {r : Promise} (hr : r.state = .pending)
    (f g : Option FunctionRef) (capability : Option PromiseRef) :
    r.attachJobs (H := H) f g capability = [] := by
  rw [attachJobs, hr]

theorem Promise.attachJobs_settled {r : Promise} {kind : Settling} {v : Value}
    (hr : r.state = kind.state v) (x : Registration) :
    r.attachJobs (H := H) x.onFulfilled x.onRejected x.capability = [x.job kind v] := by
  rw [attachJobs, hr]
  cases kind <;> rfl

/-! ## What entries tell -/

/-- The promise whose reactions get jobs when something happens. -/
def Happening.origin? : Happening → Option PromiseRef
  | .registered p _ | .settled p _ _ => some p
  | _ => none

/-- All jobs that were ever queued, in order, each with the promise whose reaction it is. -/
def queuedIn : List (Entry H) → List (Option PromiseRef × Job H)
  | [] => []
  | en :: hs => queuedIn hs ++ en.jobs.map (en.happening.origin?, ·)

/-- The jobs that were queued for the reactions of a promise. -/
def jobsOf (p : PromiseRef) (hs : List (Entry H)) : List (Job H) :=
  ((queuedIn hs).filter (·.1 = some p)).map (·.2)

theorem jobsOf_cons {p : PromiseRef} {x : Happening} (hx : x.origin? = some p)
    (jobs : List (Job H)) (hs : List (Entry H)) :
    jobsOf p (⟨x, jobs⟩ :: hs) = jobsOf p hs ++ jobs := by
  simp [jobsOf, queuedIn, List.filter_map, Function.comp_def, hx]

theorem jobsOf_cons_of_ne {p : PromiseRef} {x : Happening} (hx : x.origin? ≠ some p)
    (jobs : List (Job H)) (hs : List (Entry H)) : jobsOf p (⟨x, jobs⟩ :: hs) = jobsOf p hs := by
  simp [jobsOf, queuedIn, List.filter_map, Function.comp_def, hx]

theorem queuedIn_append (hs hs' : List (Entry H)) :
    queuedIn (hs ++ hs') = queuedIn hs' ++ queuedIn hs := by
  induction hs with
  | nil => exact (List.append_nil _).symm
  | cons en hs ih => rw [List.cons_append, queuedIn, ih, queuedIn, List.append_assoc]

/-! ## Scheduling -/

/-- The reactions of a promise are where they belong: those of a pending one wait in it,
and those of a settled one have got jobs. -/
structure Engine.Scheduled (e : Engine H) (p : PromiseRef) (hs : List (Entry H)) : Prop where
  unsettled : (e.promise p).state = .pending → jobsOf p hs = []
  waiting : (e.promise p).state = .pending →
    ∀ kind, (e.promise p).reactions kind = (registrationsOf p hs).map (·.reaction kind)
  settled : ∀ kind v, (e.promise p).state = kind.state v →
    jobsOf p hs = (registrationsOf p hs).map (·.job kind v)

namespace Engine.Scheduled

variable {e e' : Engine H} {p : PromiseRef} {hs hs' : List (Entry H)}

/-- Nothing happens to the promise. -/
theorem of_same (h : e.Scheduled p hs) (hstate : (e'.promise p).state = (e.promise p).state)
    (hreactions : ∀ kind, (e'.promise p).reactions kind = (e.promise p).reactions kind)
    (hregs : registrationsOf p hs' = registrationsOf p hs) (hjobs : jobsOf p hs' = jobsOf p hs) :
    e'.Scheduled p hs' := by
  refine ⟨fun hp => ?_, fun hp kind => ?_, fun kind v hs => ?_⟩
  · rw [hjobs, h.unsettled (hstate ▸ hp)]
  · rw [hreactions, h.waiting (hstate ▸ hp), hregs]
  · rw [hjobs, h.settled kind v (hstate ▸ hs), hregs]

theorem registered (h : e.Scheduled p hs) (q : PromiseRef) (r : Registration) {jobs : List (Job H)}
    (hj : jobs = (e.promise q).attachJobs r.onFulfilled r.onRejected r.capability) :
    (e.performThen q r.onFulfilled r.onRejected r.capability).Scheduled p
      (⟨.registered q r, jobs⟩ :: hs) := by
  by_cases hq : p = q
  · subst hq
    have hpromise := promise_performThen e p r.onFulfilled r.onRejected r.capability p
    rw [if_pos rfl] at hpromise
    have hstate : ((e.performThen p r.onFulfilled r.onRejected r.capability).promise p).state =
        (e.promise p).state := read_performThen e p _ _ _ Promise.state (fun _ _ _ => rfl) p
    have hregs : registrationsOf p (⟨.registered p r, jobs⟩ :: hs) = registrationsOf p hs ++ [r] :=
      if_pos rfl
    have hjobs : jobsOf p (⟨.registered p r, jobs⟩ :: hs) = jobsOf p hs ++ jobs :=
      jobsOf_cons rfl jobs hs
    refine ⟨fun hp => ?_, fun hp kind => ?_, fun kind v hv => ?_⟩
    · rw [hstate] at hp
      rw [hjobs, hj, Promise.attachJobs_pending hp, h.unsettled hp, List.append_nil]
    · rw [hstate] at hp
      rw [hpromise, Promise.reactions_attach hp, h.waiting hp, hregs, List.map_append,
        List.map_singleton]
    · rw [hstate] at hv
      rw [hjobs, hregs, hj, Promise.attachJobs_settled hv, h.settled kind v hv, List.map_append,
        List.map_singleton]
  · have hpromise := promise_performThen e q r.onFulfilled r.onRejected r.capability p
    rw [if_neg hq] at hpromise
    exact h.of_same (by rw [hpromise]) (by simp [hpromise]) (if_neg (Ne.symm hq))
      (jobsOf_cons_of_ne (by simpa [Happening.origin?] using Ne.symm hq) jobs hs)

theorem settle (h : e.Scheduled p hs) {q : PromiseRef} (hq : (e.promise q).state = .pending)
    (kind : Settling) (v : Value) {jobs : List (Job H)}
    (hj : jobs = ((e.promise q).reactions kind).map (.reaction · v)) :
    (e.settleNow q kind v).Scheduled p (⟨.settled q kind v, jobs⟩ :: hs) := by
  by_cases hpq : p = q
  · subst hpq
    have hpromise := promise_settleNow hq kind v p
    rw [if_pos rfl] at hpromise
    have hstate : ((e.settleNow p kind v).promise p).state = kind.state v := by rw [hpromise]; rfl
    refine ⟨fun hp => ?_, fun hp => ?_, fun kind' v' hv => ?_⟩
    · exact absurd (hstate ▸ hp) (kind.state_ne_pending v)
    · exact absurd (hstate ▸ hp) (kind.state_ne_pending v)
    · obtain ⟨rfl, rfl⟩ := Settling.state_inj (hstate ▸ hv)
      rw [jobsOf_cons rfl, h.unsettled hq, hj, h.waiting hq, List.map_map]
      rfl
  · have hpromise := promise_settleNow hq kind v p
    rw [if_neg hpq] at hpromise
    exact h.of_same (by rw [hpromise]) (by simp [hpromise]) rfl
      (jobsOf_cons_of_ne (by simpa [Happening.origin?] using Ne.symm hpq) jobs hs)

theorem still (h : e.Scheduled p hs) (he : e.Still e') : e'.Scheduled p hs :=
  h.of_same (he.state p) (he.reactions p) rfl rfl

/-- Whatever happens, reactions get to where they belong. -/
theorem happens (h : e.Scheduled p hs) {x : Happening} {jobs : List (Job H)} (hx : e.Happens x e')
    (hj : e'.waitingJobs = e.waitingJobs ++ jobs) : e'.Scheduled p (⟨x, jobs⟩ :: hs) := by
  cases hx with
  | created =>
    exact h.of_same (read_newPromise Promise.state (fun _ => rfl) e p) (reactions_newPromise e p) rfl
      (jobsOf_cons_of_ne (by rintro ⟨⟩) jobs hs)
  | registered q r =>
    rw [waitingJobs_performThen] at hj
    exact h.registered q r (List.append_cancel_left hj).symm
  | @settled q kind v hq =>
    rw [waitingJobs_settleNow hq] at hj
    exact h.settle hq kind v (List.append_cancel_left hj).symm
  | adopted q s =>
    exact h.of_same (read_link Promise.state (fun _ _ => rfl) e q s p) (reactions_link e q s p)
      rfl (jobsOf_cons_of_ne (by rintro ⟨⟩) jobs hs)

/-- Chores leave promises alone. -/
theorem chore (h : e.Scheduled p hs) (c : Chore H) :
    (c.apply e).Scheduled p (c.entries e ++ hs) := by
  have hjobs : jobsOf p (c.entries e ++ hs) = jobsOf p hs := by
    cases c with
    | report | handOver | put j => exact jobsOf_cons_of_ne (by rintro ⟨⟩) _ hs
    | _ => rfl
  have hpromise : (c.apply e).promise p = e.promise p := by
    cases c with
    | next => simp only [Chore.apply]; split <;> rfl
    | _ => rfl
  refine h.of_same (by rw [hpromise]) (by simp [hpromise]) ?_ hjobs
  cases c <;> rfl

end Engine.Scheduled

theorem Chronicle.scheduled {es : List (Event H)} {w : World H} {hs : List (Entry H)}
    (h : Chronicle es w hs) (p : PromiseRef) : w.config.engine.Scheduled p hs := by
  refine h.preserve (P := fun e hs => e.Scheduled p hs) (C := fun _ => True)
    (fun hs h => h.still hs) (fun hx hj h => h.happens hx hj) (fun _ h => h.chore _) ?_
    fun _ _ => trivial
  have hnone : (({} : World H).config.engine.promise p) = {} := Engine.promise_of_size_le (Nat.zero_le _)
  refine ⟨fun _ => rfl, fun _ kind => ?_, fun kind v hv => ?_⟩
  · rw [hnone]
    cases kind <;> rfl
  · rw [hnone] at hv
    exact absurd hv.symm (kind.state_ne_pending v)

/-! ## First in, first out -/

/-- The jobs that a move takes off the queue. -/
def World.takes (w : World H) (m : Move H) : List (Job H) := (w.chore m).takes w.config.engine

/-- The jobs that have left the queue, in order. -/
def takenIn : List (Event H) → List (Job H)
  | [] => []
  | ev :: es => takenIn es ++ ev.before.takes ev.move

theorem Engine.Recounts.waitingJobs {e e' : Engine H} {new : List (Entry H)}
    (h : e.Recounts new e') : e'.waitingJobs = e.waitingJobs ++ (queuedIn new).map (·.2) := by
  induction h with
  | refl => exact (List.append_nil _).symm
  | still _ hs ih => rw [hs.waitingJobs, ih]
  | happens _ _ hj ih =>
    rw [hj, ih, queuedIn, List.map_append, List.map_map, List.append_assoc]
    congr 2
    exact (List.map_id _).symm

/-- A chore takes jobs from the front of the queue. -/
theorem Chore.takes_prefix (e : Engine H) (c : Chore H) : c.takes e <+: e.waitingJobs := by
  cases c with
  | next =>
    cases hpop : e.jobs.pop? with
    | none => simp [takes, hpop]
    | some first =>
      obtain ⟨⟨id, j⟩, jobs⟩ := first
      simp [takes, hpop, Engine.waitingJobs_pop hpop]
  | _ => exact List.nil_prefix

/-- A chore takes jobs from the front and puts jobs to the end, unless it drops those
that wait. -/
theorem Chore.waitingJobs {e : Engine H} {c : Chore H} (hc : c ≠ .clear) (hr : c ≠ .reset) :
    e.waitingJobs ++ (queuedIn (c.entries e)).map (·.2) = c.takes e ++ (c.apply e).waitingJobs := by
  cases c with
  | next =>
    simp only [entries, takes, apply, queuedIn, List.map_nil, List.append_nil]
    cases hpop : e.jobs.pop? with
    | none => rfl
    | some first =>
      obtain ⟨⟨id, j⟩, jobs⟩ := first
      exact Engine.waitingJobs_pop hpop
  | put j => simp [entries, takes, apply, queuedIn]
  | clear => exact absurd rfl hc
  | reset => exact absurd rfl hr
  | _ => exact List.append_nil _

/-- **First in, first out.** The jobs that were queued are those that have left the
queue followed by those that wait, as long as none are dropped. -/
theorem Chronicle.fifo {es : List (Event H)} {w : World H} {hs : List (Entry H)}
    (h : Chronicle es w hs) (hclears : ∀ ev ∈ es, ev.move.clears = false) :
    (queuedIn hs).map (·.2) = takenIn es ++ w.config.engine.waitingJobs := by
  induction h with
  | start => rfl
  | @step es w w' m hs new _ _ hr ih =>
    obtain ⟨hm, hes⟩ := List.forall_mem_cons.1 hclears
    have hclear : w.chore m ≠ .clear := World.chore_ne_clear (by rintro rfl; cases hm)
    have hreset : w.chore m ≠ .reset := World.chore_ne_reset (by rintro rfl; cases hm)
    calc (queuedIn (new ++ ((w.chore m).entries w.config.engine ++ hs))).map (·.2)
        = (takenIn es ++ w.config.engine.waitingJobs ++
            (queuedIn ((w.chore m).entries w.config.engine)).map (·.2)) ++
              (queuedIn new).map (·.2) := by
          simp only [queuedIn_append, List.map_append, ih hes]
      _ = (takenIn es ++ ((w.chore m).takes w.config.engine ++
            ((w.chore m).apply w.config.engine).waitingJobs)) ++ (queuedIn new).map (·.2) := by
          rw [List.append_assoc (takenIn es), Chore.waitingJobs hclear hreset]
      _ = takenIn (⟨w, m⟩ :: es) ++ w'.config.engine.waitingJobs := by
          rw [hr.waitingJobs, takenIn, World.takes]
          simp only [List.append_assoc]

theorem World.takes_of_pop {w : World H} {id : Nat} {j : Job H} {jobs : JobQueue (Job H)}
    (hc : w.chore .tick = .next) (hpop : w.config.engine.jobs.pop? = some ((id, j), jobs)) :
    w.takes .tick = [j] := by
  rw [takes, hc, Chore.takes, hpop]
  rfl

/-- A tick that takes a job is a round of a drain. -/
theorem World.pop_of_takes {w : World H} {j : Job H} (h : w.takes .tick = [j]) :
    ∃ limit executed a id jobs, w.config.control = .drain (.loop limit executed a) ∧
      w.config.engine.jobs.pop? = some ((id, j), jobs) ∧ w.chore .tick = .next ∧
      w.config.tick =
        ({ w.config.engine with jobs } : Engine H).runJob id (.loop limit (executed + 1) a) j := by
  obtain ⟨⟨e, control⟩, held⟩ := w
  cases control with
  | drain d =>
    obtain ⟨limit, executed, a⟩ := d
    cases hlimit : e.limitReached limit executed with
    | true => simp [takes, chore, hlimit, Chore.takes] at h
    | false =>
      cases hpop : e.jobs.pop? with
      | none => simp [takes, chore, hlimit, hpop, Chore.takes] at h
      | some next =>
        obtain ⟨⟨id, j'⟩, jobs⟩ := next
        obtain rfl : j' = j := by simpa [takes, chore, hlimit, hpop, Chore.takes] using h
        refine ⟨limit, executed, a, id, jobs, rfl, rfl, ?_, ?_⟩
        · simp [chore, hlimit, hpop]
        · simp [Config.tick, Engine.drainRound, hlimit, hpop]
  | _ => simp [takes, chore, Chore.takes] at h

/-- A tick that takes a job runs it. -/
theorem World.tick_takes {w : World H} {j : Job H} (h : w.takes .tick = [j]) :
    ∃ id d, w.config.tick = ((w.chore .tick).apply w.config.engine).runJob id d j := by
  obtain ⟨limit, executed, a, id, jobs, -, hpop, hnext, ht⟩ := w.pop_of_takes h
  exact ⟨id, _, by rw [hnext, ht, Chore.apply_next hpop]⟩

/-! ## Runs -/

/-- The host attaches a pair of reactions. -/
def Move.register (p : PromiseRef) (r : Registration) : Move H :=
  .perform (.performThen p r.onFulfilled r.onRejected r.capability)

/-- What the host attaches is told as a registration. -/
theorem Chronicle.register {es : List (Event H)} {w w' : World H} {hs : List (Entry H)}
    (h : Chronicle es w hs) {p : PromiseRef} {r : Registration}
    (hw : Step w (.register p r) w') :
    ∃ jobs, Chronicle (⟨w, .register p r⟩ :: es) w' (⟨.registered p r, jobs⟩ :: hs) := by
  cases hw with
  | @perform e a prompt held op hop =>
    have hx : e.Happens (.registered p r) (e.performThen p r.onFulfilled r.onRejected r.capability) :=
      .registered e p r
    obtain ⟨jobs, hj⟩ := hx.queues
    exact ⟨jobs, h.step (.perform hop) (Engine.Recounts.refl.happens hx hj)⟩

/-- **Reactions fire in the order of registration, each exactly once**, in every run that
does not drop the jobs that wait, however it is told. Once a promise has settled, the
jobs queued for it are those of its registrations, in order, and before that there are
none. All jobs that were queued have left the queue in that order or wait in it, and
what leaves it next was there before the step that takes it. A job that is taken by a
drain runs the handler for the settlement. What the host attaches next is told as the
next registration. -/
theorem Run.reactions_in_order {es : List (Event H)} {w : World H} (h : Run es w)
    (hclears : ∀ ev ∈ es, ev.move.clears = false) :
    (∃ hs, Chronicle es w hs) ∧ ∀ hs, Chronicle es w hs →
      (∀ p, w.config.engine.Scheduled p hs) ∧
      (queuedIn hs).map (·.2) = takenIn es ++ w.config.engine.waitingJobs ∧
      (∀ m, takenIn es ++ w.takes m <+: (queuedIn hs).map (·.2)) ∧
      (∀ (r : Registration) kind v, w.takes .tick = [r.job kind v] →
        ∃ d, w.config.tick = r.fire kind v ((w.chore .tick).apply w.config.engine) d) ∧
      ∀ p r w', Step w (.register p r) w' →
        ∃ jobs, Chronicle (⟨w, .register p r⟩ :: es) w' (⟨.registered p r, jobs⟩ :: hs) := by
  refine ⟨h.chronicle, fun hs hc =>
    ⟨hc.scheduled, hc.fifo hclears, fun m => ?_, ?_, fun _ _ _ => hc.register⟩⟩
  · rw [hc.fifo hclears]
    exact (List.prefix_append_right_inj _).2 (Chore.takes_prefix _ _)
  · intro r kind v hj
    obtain ⟨id, d, htick⟩ := World.tick_takes hj
    exact ⟨d, htick.trans (r.runJob_job kind v _ id d)⟩

/-- A promise with a registration before it is fulfilled, and one after. -/
theorem Run.reactions_in_order_early_late :
    ∃ (es : List (Event Unit)) (w : World Unit), Run es w ∧
      (∀ ev ∈ es, ev.move.clears = false) ∧ ∃ hs, Chronicle es w hs ∧
        jobsOf ⟨0⟩ hs = (registrationsOf ⟨0⟩ hs).map (·.job .fulfill .null) ∧
        (queuedIn hs).map (·.2) =
          [Registration.job ⟨none, none, some ⟨1⟩⟩ .fulfill .null,
            Registration.job ⟨none, none, some ⟨2⟩⟩ .fulfill .null] := by
  have h₁ : Step ({} : World Unit) (.perform .newPromise) _ := .perform_free _ rfl rfl
  have h₂ := Steps.step (.step .refl h₁) (.perform_free (.promiseThen ⟨0⟩ none none) rfl rfl)
  have h₃ := h₂.step (.perform_free (.fulfill ⟨0⟩ .null) rfl rfl)
  have h₄ := h₃.step (.perform_free (.promiseThen ⟨0⟩ none none) rfl rfl)
  refine ⟨_, _, h₄, (fun hclears => ⟨hclears, ?_⟩) (by simp [Move.clears, Op.clears])⟩
  obtain ⟨⟨hs, hc⟩, hall⟩ := Run.reactions_in_order h₄ hclears
  obtain ⟨hscheduled, hfifo, -⟩ := hall hs hc
  exact ⟨hs, hc, (hscheduled ⟨0⟩).settled .fulfill .null rfl, hfifo⟩

end Microtask
