import Microtask.Proofs.Drain.Course
import Microtask.Proofs.Generator.Coherence
import Microtask.Proofs.Generator.Waits

/-!
# What the frame of an async function is given

The frame of an async function pauses with a value, and is given what the value is settled
with. In between it goes through a few stages (`Body.Wait`): nothing goes on until a round of
a drain takes the job of a callback, the callback is called, the frame is about to be resumed,
and with the next tick it is. A step either keeps the stage or leads to the next one
(`Step.wait`), since nobody else drives the generator of the function.

Main statement: `Run.wait`.
-/

namespace Microtask

variable {H : Type}

/-! ## Jobs that bring a completion -/

/-- A round of a drain, within which no job is under way, takes a job that calls the function
with the value. -/
inductive World.Fetches (v : World H) (f : FunctionRef) (x : Value) (u : World H) : Prop where
  | intro {limit : Option Nat} {n id : Nat} {h : Activation H} {r : Reaction}
      {jobs : JobQueue (Job H)} {d : Drain H} :
      v.config.control = .drain (.loop limit n h) → h.drain? = none →
      v.config.engine.jobs.pop? = some ((id, .reaction r x), jobs) → r.handler = some f →
      u.config.control = .call f [x] (.reaction r.capability d) → Fetches v f x u

/-- A job brings the completion to the frame of a generator, which is about to be resumed. -/
inductive Brings (g : GeneratorRef) (c : Completion) : List (Event H) → World H → Prop where
  | intro {before : List (Event H)} {v u w : World H} {f : FunctionRef} {x : Value} :
      v.Fetches f x u → w.config.control.entering? = some (g, c) →
      Brings g c (⟨u, .tick⟩ :: ⟨v, .tick⟩ :: before) w

theorem Brings.entering {g : GeneratorRef} {c : Completion} {es : List (Event H)} {w : World H}
    (h : Brings g c es w) : w.config.control.entering? = some (g, c) := by
  cases h with
  | intro _ he => exact he

/-- A round of a drain does nothing to frames. -/
theorem World.Fetches.frameEvents {v u : World H} {f : FunctionRef} {x : Value}
    (h : v.Fetches f x u) (g : GeneratorRef) : v.frameEvents .tick g = [] := by
  cases h with
  | intro hd =>
    simp [World.frameEvents, World.resumes, World.answers, World.loses, World.stops?, hd,
      Control.entering?]

/-- **A function with a duty that waits for a value** is called with what the value has been
settled with, by a job. -/
theorem Step.fetches {w w' : World H} {m : Move H} (h : Step w m w')
    (hbacked : w.config.engine.Backed) (hsingle : w.config.Single)
    {issued : List (AsyncGeneratorRef × Request)} (hs : (w.ledger issued).Sound) {d : Duty}
    {v : Value} (hv : (w.ledger issued).Expects d v) {f : FunctionRef} {kind : Settling}
    (hf : w'.config.control.called? w'.config.engine = some f)
    (hen : w'.config.engine.engagement? f = some (d, kind)) :
    m = .tick ∧ ∃ x, w.Fetches f x w' ∧
      w.config.engine.settlement? v = some (kind.completion x) := by
  obtain ⟨rfl, ⟨limit, n, a⟩, id, r, x, jobs, d', hd, hpop, hr, rfl⟩ := h.calls hbacked hf
  have hmem : .reaction r x ∈ (w.ledger issued).jobs := by
    rw [Ledger.jobs_pop (l := w.ledger issued) hpop]
    exact List.mem_cons_self
  have hen₀ : w.config.engine.engagement? f = some (d, kind) := hen
  have hduty : w.config.engine.reactionDuty? r = some d := by
    simp only [Engine.reactionDuty?, hr, Option.bind_some, hen₀, Option.map_some]
  obtain ⟨d'', hb⟩ := hs.jobs _ hmem
  obtain rfl : d'' = some d := hb.reactionDuty?.symm.trans hduty
  obtain ⟨f', hf', hen', -, -⟩ := hb
  obtain rfl : f = f' := Option.some.inj (hr.symm.trans hf')
  obtain rfl : kind = r.kind := congrArg Prod.snd (Option.some.inj (hen₀.symm.trans hen'))
  have hnone : a.drain? = none := hsingle.below limit n a (by rw [hd]; rfl)
  exact ⟨rfl, x, .intro hd hnone hpop hr rfl, hv.job hs hmem hduty⟩

/-- Whatever can go on with the duty waits for the value, or is just being called with what the
value has been settled with. -/
structure World.Awaiting (w : World H) (d : Duty) (v : Value) : Prop where
  expects : (w.ledger []).Expects d v
  called : ∀ f kind, w.config.control.called? w.config.engine = some f →
    w.config.engine.engagement? f = some (d, kind) →
    ∃ x k, w.config.control = .call f [x] k ∧
      w.config.engine.settlement? v = some (kind.completion x)

/-- **A step that is not about the duty** keeps what is awaited. -/
theorem Step.awaiting {w w' : World H} {m : Move H} (h : Step w m w') (hlaw : w.Lawful)
    (hsingle : w.config.Single) {issued : List (AsyncGeneratorRef × Request)}
    (hl : (w.ledger issued).Lawful) {d : Duty} (hd : d.OfStep)
    (hnot : ∀ x ∈ w.drives m, x.2 ≠ some d) {v : Value} (hw : w.Awaiting d v) :
    w'.Awaiting d v := by
  have hexp := World.expects_issued hw.expects issued
  refine ⟨World.expects_issued (h.expects hlaw hl hd hnot hexp) [], fun f kind hf hen => ?_⟩
  obtain ⟨rfl, x, hfetch, hset⟩ := h.fetches hlaw.1 hsingle hl.sound hexp hf hen
  cases hfetch with
  | intro _ _ _ _ hcontrol =>
    exact ⟨x, _, hcontrol, Engine.settlement?_persists (h.lawful hlaw).2 hset⟩

/-! ## The stages of a wait -/

/-- How far an async function has come that waits for a value, with what has happened since
its frame has paused. -/
inductive Body.Wait (g : GeneratorRef) (p : PromiseRef) (v : Value) (Waiting : World H → Prop) :
    List (Event H) → World H → Prop where
  | waiting {later : List (Event H)} {w : World H} : frameLog g later = [] →
      (w.config.engine.generator g).state = .suspendedYield → Waiting w →
      Wait g p v Waiting later w
  | called {later : List (Event H)} {u w : World H} {f : FunctionRef} {x : Value}
      {kind : Settling} : frameLog g later = [] →
      (w.config.engine.generator g).state = .suspendedYield → u.Fetches f x w →
      w.config.engine.engagement? f = some (.body g p, kind) →
      w.config.engine.settlement? v = some (kind.completion x) →
      Wait g p v Waiting (⟨u, .tick⟩ :: later) w
  | entering {later : List (Event H)} {w : World H} {c : Completion} : frameLog g later = [] →
      Brings g c later w → w.config.engine.settlement? v = some c → Wait g p v Waiting later w
  | delivered (after : List (Event H)) {before : List (Event H)} {u w : World H}
      {c : Completion} : frameLog g before = [] → Brings g c before u →
      w.config.engine.settlement? v = some c →
      Wait g p v Waiting (after ++ ⟨u, .tick⟩ :: before) w

theorem Body.Wait.imp {g : GeneratorRef} {p : PromiseRef} {v : Value}
    {Waiting Waiting' : World H → Prop} {later : List (Event H)} {w : World H}
    (h : Body.Wait g p v Waiting later w)
    (himp : (w.config.engine.generator g).state = .suspendedYield → Waiting w → Waiting' w) :
    Body.Wait g p v Waiting' later w := by
  cases h with
  | waiting hlog hstate hwaiting => exact .waiting hlog hstate (himp hstate hwaiting)
  | called hlog hstate hfetch hen hset => exact .called hlog hstate hfetch hen hset
  | entering hlog hbrings hset => exact .entering hlog hbrings hset
  | delivered after hlog hbrings hset => exact .delivered after hlog hbrings hset

namespace World

/-- Whatever can go on with the duty waits for the value, and nobody does so now. -/
def Expecting (w : World H) (d : Duty) (v : Value) : Prop :=
  (w.ledger []).Expects d v ∧ w.Uncalled d

/-- The duty is waited for, by reactions of the promise that is the value, or by a job that
hands over what the value has been settled with. -/
structure AwaitsFor (w : World H) (d : Duty) (v : Value) : Prop where
  awaits : w.Awaits d
  reaction : ∀ q kind i, w.Owes d (.reaction q kind i) → v = .promise q
  job : ∀ i, w.Owes d (.job i) → ∃ r x, w.jobs[i]? = some (.reaction r x) ∧
    w.config.engine.settlement? v = some (r.kind.completion x)

end World

section Steps

variable {w w' : World H} {m : Move H} {issued : List (AsyncGeneratorRef × Request)}
  {g : GeneratorRef} {p : PromiseRef} {v : Value}

namespace World

/-- While a body is suspended, its frame is not away. -/
theorem Bound.not_running (hb : w.Bound issued g p)
    (hs : (w.config.engine.generator g).state = .suspendedYield) :
    g ∉ w.config.control.running := by
  rw [← List.count_eq_zero]
  cases hb.body with
  | running hs' => cases hs.symm.trans hs'
  | suspended _ _ hcount => exact hcount
  | finished hs' => cases hs.symm.trans hs'

/-- A step that drives a generator that is bound to an async function is for that function. -/
theorem Bound.duty_of_drives (hb : w.Bound issued g p) (hl : (w.ledger issued).Flights)
    (hg : g ∉ w.reaches m) {d : Option Duty} (hd : w.Drives m g d) : d = some (.body g p) := by
  refine (World.duty_of_drives hl.exclusive hb.apart hg hb.body.count_le hb.others hd).resolve_right ?_
  rintro ⟨-, hnew⟩
  have hlt := hb.allocated
  rw [hnew] at hlt
  exact Nat.lt_irrefl _ hlt

/-- A suspended body goes on only when a callback is called for it. -/
theorem called_of_drives (hg : g ∉ w.config.control.running)
    (hd : w.Drives m g (some (.body g p))) (hnew : g.index < w.config.engine.generators.size) :
    ¬ w.Uncalled (.body g p) := by
  generalize hd' : some (Duty.body g p) = d at hd
  cases hd with
  | @wake e f args k held waiter kind _ d hcode hmem =>
    obtain rfl := Option.some.inj hd'
    have hen := Engine.engagement?_of_wake hcode (Waiter.duty?_of_drives hmem)
    exact fun hun => hun f kind (Control.called?_call hen args k) hen
  | resume => exact absurd List.mem_cons_self hg
  | run => exact absurd List.mem_cons_self hg
  | frame o code => exact absurd List.mem_cons_self hg
  | serve hq => cases hd'
  | start f => exact absurd hnew (Nat.lt_irrefl _)
  | named hmem => cases hd'

end World

/-- A frame of a generator that is bound to an async function stops for that function. -/
theorem World.Bound.purpose_of_stops (hb : w.Bound issued g p) {purpose : Purpose H} {o : Outcome}
    (hs : w.Stops m (.generator g purpose) o) : ∃ reply k, purpose = .body p reply k := by
  have hsteps : w.config.control.steps = (g, purpose.duty? g) :: purpose.steps := hs.steps
  exact Purpose.eq_body (w.config.control.tallies.duty_of_le hb.body.count_le
    (hsteps ▸ List.mem_cons_self) rfl)

/-- A frame that pauses begins to wait. -/
theorem Step.wait_of_stops (h : Step w m w') (hl : (w.ledger issued).Flights)
    (hb : w.Bound issued g p) {purpose : Purpose H} {o : Outcome}
    (hs : w.Stops m (.generator g purpose) o) (ho : o.isFinished = false) :
    Body.Wait g p o.value (·.Expecting (.body g p) o.value) [] w' := by
  obtain ⟨reply, k, rfl⟩ := hb.purpose_of_stops hs
  obtain ⟨f, rfl⟩ := h.stops hs
  -- the step ends, and then the wait begins
  let e := w.config.engine.endStep g f o
  let l : Ledger H := { engine := e, held := w.held, stack := .body g p :: k.duties, issued }
  have hledger := hs.ledger issued
  have he : (w.ledger issued).engine.Effects Rights.all e :=
    Engine.endStep_effects trivial f o
  have hl₁ : ({ w.ledger issued with engine := e } : Ledger H) = l := by
    rw [hledger]
    rfl
  have hlaw : l.Lawful := hl₁ ▸ (Ledger.Keeps.effects hl.lawful he).lawful
  have hle : l.owed (.body g p) ≤ l.stack.count (.body g p) := by
    have howed := ((hl.lawful.sound.effects he).2 _ (Duty.body_ne_adopt g p)).1
    rw [hl₁] at howed
    have hone := hb.body.owed_le
    have hcount : 0 < l.stack.count (.body g p) := List.count_pos_iff.2 List.mem_cons_self
    omega
  have hwaits : ∀ v, Body.Wait g p v (·.Expecting (.body g p) v) []
      ⟨⟨e.await v (.body g p), .deliver (.ok reply) k⟩, w.held⟩ := by
    intro v
    have hduty : (Waiter.body (H := H) g p).duty? = some (.body g p) := rfl
    have hexp : ((World.mk ⟨e.await v (.body g p), .deliver (.ok reply) k⟩ w.held).ledger
        issued).Expects (.body g p) v := Ledger.expects_await hlaw hduty rfl hle v
    refine .waiting rfl ?_ ⟨World.expects_issued hexp [], World.uncalled_of_none rfl _⟩
    have hgen : (e.await v (.body g p)).generator g = e.generator g := by
      rw [Engine.generator, (Engine.spares_await e v _).generators]
      rfl
    rw [hgen, Engine.generator_endStep, ho]
    rfl
  cases o with
  | awaiting v | yielded v => exact hwaits v
  | returned v | threw reason => cases ho

/-- A suspended body that no callback is called for goes on waiting, or its callback is
called next. -/
theorem Step.wait_of_waiting (h : Step w m w') (hm : m.Lossless) (hw : w.Lawful)
    (hsingle : w.config.Single) (hl : (w.ledger issued).Flights) (hb : w.Bound issued g p)
    (hg : g ∉ w.reaches m) {later : List (Event H)} (hlog : frameLog g later = [])
    (hstate : (w.config.engine.generator g).state = .suspendedYield)
    (hv : (w.ledger issued).Expects (.body g p) v) (hun : w.Uncalled (.body g p)) :
    Body.Wait g p v (·.Expecting (.body g p) v) (⟨w, m⟩ :: later) w' := by
  have hrun := hb.not_running hstate
  have hnot : ∀ x ∈ w.drives m, x.1 ≠ g := by
    rintro x hx rfl
    have hdrive := World.drives_of_mem hx
    exact World.called_of_drives hrun (hb.duty_of_drives hl hg hdrive ▸ hdrive) hb.allocated hun
  have hpass : ∀ x ∈ w.drives m, x.2 ≠ some (.body g p) := fun x hx hd =>
    hnot x hx (World.body_of_drives (hd ▸ World.drives_of_mem hx))
  have hstate' : (w'.config.engine.generator g).state = .suspendedYield := by
    have hc := h.changes (D := (· ≠ g)) hnot fun hab => absurd hab hm.abandon
    have hgen : w'.config.engine.generator g = w.config.engine.generator g :=
      hc.generator_eq (fun hne => hne rfl) hb.allocated
    rw [hgen, hstate]
  have hlog' : frameLog g (⟨w, m⟩ :: later) = [] := by
    rw [frameLog, hlog, World.frameEvents_eq_nil hrun]
    rfl
  by_cases hun' : w'.Uncalled (.body g p)
  · exact .waiting hlog' hstate'
      ⟨World.expects_issued (h.expects (d := .body g p) hw hl.lawful trivial hpass hv) [], hun'⟩
  · have hcall : ∃ f kind, w'.config.control.called? w'.config.engine = some f ∧
        w'.config.engine.engagement? f = some (.body g p, kind) := by
      simpa [World.Uncalled] using hun'
    obtain ⟨f, kind, hf, hen⟩ := hcall
    obtain ⟨rfl, x, hfetch, hset⟩ := h.fetches hw.1 hsingle hl.lawful.sound hv hf hen
    exact .called hlog hstate' hfetch hen (Engine.settlement?_persists (h.lawful hw).2 hset)

/-- **Every step keeps the stage of a wait, or leads to the next one.** -/
theorem Step.wait (h : Step w m w') (hm : m.Lossless) (hw : w.Lawful) (hsingle : w.config.Single)
    (hl : (w.ledger issued).Flights) (hb : w.Bound issued g p) (hg : g ∉ w.reaches m)
    {later : List (Event H)} (hv : Body.Wait g p v (·.Expecting (.body g p) v) later w) :
    Body.Wait g p v (·.Expecting (.body g p) v) (⟨w, m⟩ :: later) w' := by
  have hpersists : ∀ {c}, w.config.engine.settlement? v = some c →
      w'.config.engine.settlement? v = some c := Engine.settlement?_persists (h.lawful hw).2
  cases hv with
  | waiting hlog hstate hexp =>
    exact h.wait_of_waiting hm hw hsingle hl hb hg hlog hstate
      (World.expects_issued hexp.1 issued) hexp.2
  | @called later u _ f x kind hlog hstate hfetch hen hset =>
    have hlog' : frameLog g (⟨w, m⟩ :: ⟨u, .tick⟩ :: later) = [] := by
      rw [frameLog, frameLog, hlog, hfetch.frameEvents g,
        World.frameEvents_eq_nil (hb.not_running hstate)]
      rfl
    obtain ⟨⟨e, control⟩, held⟩ := w
    have hcontrol : ∃ k, control = .call f [x] k := by
      cases hfetch with
      | intro _ _ _ _ hc => exact ⟨_, hc⟩
    obtain ⟨k, rfl⟩ := hcontrol
    cases h with
    | tick =>
      have hcode : (e.callable f).code = .wake (.body g p) kind := by
        obtain ⟨waiter, hcode, hduty⟩ := Engine.code_of_step hen trivial
        cases waiter with
        | body g' q =>
          cases hduty
          exact hcode
        | _ => cases hduty
      obtain ⟨honce, -, hframe, -⟩ := hb.at_hand hcode
      obtain ⟨fr, hfr⟩ := Option.isSome_iff_exists.1 hframe
      have hcall := World.callFunction_body [x] k hcode honce hstate hfr
      refine .entering hlog' (.intro hfetch ?_) (hpersists hset)
      show (e.callFunction f [x] k).control.entering? = _
      rw [hcall]
      rfl
  | entering hlog hbrings hset =>
    obtain rfl := h.tick_of_entering hbrings.entering
    exact .delivered [] hlog hbrings (hpersists hset)
  | delivered after hlog hbrings hset =>
    exact .delivered (⟨w, m⟩ :: after) hlog hbrings (hpersists hset)

/-- A suspended body that waits for a value, and that no callback is called for. -/
theorem World.awaitsFor_of_expects (hl : (w.ledger issued).Flights) (hb : w.Bound issued g p)
    (hstate : (w.config.engine.generator g).state = .suspendedYield)
    (hv : (w.ledger issued).Expects (.body g p) v) (hun : w.Uncalled (.body g p)) :
    w.AwaitsFor (.body g p) v := by
  have hs := hl.lawful.sound
  have hrun := hb.not_running hstate
  have hone : (w.ledger issued).owed (.body g p) = 1 := by
    cases hb.body with
    | running hstate' => cases hstate.symm.trans hstate'
    | suspended _ _ _ hone => exact hone
    | finished hstate' => cases hstate.symm.trans hstate'
  have hstack : w.config.control.duties.count (.body g p) = 0 := by
    have hle := w.config.control.tallies.count_body_le g p
    have hzero := List.count_eq_zero.2 hrun
    omega
  refine ⟨awaits_of_owed hl.lawful hb.unspent trivial hone hun hstack, ?_, ?_⟩
  · rintro q kind i ⟨r, hr, hduty⟩
    have hmem := List.mem_of_getElem? hr
    exact hv.reaction hs hmem hduty ((hl.lawful.sane q).pending_of_reaction kind hmem)
  · rintro i ⟨j, hj, hduty⟩
    cases j with
    | reaction r x => exact ⟨r, x, hj, hv.job hs (List.mem_of_getElem? hj) hduty⟩
    | adoption q q' => cases hduty
    | callback label code => cases hduty

end Steps

/-! ## Chains of steps -/

/-- Generators are not taken back. -/
theorem Steps.generators_le {v w : World H} {es : List (Event H)} (h : Steps v es w) :
    v.config.engine.generators.size ≤ w.config.engine.generators.size :=
  h.relate (P := fun _ => True)
    (R := fun a b => a.config.engine.generators.size ≤ b.config.engine.generators.size)
    (fun _ => le_rfl) le_trans
    (fun hs _ => ⟨trivial,
      (hs.changes (D := fun _ => True) (fun _ _ => trivial) fun _ _ => trivial).size_le⟩) trivial

/-- What a value has been settled with does not change. -/
theorem Steps.settlement?_persists {v w : World H} {es : List (Event H)} (h : Steps v es w)
    (hv : v.Lawful) {x : Value} {c : Completion} (hc : v.config.engine.settlement? x = some c) :
    w.config.engine.settlement? x = some c := by
  have hboth := h.preserve (P := fun w => w.Lawful ∧ w.config.engine.settlement? x = some c)
    (fun hs hw => ⟨(hs.lawful hw.1).1, Engine.settlement?_persists (hs.lawful hw.1).2 hw.2⟩)
    ⟨hv, hc⟩
  exact hboth.2

theorem launchedIn_append (es es' : List (Event H)) :
    launchedIn (es ++ es') = launchedIn es ++ launchedIn es' :=
  List.flatMap_append

/-- A generator that exists is not made by a start that comes later. -/
theorem Steps.launched_before {v w : World H} {later earlier : List (Event H)}
    (h : Steps v later w) {g : GeneratorRef} {p : PromiseRef}
    (hg : g.index < v.config.engine.generators.size) (hp : (g, p) ∈ launchedIn (later ++ earlier)) :
    (g, p) ∈ launchedIn earlier := by
  rw [launchedIn_append, List.mem_append] at hp
  refine hp.resolve_left fun hp => ?_
  obtain ⟨ev, hev, hlaunch⟩ := List.mem_flatMap.1 hp
  obtain ⟨after, before, rfl⟩ := List.append_of_mem hev
  obtain ⟨u, hbefore, -, -⟩ := h.split
  exact absurd (hg.trans_le hbefore.generators_le) (World.size_le_of_launches hlaunch).not_gt

/-! ## Runs -/

section Runs

variable {es : List (Event H)} {w : World H} {g : GeneratorRef} {p : PromiseRef}

/-- A generator whose frame is away exists. -/
theorem Run.exists_of_running (h : Run es w) (hrun : g ∈ w.config.control.running) :
    g.index < w.config.engine.generators.size := by
  obtain ⟨q, -, hw⟩ := h.phased g
  by_contra hnot
  exact List.count_eq_zero.1 (hw.ready.unborn (Nat.le_of_not_lt hnot)).1 hrun

/-- Nothing happens to the frame of a generator before it is made. -/
theorem Run.frameLog_of_unborn (h : Run es w) (hg : w.config.engine.generators.size ≤ g.index) :
    frameLog g es = [] := by
  obtain ⟨q, hq, hw⟩ := h.phased g
  obtain rfl : q = .fresh := (hw.ready.unborn hg).2
  obtain ⟨hnil, -⟩ | ⟨log, ev, q', -, -, hnext⟩ := FramePhase.reads_last hq
  · exact hnil
  · exact absurd hnext (FramePhase.next_ne_fresh q' ev)

/-- **The frame of an async function is entered at once**, with a normal completion. -/
theorem Step.entering_of_launches {w w' : World H} {m : Move H} (h : Step w m w')
    (hp : (g, p) ∈ w.launches m) :
    w'.config.control.entering? = some (g, .normal .undefined) := by
  cases h with
  | @perform e a prompt held op hop =>
    cases op with
    | startAsync f =>
      obtain ⟨rfl, rfl⟩ := Prod.mk.inj (List.mem_singleton.1 hp)
      show (e.startAsync f (.host a)).control.entering? = _
      rw [World.startAsync_eq]
      rfl
    | _ => cases hp
  | _ => cases hp

/-- Until anything happens to its frame, an async function that has been started is about
to enter it. -/
theorem Run.entering_of_fresh (h : Run es w) (hp : (g, p) ∈ launchedIn es)
    (hlog : frameLog g es = []) :
    w.config.control.entering? = some (g, .normal .undefined) := by
  obtain ⟨⟨v, m⟩, hev, hlaunch⟩ := List.mem_flatMap.1 hp
  obtain ⟨later, earlier, rfl⟩ := List.append_of_mem hev
  obtain ⟨v', -, hstep, hlater⟩ := h.split
  have hent := hstep.entering_of_launches hlaunch
  rw [frameLog_append, List.append_eq_nil_iff] at hlog
  -- the next tick would enter the frame
  rcases later.eq_nil_or_concat with rfl | ⟨rest, ⟨u, m'⟩, rfl⟩
  · cases hlater
    exact hent
  · have hnext : Steps v' (rest ++ [⟨u, m'⟩]) w := by simpa using hlater
    obtain ⟨u', hnil, hs, -⟩ := hnext.split
    cases hnil
    obtain rfl := hs.tick_of_entering hent
    have hevents := hlog.2
    simp [frameLog, frameLog_append, World.frameEvents, World.resumes, hent] at hevents

/-- An async function has been started before its frame stops. -/
theorem Run.launched_of_stops {later earlier : List (Event H)} {v : World H} {m : Move H}
    (h : Run (later ++ ⟨v, m⟩ :: earlier) w) {purpose : Purpose H} {o : Outcome}
    (hs : v.Stops m (.generator g purpose) o)
    (hp : (g, p) ∈ launchedIn (later ++ ⟨v, m⟩ :: earlier)) : (g, p) ∈ launchedIn earlier := by
  obtain ⟨v', hearlier, hstep, hlater⟩ := h.split
  have hrun : g ∈ v.config.control.running := by
    rw [v.config.control.tallies.running]
    exact List.mem_map_of_mem hs.mem_steps
  exact (Steps.trans (.step .refl hstep) hlater).launched_before
    (Run.exists_of_running hearlier hrun) (by simpa using hp)

/-- **What becomes of a wait** of the frame of an async function, as long as nothing is lost
and the host does not reach its generator. -/
theorem Run.wait {later earlier : List (Event H)} {v : World H} {m : Move H}
    (h : Run (later ++ ⟨v, m⟩ :: earlier) w)
    (hes : ∀ ev ∈ later ++ ⟨v, m⟩ :: earlier, ev.move.Lossless)
    (hg : ∀ ev ∈ later ++ ⟨v, m⟩ :: earlier, g ∉ ev.before.reaches ev.move)
    (hp : (g, p) ∈ launchedIn earlier) {purpose : Purpose H} {o : Outcome}
    (hs : v.Stops m (.generator g purpose) o) (ho : o.isFinished = false) :
    Body.Wait g p o.value (·.Expecting (.body g p) o.value) later w := by
  induction later generalizing w with
  | nil =>
    cases h with
    | step hearlier hstep =>
      have hb := Run.bodies hearlier (fun ev hev => hes ev (List.mem_cons_of_mem _ hev))
        (fun ev hev => hg ev (List.mem_cons_of_mem _ hev)) hp
      have hl := Run.flights hearlier fun ev hev => hes ev (List.mem_cons_of_mem _ hev)
      exact hstep.wait_of_stops hl hb hs ho
  | cons ev later ih =>
    cases h with
    | @step _ u _ m' hrun hstep =>
      have hes' := (List.forall_mem_cons.1 hes).2
      have hg' := (List.forall_mem_cons.1 hg).2
      have hp' : (g, p) ∈ launchedIn (later ++ ⟨v, m⟩ :: earlier) := by
        rw [launchedIn_append]
        exact List.mem_append_right _ (List.mem_append_right _ hp)
      exact hstep.wait (hes _ List.mem_cons_self) (Run.lawful hrun) (Run.single hrun)
        (Run.flights hrun hes') (Run.bodies hrun hes' hg' hp') (hg _ List.mem_cons_self)
        (ih hrun hes' hg')

/-- **The completions that the frame of an async function is given**: first a normal one
without a value, and then each time what the value that it has paused with is settled
with. -/
theorem Run.completions (h : Run es w) (hes : ∀ ev ∈ es, ev.move.Lossless)
    (hg : ∀ ev ∈ es, g ∉ ev.before.reaches ev.move) (hp : (g, p) ∈ launchedIn es)
    {before after : List FrameEvent} {c : Completion}
    (hlog : frameLog g es = before ++ .resumed c :: after) :
    before = [] ∧ c = .normal .undefined ∨
      ∃ earlier o, before = earlier ++ [.answered o] ∧ o.isFinished = false ∧
        w.config.engine.settlement? o.value = some c := by
  obtain ⟨q, hq, -⟩ := h.phased g
  rw [hlog] at hq
  have hcases := FramePhase.resumed_cases hq
  obtain ⟨later, u, m, earlier, pre, post, rfl, hevents, rfl, -⟩ := exists_move_of_frameLog hlog
  obtain ⟨rfl, rfl, hent⟩ := World.resumed_first hevents
  rw [List.append_nil] at hcases ⊢
  obtain ⟨u', hu, hstep, hlater⟩ := h.split
  have hrun : g ∈ u.config.control.running :=
    List.count_pos_iff.1 (Control.count_of_entering hent)
  have hp' : (g, p) ∈ launchedIn earlier :=
    (Steps.trans (.step .refl hstep) hlater).launched_before (Run.exists_of_running hu hrun)
      (by simpa using hp)
  have hes' : ∀ ev ∈ earlier, ev.move.Lossless := fun ev hev =>
    hes ev (List.mem_append_right _ (List.mem_cons_of_mem _ hev))
  have hg' : ∀ ev ∈ earlier, g ∉ ev.before.reaches ev.move := fun ev hev =>
    hg ev (List.mem_append_right _ (List.mem_cons_of_mem _ hev))
  refine hcases.imp (fun hfirst => ⟨hfirst.1, ?_⟩) fun ⟨log, o, hbefore, ho⟩ =>
    ⟨log, o, hbefore, ho, ?_⟩
  · have hfresh := Run.entering_of_fresh hu hp' hfirst.1
    rw [hent] at hfresh
    exact (Prod.mk.inj (Option.some.inj hfresh)).2
  · -- the wait of the outcome before this completion has come to its end
    obtain ⟨later', v, m', earlier', pre', post', rfl, hevents', -, hpost⟩ :=
      exists_move_of_frameLog hbefore
    have hpost' := List.append_eq_nil_iff.1 hpost.symm
    have hstops : ∃ purpose, v.Stops m' (.generator g purpose) o := by
      have hmem : .answered o ∈ v.frameEvents m' g := by
        rw [hevents']
        exact List.mem_append_right _ List.mem_cons_self
      rcases World.mem_frameEvents hmem with ⟨c', hc', -⟩ | ⟨purpose, o', ho', hs⟩ | ⟨hlost, -⟩
      · cases hc'
      · cases ho'
        exact ⟨purpose, hs⟩
      · cases hlost
    obtain ⟨purpose, hs⟩ := hstops
    have hp'' := Run.launched_of_stops hu hs hp'
    have hset : u.config.engine.settlement? o.value = some c := by
      cases Run.wait hu hes' hg' hp'' hs ho with
      | waiting _ hstate =>
        exact absurd hrun ((Run.bodies hu hes' hg' hp').not_running hstate)
      | called _ hstate =>
        exact absurd hrun ((Run.bodies hu hes' hg' hp').not_running hstate)
      | entering _ hbrings hset =>
        have hc := hbrings.entering
        rw [hent] at hc
        rw [(Prod.mk.inj (Option.some.inj hc)).2]
        exact hset
      | delivered after _ hbrings =>
        have hnil := hpost'.2
        simp [frameLog, frameLog_append, World.frameEvents, World.resumes,
          hbrings.entering] at hnil
    exact (Steps.trans (.step .refl hstep) hlater).settlement?_persists (Run.lawful hu) hset

end Runs

end Microtask
