import Microtask.Proofs.Generator.Awaiting
import Microtask.Proofs.Promise.Cycles
import Microtask.Proofs.Promise.Reserved

/-!
# Results of async functions

The promise of an async function is made together with its generator, and until its frame
has finished it is reserved for the body of the function (`World.Reserved`). Every step keeps
it so: one that does not drive the body settles other promises only, and one that drives it
settles none as long as the frame goes on or pauses (`Step.acts_body`). When the frame finishes, the promise is resolved or
rejected with the outcome (`Engine.Concludes`).

Main statement: `Run.async_function`.
-/

namespace Microtask

variable {H : Type}

/-! ## What the host settles itself -/

/-- In the course of some events the host settles the promise of an async function itself
that was unresolved: by an operation, or with means that it has asked for, and not by a step
of the body. -/
inductive HostSettlesResult (g : GeneratorRef) (p : PromiseRef) : List (Event H) → Prop where
  | operation {ev : Event H} {es : List (Event H)} :
      (ev.before.config.engine.promise p).resolved = false → p ∈ ev.move.settles →
      HostSettlesResult g p (ev :: es)
  | means {ev : Event H} {es : List (Event H)} :
      (ev.before.config.engine.promise p).resolved = false → p ∈ ev.before.targets ev.move →
      (g, some (.body g p)) ∉ ev.before.drives ev.move → Entrusted (ev :: es) p →
      HostSettlesResult g p (ev :: es)
  | earlier {ev : Event H} {es : List (Event H)} :
      HostSettlesResult g p es → HostSettlesResult g p (ev :: es)

/-- What the host has settled stays so. -/
theorem HostSettlesResult.append {g : GeneratorRef} {p : PromiseRef} {es : List (Event H)}
    (h : HostSettlesResult g p es) : ∀ later : List (Event H), HostSettlesResult g p (later ++ es)
  | [] => h
  | _ :: later => .earlier (h.append later)

theorem HostSettlesResult.hostSettles {g : GeneratorRef} {p : PromiseRef} {es : List (Event H)}
    (h : HostSettlesResult g p es) : HostSettles p es := by
  induction h with
  | operation hr hp => exact .operation hr hp
  | means hr hp _ he => exact .means hr hp he
  | earlier _ ih => exact .earlier ih

section Reserved

variable {w w' : World H} {m : Move H} {es : List (Event H)} {g : GeneratorRef} {p : PromiseRef}

/-- Only a step of the body can settle the promise of the async function. -/
abbrev World.ReservedFor (w : World H) (es : List (Event H)) (g : GeneratorRef) (p : PromiseRef) :
    Prop :=
  w.Reserved es p (some (.body g p)) fun _ => False

/-- **A step that does not drive the body** leaves its promise reserved and unresolved, unless
the host settles it. -/
theorem Step.reserved_of_passing (h : Step w m w') (hm : m.Lossless)
    (hbacked : w.config.engine.Backed) (hl : (w.ledger (requestsIn es)).Lawful)
    (hw : w.ReservedFor es g p) (hp : p.index < w.config.engine.promises.size)
    (hr : (w.config.engine.promise p).resolved = false)
    (hnot : (g, some (.body g p)) ∉ w.drives m)
    (hhost : ¬ HostSettlesResult g p (⟨w, m⟩ :: es)) :
    w'.ReservedFor (⟨w, m⟩ :: es) g p ∧
      (w'.config.engine.promise p).resolved = false := by
  have hfree : ∀ g' d, (g', some d) ∈ w.drives m → d.answers? ≠ some p := by
    intro g' d hx hd
    obtain hholder | ⟨f, -, rfl⟩ := hw.eq_holder hx hd
    · obtain rfl := Option.some.inj hholder
      have hg : g' = g := World.body_of_drives (World.drives_of_mem hx)
      exact hnot (hg ▸ hx)
    · cases hd
      exact Nat.lt_irrefl _ hp
  -- whoever settles the promise apart from the body is the host
  refine hw.idle hl (h.acts_idle hm hbacked hw hp (fun _ => False.elim) hfree (fun _ _ => id)
    (fun _ _ => id) nofun fun hres hq => ?_) hp hr
  exact ⟨fun hop => hhost (.operation hres hop), fun he => hhost (.means hres hq hnot he)⟩

/-! ## Steps of the body -/

/-- What a body may do before its frame has finished. -/
def Rights.ofBody (g : GeneratorRef) (p : PromiseRef) : Rights :=
  { Rights.all with
    settle := (· ≠ p)
    entrusted := fun _ => False
    move := (· = .body g p)
    abandon := False }

/-- A frame that pauses for an async function settles nothing. -/
theorem World.acts_of_paused {e : Engine H} {held : List (Job H)}
    {issued : List (AsyncGeneratorRef × Request)} {k : Caller H}
    (hp : p.index < e.promises.size) {o : Outcome} (ho : o.isFinished = false) (f : Frame H)
    (reply : Value) :
    Acts (Rights.ofBody g p) { engine := e, held, stack := .body g p :: k.duties, issued }
      ((e.frameStopped o f (.generator g (.body p reply k))).ledger held issued) := by
  have he : e.Effects (Rights.ofBody g p) (e.endStep g f o) := Engine.endStep_effects trivial f o
  have hfresh : (Rights.ofBody g p).Fresh (e.endStep g f o) := by
    refine ⟨?_, fun _ _ => trivial, fun _ _ => trivial⟩
    rintro q hle rfl
    exact absurd (hp.trans_le he.grows.promises) (Nat.not_lt_of_le hle)
  let l : Ledger H :=
    { engine := e.endStep g f o, held, stack := .body g p :: k.duties, issued }
  have hend : Acts (Rights.ofBody g p)
      { engine := e, held, stack := .body g p :: k.duties, issued } l := Acts.effects he
  refine hend.trans ?_
  have hduty : (Waiter.body (H := H) g p).duty? = some (.body g p) := rfl
  have hdrives : (Rights.ofBody g p).Drives (.body g p) := rfl
  cases o with
  | awaiting v | yielded v => exact Engine.await_acts (l := l) hduty rfl hdrives hfresh v
  | returned v | threw reason => cases ho

/-- **A step of the body settles nothing** as long as its frame does not finish. -/
theorem Step.acts_body (h : Step w m w') {issued : List (AsyncGeneratorRef × Request)}
    (hb : w.Bound issued g p) (hp : p.index < w.config.engine.promises.size)
    (hdrive : w.Drives m g (some (.body g p)))
    (hgoing : ∀ purpose o, w.Stops m (.generator g purpose) o → o.isFinished = false) :
    Acts (Rights.ofBody g p) (w.ledger issued) (w'.ledger (w.issued issued m)) := by
  have hprogress : ∀ {e : Engine H} {control : Control H} {held : List (Job H)} {k : Caller H}
      {reply : Value} (progress : ScriptFrame.Progress), p.index < e.promises.size →
      (World.mk ⟨e, control⟩ held).ledger issued =
        { engine := e, held, stack := .body g p :: k.duties, issued } →
      (∀ o f, progress = .stopped o f → o.isFinished = false) →
      Acts (Rights.ofBody g p) ((World.mk ⟨e, control⟩ held).ledger issued)
        ((e.scriptProgress (.generator g (.body p reply k)) progress).ledger held issued) := by
    intro e control held k reply progress hp hledger hprogress
    rw [hledger]
    cases progress with
    | running f => exact .refl
    | stopped o f => exact World.acts_of_paused hp (hprogress o f rfl) (.script f) reply
  generalize hd : some (Duty.body g p) = d at hdrive
  cases hdrive with
  | @wake e f args k held waiter kind _ d hcode hmem =>
    cases h
    cases hd
    have hcode' : (e.callable f).code = .wake (.body g p) kind := by
      cases waiter with
      | body g' q =>
        obtain ⟨rfl, hq⟩ := Prod.mk.inj (List.mem_singleton.1 hmem)
        cases hq
        exact hcode
      | host onFulfilled onRejected => cases hmem
      | _ => cases (Prod.mk.inj (List.mem_singleton.1 hmem)).2
    obtain ⟨honce, hstate, hframe, -⟩ := hb.at_hand hcode'
    obtain ⟨fr, hfr⟩ := Option.isSome_iff_exists.1 hframe
    have hen := Engine.engagement?_of_wake hcode' rfl
    have hcalled : ((World.mk ⟨e, .call f args k⟩ held).ledger issued).called = some f :=
      World.called_of_wake hcode' rfl
    have hspent : (e.callable f).usage ≠ .spent := by
      rw [honce]
      exact nofun
    have hcall := World.callFunction_body args k hcode' honce hstate hfr
    let l : Ledger H := { engine := e.used f, held, stack := .body g p :: k.duties, issued }
    have hwake : Acts (Rights.ofBody g p) ((World.mk ⟨e, .call f args k⟩ held).ledger issued) l :=
      .single (.wake hcalled hen (Duty.body_ne_adopt g p) hspent rfl)
    show Acts _ _ ((e.callFunction f args k).ledger held issued)
    rw [hcall]
    exact hwake.trans (Acts.effects (l := l) (Engine.modifyGenerator_effects trivial _))
  | @resume e f c _ purpose held =>
    obtain ⟨reply, k, rfl⟩ := Purpose.eq_body hd.symm
    cases h
    cases f with
    | values f => exact World.acts_of_paused hp (hgoing _ _ (.values f)) _ reply
    | script f => exact hprogress (f.enter c) hp rfl fun o f' hf => hgoing _ o (.enter hf)
    | host code => exact .refl
  | @run e f _ purpose held =>
    obtain ⟨reply, k, rfl⟩ := Purpose.eq_body hd.symm
    cases h
    exact hprogress f.step hp rfl fun o f' hf => hgoing _ o (.script hf)
  | @frame e _ purpose prompt held o code =>
    obtain ⟨reply, k, rfl⟩ := Purpose.eq_body hd.symm
    cases h
    exact World.acts_of_paused hp (hgoing _ o (.host o code)) (.host code) reply
  | serve hq => cases hd
  | start f => exact absurd hb.allocated (Nat.lt_irrefl _)
  | named hmem => cases hd

/-- A step of the body leaves its promise reserved and unresolved as long as its frame does
not finish. -/
theorem Step.reserved_of_body (h : Step w m w') (hl : (w.ledger (requestsIn es)).Lawful)
    (hb : w.Bound (requestsIn es) g p) (hw : w.ReservedFor es g p)
    (hp : p.index < w.config.engine.promises.size)
    (hr : (w.config.engine.promise p).resolved = false)
    (hdrive : (g, some (.body g p)) ∈ w.drives m)
    (hgoing : ∀ purpose o, w.Stops m (.generator g purpose) o → o.isFinished = false) :
    w'.ReservedFor (⟨w, m⟩ :: es) g p ∧
      (w'.config.engine.promise p).resolved = false := by
  have hacts := h.acts_body hb hp (World.drives_of_mem hdrive) hgoing
  refine ⟨hw.acts hl hacts (fun hallows => ?_) (fun d hd hne hmove => hne ?_) id (.inl hp),
    hacts.unresolved (fun hne => hne rfl) (fun a r hmove => by cases hmove) hl hp hr⟩
  · rcases hallows with hown | hentrusted
    · exact absurd rfl hown.2
    · exact hentrusted.elim
  · rw [(hmove : d = .body g p)]

/-- **The promise of an async function that begins is reserved for its body**. -/
theorem Step.reserved_of_launches (h : Step w m w') (hm : m.Lossless)
    (hbacked : w.config.engine.Backed) (hl : (w.ledger (requestsIn es)).Lawful)
    (hlaunch : (g, p) ∈ w.launches m)
    (hw : ∀ q, w.config.engine.promises.size ≤ q.index → w.Reserved es q none fun _ => False) :
    p.index < w'.config.engine.promises.size ∧ w'.ReservedFor (⟨w, m⟩ :: es) g p ∧
      (w'.config.engine.promise p).resolved = false := by
  have hpass := fun (d : Duty) hd hnot => (h.passes hm hbacked hl (d := d) hd hnot).1.owed
  cases h with
  | @perform e a prompt held op hop =>
    cases op with
    | startAsync f =>
      obtain ⟨rfl, rfl⟩ := Prod.mk.inj (List.mem_singleton.1 hlaunch)
      have hw := hw ⟨e.promises.size⟩ le_rfl
      have hstart := World.startAsync_eq e f (.host a)
      refine ⟨?_, ⟨fun hmeans => ?_, fun d hd hne => ?_, ?_⟩, ?_⟩
      · show e.promises.size < (e.startAsync f (.host a)).engine.promises.size
        rw [hstart]
        exact (Nat.lt_succ_self _).trans_eq (Store.size_push ..).symm
      · -- the step itself is the only means there is
        have hmeans' : ((e.startAsync f (.host a)).ledger held (requestsIn es)).Means
            (·.Foreign none) (fun _ => ¬ False) ⟨e.promises.size⟩ := hmeans.mono fun _ hd => hd.none
        rw [hstart] at hmeans'
        let l : Ledger H := { engine := e, held, stack := a.duties, issued := requestsIn es }
        have hnew : ({ l with engine := e.newPromise.2 } : Ledger H).Means (·.Foreign none)
            (fun _ => ¬ False) ⟨e.promises.size⟩ := by
          refine hmeans'.of_alike ⟨rfl, rfl, rfl⟩ (fun j hj => hj) fun d hd hsettles => ?_
          rcases List.mem_cons.1 hd with rfl | hd
          · exact hsettles.counts.elim
          · exact .duty hd hsettles
        exact (hw.means (Ledger.Means.newPromise (l := l) hnew)).later _
      · have hnot : ∀ x ∈ (World.mk ⟨e, .host a prompt⟩ held).drives (.perform (.startAsync f)),
            x.2 ≠ some d := by
          intro x hx hxd
          obtain rfl := List.mem_singleton.1 hx
          exact hne hxd.symm
        exact (hpass d (Duty.ofStep_of_answers hd) hnot).trans (hw.owed d hd nofun)
      · intro b r hr
        refine hw.queued b r ?_
        have hr' : r ∈ ((e.startAsync f (.host a)).engine.asyncGenerator b).queue := hr
        rw [hstart] at hr'
        exact hr'
      · show ((e.startAsync f (.host a)).engine.promise ⟨e.promises.size⟩).resolved = false
        rw [hstart]
        exact congrArg Promise.resolved ((Engine.promise_newPromise e _).trans (if_pos rfl))
    | _ => cases hlaunch
  | _ => cases hlaunch

/-! ## When the frame has finished -/

/-- The promise has been resolved or rejected with an outcome. -/
inductive Engine.Concludes (e : Engine H) (p : PromiseRef) : Outcome → Engine H → Prop where
  | fulfilled {v : Value} {e' : Engine H} : (∀ q, v ≠ .promise q) →
      (e'.promise p).state = .fulfilled v → Concludes e p (.returned v) e'
  | adopts {q : PromiseRef} {e' : Engine H} : ¬ Relation.ReflTransGen e.Follows q p →
      e.Adopts p q e' → Concludes e p (.returned (.promise q)) e'
  /-- The promise cannot adopt one that follows it. -/
  | refuses {q : PromiseRef} {e' : Engine H} : Relation.ReflTransGen e.Follows q p →
      e.Refuses p e' → Concludes e p (.returned (.promise q)) e'
  | rejected {reason : Value} {e' : Engine H} : (e'.promise p).state = .rejected reason →
      Concludes e p (.threw reason) e'

/-- **When the frame finishes, the promise is resolved or rejected with its outcome.** -/
theorem Step.concludes (h : Step w m w') {issued : List (AsyncGeneratorRef × Request)}
    (hb : w.Bound issued g p) (hground : w.config.engine.Grounded)
    (hsane : (w.config.engine.promise p).Sane) (hr : (w.config.engine.promise p).resolved = false)
    {purpose : Purpose H} {o : Outcome} (hs : w.Stops m (.generator g purpose) o)
    (ho : o.isFinished = true) : w.config.engine.Concludes p o w'.config.engine := by
  obtain ⟨reply, k, rfl⟩ := hb.purpose_of_stops hs
  obtain ⟨f, rfl⟩ := h.stops hs
  -- ending the step concerns the generator only
  let e := w.config.engine.modifyGenerator g fun r => { r with state := .completed }
  have hend : w.config.engine.endStep g f o = e := if_pos ho
  have hengine : (w.config.engine.frameStopped o f (.generator g (.body p reply k))).engine =
      e.absorbBodyOutcome g p (.ok o) := by
    show (w.config.engine.endStep g f o).absorbBodyOutcome g p (.ok o) = _
    rw [hend]
  show w.config.engine.Concludes p o
    (w.config.engine.frameStopped o f (.generator g (.body p reply k))).engine
  rw [hengine]
  have hground' : e.Grounded := hground.same rfl
  have hlock : ((e.lock p).promise p).state = .pending :=
    (Engine.read_lock Promise.state (fun _ => rfl) e p p).trans (hsane.pending hr)
  have hsettled : ∀ (kind : Settling) (v : Value), (kind = .fulfill → ∀ q, v ≠ .promise q) →
      ((e.settle p kind v).promise p).state = kind.state v := by
    intro kind v hv
    rw [Engine.settle_of_unresolved (e := e) hr hv, Engine.promise_settleNow hlock, if_pos rfl]
    rfl
  cases o with
  | returned v =>
    by_cases hv : ∃ q, v = .promise q
    · obtain ⟨q, rfl⟩ := hv
      by_cases hback : Relation.ReflTransGen w.config.engine.Follows q p
      · have href := Engine.resolve_refuses (e := e) hr hsane hground'
          (hground'.closesCycle_iff.2 hback)
        exact .refuses hback ⟨href.rejected, href.error, href.jobs, href.links, href.others⟩
      · have hopen : e.closesCycle p q = false := by
          rw [← Bool.not_eq_true, hground'.closesCycle_iff]
          exact hback
        have had := Engine.resolve_adopts (e := e) hr hsane hground' hopen
        exact .adopts hback ⟨had.pending, had.link, had.jobs, had.others⟩
    · have hplain : ∀ q, v ≠ .promise q := fun q hq => hv ⟨q, hq⟩
      exact .fulfilled hplain (hsettled .fulfill v fun _ => hplain)
  | threw reason => exact .rejected (hsettled .reject reason nofun)
  | awaiting v | yielded v => cases ho

end Reserved

/-! ## Runs -/

section Runs

variable {es : List (Event H)} {w : World H} {g : GeneratorRef} {p : PromiseRef}

/-- The frame of the generator has not finished yet. -/
def Unfinished (g : GeneratorRef) (es : List (Event H)) : Prop :=
  ∀ o, .answered o ∈ frameLog g es → o.isFinished = false

/-- **The promise of an async function stays reserved and unresolved** until its frame has
finished. -/
theorem Run.reserved (h : Run es w) (hes : ∀ ev ∈ es, ev.move.Lossless)
    (hp : (g, p) ∈ launchedIn es) (hg : ∀ ev ∈ es, g ∉ ev.before.reaches ev.move)
    (hhost : ¬ HostSettlesResult g p es) (hgoing : Unfinished g es) :
    p.index < w.config.engine.promises.size ∧ w.ReservedFor es g p ∧
      (w.config.engine.promise p).resolved = false := by
  induction h with
  | refl => cases hp
  | @step es w₁ w₂ m h hs ih =>
    obtain ⟨hm, hes⟩ := List.forall_mem_cons.1 hes
    have hbacked := Run.backed h
    have hl := Run.flights h hes
    have hacts := hs.acts hm.clears (Rights.all_covers w₁ m) hbacked (requestsIn es)
    rcases List.mem_append.1 hp with hp | hp
    · exact hs.reserved_of_launches hm hbacked hl.lawful hp fun q => Run.reserved_unborn h
    · obtain ⟨hgm, hg⟩ := List.forall_mem_cons.1 hg
      obtain ⟨hlt, hw, hr⟩ := ih hes hp hg (fun hearlier => hhost (.earlier hearlier))
        fun o ho => hgoing o (List.mem_append_left _ ho)
      refine ⟨hlt.trans_le hacts.grows.promises, ?_⟩
      by_cases hdrive : (g, some (.body g p)) ∈ w₁.drives m
      · refine hs.reserved_of_body hl.lawful (Run.bodies h hes hg hp) hw hlt hr hdrive
          fun purpose o hstops => hgoing o (List.mem_append_right _ ?_)
        have hanswers : .answered o ∈ w₁.answers m g := by
          rw [World.answers_of_stops hstops]
          exact List.mem_cons_self
        exact List.mem_append_right _ (List.mem_append_left _ hanswers)
      · exact hs.reserved_of_passing hm hbacked hl.lawful hw hlt hr hdrive hhost

/-- The course of an async function with its generator and its promise. -/
structure World.AsyncFunction (w : World H) (es : List (Event H)) (g : GeneratorRef)
    (p : PromiseRef) : Prop where
  /-- The frame is entered with the very next tick after the start. -/
  entered : ∀ later v m earlier, es = later ++ ⟨v, m⟩ :: earlier → (g, p) ∈ v.launches m →
    frameLog g earlier = [] ∧ ∃ v', Step v m v' ∧ Steps v' later w ∧
      v'.config.control.entering? = some (g, .normal .undefined)
  /-- The frame is resumed once at first, and once after each time that it has paused. -/
  protocol : ∃ q, FramePhase.fresh.reads (frameLog g es) = some q
  completions : ∀ before c after, frameLog g es = before ++ .resumed c :: after →
    before = [] ∧ c = .normal .undefined ∨
      ∃ earlier o, before = earlier ++ [.answered o] ∧ o.isFinished = false ∧
        w.config.engine.settlement? o.value = some c
  /-- Whenever the frame has paused, it waits, or a job has resumed it. -/
  waits : ∀ later v m earlier purpose o, es = later ++ ⟨v, m⟩ :: earlier →
    v.Stops m (.generator g purpose) o → o.isFinished = false →
    Body.Wait g p o.value (·.AwaitsFor (.body g p) o.value) later w
  unresolved : Unfinished g es → (w.config.engine.promise p).resolved = false
  concludes : ∀ later v m earlier purpose o, es = later ++ ⟨v, m⟩ :: earlier →
    v.Stops m (.generator g purpose) o → o.isFinished = true →
    (v.config.engine.promise p).resolved = false ∧
      ∃ v', Step v m v' ∧ Steps v' later w ∧ v.config.engine.Concludes p o v'.config.engine

/-- The frame of a generator has not finished before it stops. -/
theorem Run.unfinished_before {later earlier : List (Event H)} {v : World H} {m : Move H}
    (h : Run (later ++ ⟨v, m⟩ :: earlier) w) {purpose : Purpose H} {o : Outcome}
    (hs : v.Stops m (.generator g purpose) o) : Unfinished g earlier := by
  intro o' ho'
  obtain ⟨before, after, hlog⟩ := List.append_of_mem ho'
  obtain ⟨q, hq, -⟩ := h.phased g
  have hevents : frameLog g (later ++ ⟨v, m⟩ :: earlier) = before ++ .answered o' ::
      (after ++ (v.frameEvents m g ++ frameLog g later)) := by
    rw [frameLog_append, frameLog, hlog]
    simp only [List.append_assoc, List.cons_append]
  rw [hevents] at hq
  by_contra hfinished
  have hnil := (FramePhase.answered_cases hq).2 (by simpa using hfinished)
  have hnone := (List.append_eq_nil_iff.1 (List.append_eq_nil_iff.1 hnil).2).1
  rw [World.frameEvents, World.answers_of_stops hs] at hnone
  simp at hnone

/-- **Async functions.** On a run that loses nothing, and on which the host neither reaches
the generator of an async function nor settles its promise, the frame is entered at once, and
after each pause it is given what the value that it has paused with is settled with, by a
job. The promise stays unresolved until the frame has finished, and then it is resolved
with the value that the frame has returned, or rejected with what it has thrown. -/
theorem Run.async_function (h : Run es w) (hes : ∀ ev ∈ es, ev.move.Lossless)
    (hg : ∀ ev ∈ es, g ∉ ev.before.reaches ev.move) (hp : (g, p) ∈ launchedIn es)
    (hhost : ¬ HostSettlesResult g p es) : w.AsyncFunction es g p := by
  refine ⟨?_, ?_, fun _ _ _ => Run.completions h hes hg hp, ?_, fun hgoing => ?_, ?_⟩
  · rintro later v m earlier rfl hlaunch
    obtain ⟨v', hearlier, hstep, hlater⟩ := h.split
    exact ⟨Run.frameLog_of_unborn hearlier (World.size_le_of_launches hlaunch), v', hstep, hlater,
      hstep.entering_of_launches hlaunch⟩
  · obtain ⟨q, hq, -⟩ := h.phased g
    exact ⟨q, hq⟩
  · rintro later v m earlier purpose o rfl hs ho
    refine (Run.wait h hes hg (Run.launched_of_stops h hs hp) hs ho).imp fun hstate hexp => ?_
    exact World.awaitsFor_of_expects (Run.flights h hes) (Run.bodies h hes hg hp) hstate
      (World.expects_issued hexp.1 _) hexp.2
  · exact (Run.reserved h hes hp hg hhost hgoing).2.2
  · rintro later v m earlier purpose o rfl hs ho
    obtain ⟨v', hearlier, hstep, hlater⟩ := h.split
    have hes' : ∀ ev ∈ earlier, ev.move.Lossless := fun ev hev =>
      hes ev (List.mem_append_right _ (List.mem_cons_of_mem _ hev))
    have hg' : ∀ ev ∈ earlier, g ∉ ev.before.reaches ev.move := fun ev hev =>
      hg ev (List.mem_append_right _ (List.mem_cons_of_mem _ hev))
    have hp' := Run.launched_of_stops h hs hp
    obtain ⟨-, -, hr⟩ := Run.reserved hearlier hes' hp' hg'
      (fun hearly => hhost (HostSettlesResult.append (.earlier hearly) later))
      (Run.unfinished_before h hs)
    exact ⟨hr, v', hstep, hlater, hstep.concludes (Run.bodies hearlier hes' hg' hp')
      (Run.grounded hearlier) (Run.sane hearlier p) hr hs ho⟩

/-- Moves with which an async function waits for a promise, and returns when the wait is
over. -/
def World.awaitingOnce : List (Move Unit) :=
  [.perform .newPromise, .perform (.startAsync (.host ())), .tick,
    .finishFrame (.awaiting (.promise ⟨0⟩)) (), .tick, .perform (.resolve ⟨0⟩ (.boolean true)),
    .perform .runJobs, .tick, .tick, .tick, .finishFrame (.returned (.boolean false)) ()]

theorem Run.async_function_awaiting :
    let es := ({} : World Unit).events World.awaitingOnce
    let w := ({} : World Unit).after World.awaitingOnce
    frameLog ⟨0⟩ es = [.resumed (.normal .undefined), .answered (.awaiting (.promise ⟨0⟩)),
        .resumed (.normal (.boolean true)), .answered (.returned (.boolean false))] ∧
      (w.config.engine.promise ⟨1⟩).state = .fulfilled (.boolean false) ∧
      w.AsyncFunction es ⟨0⟩ ⟨1⟩ := by
  intro es w
  have hrun : Run es w := World.steps_after (by decide +kernel)
  have hhost : ¬ HostSettlesResult ⟨0⟩ ⟨1⟩ es := fun h =>
    absurd h.hostSettles.named (by decide +kernel)
  exact ⟨by decide +kernel, by decide +kernel, Run.async_function hrun (by decide +kernel)
    (by decide +kernel) (by decide +kernel) hhost⟩

end Runs

end Microtask
