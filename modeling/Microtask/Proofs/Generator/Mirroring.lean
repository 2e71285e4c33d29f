import Microtask.Proofs.Generator.Completing
import Microtask.Proofs.Generator.Relaying

/-!
# Yielding a promise is awaiting it

An async generator over a relay does the same as one over the frame itself. Step by step the
relay waits for a promise exactly while the frame has yielded one (`World.Suits`), and so there
is always a run with the relay that goes along (`Relay.step`). Seen from the outside it is the
same run (`Relay.Mirrors`): the moves of the relay come in between, and change nothing that
the step before or after them does not change.

Main statement: `Run.mirrored`.
-/

namespace Microtask

variable {H : Type}

/-! ## What the relay waits for -/

/-- Whether the waiter waits for a promise that a frame has yielded. -/
def Waiter.isYield : Waiter H → Bool
  | .yielding _ _ => true
  | _ => false

/-- The frame of the generator has yielded the promise. -/
def YieldedIn (es : List (Event H)) (g : GeneratorRef) (q : PromiseRef) : Prop :=
  .answered (.yielded (.promise q)) ∈ frameLog g es

theorem YieldedIn.later {es : List (Event H)} {g : GeneratorRef} {q : PromiseRef}
    (h : YieldedIn es g q) (ev : Event H) : YieldedIn (ev :: es) g q :=
  List.mem_append_left _ h

namespace World

/-- The frame inside the async generator has paused in the middle of a request. -/
structure FrameWaits (w : World H) (a : AsyncGeneratorRef) (g : GeneratorRef) : Prop where
  outer : (w.config.engine.asyncGenerator a).state = .executing
  inner : (w.config.engine.generator g).state = .suspendedYield

/-- The relay waits for a promise exactly if the frame has yielded it, and the request
waits for that. -/
structure Suits (w : World H) (es : List (Event H)) (a : AsyncGeneratorRef) (g : GeneratorRef)
    (waits : Bool) : Prop where
  idle : (w.config.engine.asyncGenerator a).state ≠ .executing → waits = false
  waiters : w.FrameWaits a g → (w.ledger (requestsIn es)).WaitersAre a (·.isYield = waits)
  yielded : w.FrameWaits a g → waits = true → ∀ r, 0 < (w.ledger []).owed (.serve a r) →
    ∃ q, YieldedIn es g q ∧ w.Awaiting (.serve a r) (.promise q)

namespace Suits

variable {w w' : World H} {es : List (Event H)} {a : AsyncGeneratorRef} {g : GeneratorRef}
  {waits : Bool}

/-- A relay that waits for nothing suits a frame that does not wait. -/
theorem of_not (h : ¬ w.FrameWaits a g) : w.Suits es a g false :=
  ⟨fun _ => rfl, fun hw => absurd hw h, fun hw => absurd hw h⟩

/-- While the frame runs, it makes no difference what the relay has waited for. -/
theorem of_executing (ha : (w.config.engine.asyncGenerator a).state = .executing)
    (hg : (w.config.engine.generator g).state = .executing) (waits : Bool) :
    w.Suits es a g waits := by
  have hnot : ¬ w.FrameWaits a g := fun hw => by cases hg.symm.trans hw.inner
  exact ⟨fun hne => absurd ha hne, fun hw => absurd hw hnot, fun hw => absurd hw hnot⟩

end Suits

end World

/-- A frame that stops does so in its step, and nothing is dropped. -/
theorem World.Stops.drives {w : World H} {m : Move H} {s : Stepper H} {o : Outcome}
    (hs : w.Stops m s o) : w.drives m = s.drives := by
  cases hs <;> rfl

theorem World.Stops.clears {w : World H} {m : Move H} {s : Stepper H} {o : Outcome}
    (hs : w.Stops m s o) : m.clears = false := by
  cases hs <;> rfl

/-- Nothing happens to the engine while a frame goes on. -/
theorem Step.engine_of_goesOn {w w' : World H} (h : Step w .tick w') {s : Stepper H}
    (hcontrol : (∃ f c, w.config.control = .resume f c s) ∨ ∃ f, w.config.control = .run f s)
    (hstop : ∀ o, ¬ w.Stops .tick s o) : w'.config.engine = w.config.engine := by
  obtain ⟨⟨e, control⟩, held⟩ := w
  have hprogress : ∀ {progress : ScriptFrame.Progress}, (∀ o f, progress ≠ .stopped o f) →
      (e.scriptProgress s progress).engine = e := by
    intro progress hp
    cases progress with
    | running f => rfl
    | stopped o f => exact absurd rfl (hp o f)
  cases h
  obtain ⟨f, c, rfl⟩ | ⟨f, rfl⟩ := hcontrol
  · cases f with
    | values f => exact absurd (.values f) (hstop _)
    | script f => exact hprogress fun o f' heq => hstop o (.enter heq)
    | host code => rfl
  · exact hprogress fun o f' heq => hstop o (.script heq)

section Steps

variable {w w' : World H} {m : Move H} {es : List (Event H)} {a : AsyncGeneratorRef}
  {g : GeneratorRef} {waits : Bool}

/-- **A step that passes the generator by** leaves what the relay waits for. -/
theorem Step.suits (h : Step w m w') (hlaw : w.Lawful) (hsingle : w.config.Single)
    (hl : (w.ledger (requestsIn es)).Exclusive) (hp : w.Paired (requestsIn es) a g)
    (hg : ∀ x ∈ w.drives m, x.1 ≠ g) (ha : ∀ x ∈ w.drives m, ∀ r, x.2 ≠ some (.serve a r))
    (hw : w.Suits es a g waits) : w'.Suits (⟨w, m⟩ :: es) a g waits := by
  have hbacked := hlaw.1
  have hstate := h.state_eq hbacked hp.allocated' ha
  have hgen : w'.config.engine.generator g = w.config.engine.generator g := by
    by_cases hm : m = .abandon
    · subst hm
      exact congrArg (Store.get · g.index) (h.abandons []).2.2.1
    · have hc := h.changes (D := (· ≠ g)) hg fun hab => absurd hab hm
      exact hc.generator_eq (fun hne => hne rfl) hp.allocated
  have hbefore : w'.FrameWaits a g → w.FrameWaits a g := fun hwaits =>
    ⟨hstate.symm.trans hwaits.outer, hgen ▸ hwaits.inner⟩
  refine ⟨fun hne => hw.idle (hstate ▸ hne), fun hwaits => ?_, fun hwaits hyes r hr => ?_⟩
  · have hare := hw.waiters (hbefore hwaits)
    by_cases hm : m = .abandon
    · subst hm
      exact hare.lose (h.abandons (requestsIn es)).1
    · rw [← w.keeping_nil] at hl hare
      have hkept := hare.pass fun r =>
        (h.passes_kept hm hbacked hl.lawful (d := .serve a r) trivial fun x hx => ha x hx r).1
      exact hkept.lose (w'.forgets _ _)
  · have hnot : ∀ x ∈ w.drives m, x.2 ≠ some (.serve a r) := fun x hx => ha x hx r
    have howed : 0 < (w.ledger (requestsIn es)).owed (.serve a r) :=
      Nat.lt_of_lt_of_le hr (h.owed_mono hbacked hl.lawful trivial hnot)
    obtain ⟨q, hq, hwait⟩ := hw.yielded (hbefore hwaits) hyes r howed
    exact ⟨q, hq.later _, h.awaiting (d := .serve a r) hlaw hsingle hl.lawful trivial hnot hwait⟩

/-- **When the frame stops**, the relay waits if the frame has yielded a promise, and the
request waits for that. -/
theorem Step.suits_of_stops (h : Step w m w') (hbacked : w.config.engine.Backed)
    (hl : (w.ledger (requestsIn es)).Exclusive) (hp : w.Paired (requestsIn es) a g)
    {r : Request} {reply : Value} {k : Caller H} {o : Outcome}
    (hs : w.Stops m (.generator g (.serving a r reply k)) o) :
    w'.Suits (⟨w, m⟩ :: es) a g o.yieldsPromise := by
  obtain ⟨f, rfl⟩ := h.stops hs
  let e := w.config.engine.endStep g f o
  have hledger := hs.ledger (requestsIn es)
  have hstack := hs.stack_pos (requestsIn es)
  have hstate := hp.state_stopped hs f
  obtain ⟨halike, hjobs⟩ := w.config.engine.endStep_alike g f o
  have hwaiters : ∀ v waiter, e.absorbOutcome a r (.ok o) = e.await v waiter →
      waiter.isYield = o.yieldsPromise →
      ((World.mk (w.config.engine.frameStopped o f (.generator g (.serving a r reply k)))
        w.held).ledger (w.issued (requestsIn es) m)).WaitersAre a (·.isYield = o.yieldsPromise) :=
    fun v waiter hawait hyield => h.waiters_of_await hs.clears hbacked hl.lawful.sound
      (hl.owed_le_count hstack) halike.callables (congrArg Engine.callables hawait) hyield
  have hdone : o.stateAfter .executing ≠ .executing → o.yieldsPromise = false →
      (World.mk (w.config.engine.frameStopped o f (.generator g (.serving a r reply k)))
        w.held).Suits (⟨w, m⟩ :: es) a g o.yieldsPromise := by
    intro hne hno
    rw [hno]
    exact .of_not fun hwaits => hne (hstate.symm.trans hwaits.outer)
  cases o with
  | yielded v =>
    cases v with
    | promise q =>
      refine ⟨fun hne => absurd hstate hne, fun _ => hwaiters (.promise q) (.yielding a r) rfl rfl,
        fun _ _ r' hr' => ?_⟩
      -- no other request is in flight
      obtain rfl : r' = r := by
        by_contra hne
        have hnot : ∀ x ∈ w.drives m, x.2 ≠ some (.serve a r') := by
          rw [hs.drives]
          intro x hx hxr
          rw [List.mem_singleton.1 hx] at hxr
          cases hxr
          exact hne rfl
        have howed : 0 < (w.ledger (requestsIn es)).owed (.serve a r') :=
          Nat.lt_of_lt_of_le hr' (h.owed_mono hbacked hl.lawful trivial hnot)
        exact hne (hl.unique howed (hstack.trans_le (Nat.le_add_left _ _)))
      have hk : k.duties ⊆ w.config.control.duties := by
        have hduties : w.config.control.duties = .serve a r' :: k.duties :=
          congrArg Ledger.stack hledger
        exact hduties ▸ List.subset_cons_self _ _
      have hexpects : ((World.mk ⟨e.await (.promise q) (.yielding a r'), .serve a reply k⟩
          w.held).ledger []).Expects (.serve a r') (.promise q) :=
        World.expects_await hl.lawful (congrArg Ledger.called hledger) halike hjobs hk
          (hl.owed_le_count hstack r') (.yielding a r') rfl (.promise q)
      refine ⟨q, ?_, hexpects, fun f kind hf => by cases hf⟩
      have hanswers := World.answers_of_stops hs
      exact List.mem_append_right _ (List.mem_append_right _
        (List.mem_append_left _ (hanswers ▸ List.mem_cons_self)))
    | _ => exact hdone (fun heq => by cases heq) rfl
  | awaiting v =>
    exact ⟨fun _ => rfl, fun _ => hwaiters v (.awaiting a r) rfl rfl, fun _ hyes => by cases hyes⟩
  | returned v => cases v <;> exact hdone (fun heq => by cases heq) rfl
  | threw reason => exact hdone (fun heq => by cases heq) rfl

end Steps

/-! ## Steps with a relay -/

namespace Relay

/-- With a relay in place of the frame the step is possible as well, and the relay suits the
frame after it. -/
def GoesAlong (R : Relay H) (es : List (Event H)) (a : AsyncGeneratorRef) (g : GeneratorRef)
    (waits : Bool) (w : World H) (m : Move H) (w' : World H) : Prop :=
  ∃ waits' own, R.Follows a g (some waits) (some waits') w m own w' ∧
    w'.Suits (⟨w, m⟩ :: es) a g waits'

variable {R : Relay H} {w w' : World H} {m : Move H} {es : List (Event H)}
  {a : AsyncGeneratorRef} {g : GeneratorRef} {waits : Bool} {r : Request} {reply : Value}
  {k : Caller H}

/-- The engine asks for a step of the frame. -/
theorem goesAlong_of_resumes (h : Step w .tick w') (hl : (w.ledger (requestsIn es)).Exclusive)
    (hp : w.Paired (requestsIn es) a g) {e : Engine H} {c : Completion}
    (hr : w.Resumes .tick e g c (.serving a r reply k))
    (hdoes : ∀ f, R.Does (.resumed (R.code waits f) c) (.perform (.resumeFrame f c))) :
    R.GoesAlong es a g waits w .tick w' := by
  obtain ⟨ht, hf, -⟩ := hp.of_resumes hl hr
  obtain ⟨f, hf⟩ := Option.isSome_iff_exists.1 hf
  obtain ⟨own, hfollows⟩ := begins h hr ht hf (hdoes f)
  obtain ⟨hs, -⟩ := hp.stands_of_resumes hl h hr
  exact ⟨false, own, hfollows, .of_executing hs.outer hs.inner false⟩

/-- The frame stops. -/
theorem goesAlong_of_stops (h : Step w m w') (hbacked : w.config.engine.Backed)
    (hl : (w.ledger (requestsIn es)).Exclusive) (hp : w.Paired (requestsIn es) a g) {o : Outcome}
    (hs : w.Stops m (.generator g (.serving a r reply k)) o) :
    R.GoesAlong es a g waits w m w' := by
  have haway := (hp.of_mem_steps hs.mem_steps).1.frame
  have hleaves : ∃ own, R.Follows a g (some waits) (some o.yieldsPromise) w m own w' :=
    leaves h hs (by simpa using haway)
  obtain ⟨own, hfollows⟩ := hleaves
  exact ⟨o.yieldsPromise, own, hfollows, h.suits_of_stops hbacked hl hp hs⟩

/-- The frame is running. -/
theorem goesAlong_of_runs (h : Step w .tick w') (hbacked : w.config.engine.Backed)
    (hl : (w.ledger (requestsIn es)).Exclusive) (hp : w.Paired (requestsIn es) a g)
    (hcontrol : (∃ f c, w.config.control = .resume f c (.generator g (.serving a r reply k))) ∨
      ∃ f, w.config.control = .run f (.generator g (.serving a r reply k))) :
    R.GoesAlong es a g waits w .tick w' := by
  by_cases hstop : ∃ o, w.Stops .tick (.generator g (.serving a r reply k)) o
  · obtain ⟨o, hs⟩ := hstop
    exact goesAlong_of_stops h hbacked hl hp hs
  · have hgoes : ∀ o, ¬ w.Stops .tick (.generator g (.serving a r reply k)) o :=
      fun o hs => hstop ⟨o, hs⟩
    have hmem : (g, some (.serve a r)) ∈ w.config.control.steps := by
      obtain ⟨f, c, hc⟩ | ⟨f, hc⟩ := hcontrol <;> rw [hc] <;> exact List.mem_cons_self
    have hs := (hp.of_mem_steps hmem).1
    have hsame : w'.config.engine = w.config.engine := h.engine_of_goesOn hcontrol hgoes
    refine ⟨waits, [], goesOn h hcontrol hgoes, .of_executing ?_ ?_ waits⟩
    · rw [hsame, hs.outer]
    · rw [hsame, hs.inner]

/-- The request is answered by the callback of a wait for the final result. -/
theorem callFunction_returning {e : Engine H} {f : FunctionRef} {kind : Settling}
    (hu : (e.callable f).usage ≠ .spent) (hcode : (e.callable f).code = .wake (.returning a r) kind)
    (args : List Value) (k : Caller H) (made : Option Bool) :
    (e.guise (R.guise a g made)).callFunction f args (k.relayed g) =
      (e.callFunction f args k).guise (R.guise a g made) := by
  have hu' : ((e.guise (R.guise a g made)).callable f).usage ≠ .spent := by
    rwa [Engine.usage_guise]
  have hcode' : ((e.guise (R.guise a g made)).callable f).code = .wake (.returning a r) kind := by
    rw [Engine.callable_guise, Callable.guise, hcode]
    rfl
  rw [Engine.callFunction_wake hu hcode, Engine.callFunction_wake hu' hcode', Engine.used_guise]
  cases kind with
  | fulfill => exact congrArg (Config.mk · _) (Engine.completeWith_guise _ _ a r _)
  | reject => exact congrArg (Config.mk · _) (Engine.failWith_guise _ _ a r _)

/-- A wait is over. -/
theorem goesAlong_of_wake {e : Engine H} {f : FunctionRef} {args : List Value}
    {held : List (Job H)} {waiter : Waiter H} {kind : Settling}
    (h : Step ⟨⟨e, .call f args k⟩, held⟩ .tick w')
    (hl : ((World.mk ⟨e, .call f args k⟩ held).ledger (requestsIn es)).Exclusive)
    (hp : (World.mk ⟨e, .call f args k⟩ held).Paired (requestsIn es) a g)
    (hw : (World.mk ⟨e, .call f args k⟩ held).Suits es a g waits)
    (hplain : ∀ q, YieldedIn es g q → ∀ q', (e.promise q).state ≠ .fulfilled (.promise q'))
    (hcode : (e.callable f).code = .wake waiter kind) (hd : waiter.duty? = some (.serve a r)) :
    R.GoesAlong es a g waits ⟨⟨e, .call f args k⟩, held⟩ .tick w' := by
  have hen := Engine.engagement?_of_wake hcode hd
  have hcalled : ((World.mk ⟨e, .call f args k⟩ held).ledger (requestsIn es)).called = some f :=
    World.called_of_wake hcode hd
  have hpos := Ledger.owed_pos_of_called hcalled hen
  have hu : (e.callable f).usage ≠ .spent :=
    (World.usage_of_wake (hl.unspent a r) hcode hd).trans_ne (by decide)
  have hstands := hp.of_called hl hcode hd hcalled
  have hyields : waiter.isFinal = false → (World.mk ⟨e, .call f args k⟩ held).FrameWaits a g ∧
      waiter.isYield = waits := by
    intro hfinal
    obtain ⟨-, hs⟩ := hstands.resolve_right fun hyes => by cases hfinal.symm.trans hyes.1
    have hwaits : (World.mk ⟨e, .call f args k⟩ held).FrameWaits a g := ⟨hs.outer, hs.inner⟩
    exact ⟨hwaits, hw.waiters hwaits f waiter kind r hcode hd (.inr hcalled)⟩
  obtain rfl : (e.asyncGenerator a).inner = g := hp.inner
  cases waiter with
  | yielding b r' =>
    cases hd
    obtain ⟨hwaits, rfl⟩ := hyields rfl
    cases kind with
    | fulfill =>
      obtain ⟨q, hq, hwait⟩ := hw.yielded hwaits rfl r hpos
      obtain ⟨x, k', hcontrol, hset⟩ := hwait.called f .fulfill hcalled hen
      cases hcontrol
      have hstate : (e.promise q).state = .fulfilled x := by
        have hset' : e.settlement? (.promise q) = some (.normal x) := hset
        cases hs : (e.promise q).state <;> simp only [Engine.settlement?, hs] at hset' <;> cases hset'
        rfl
      have hx : ∀ q', Value.argument [x] 0 ≠ .promise q' := fun q' heq =>
        hplain q hq q' (hstate.trans (congrArg _ heq))
      obtain ⟨-, hs⟩ := hstands.resolve_right fun hfinal => by cases hfinal.1
      obtain ⟨fr, hfr⟩ := Option.isSome_iff_exists.1 hs.frame
      obtain ⟨own, hfollows⟩ := yieldsAgain (R := R) hu hcode h rfl hs.inner hfr hx
      refine ⟨false, own, hfollows, .of_not fun hafter => ?_⟩
      obtain ⟨config, held'⟩ := w'
      obtain rfl : config = ⟨(e.used f).settleYield a r x, .serve a .undefined k⟩ := by
        cases h
        exact Engine.callFunction_wake hu hcode [x] k
      cases hafter.outer.symm.trans ((e.used f).state_answerRequest a .suspendedYield r x false)
    | reject => exact goesAlong_of_resumes h hl hp (.yielding hu hcode) fun _ => .throw
  | awaiting b r' =>
    cases hd
    obtain ⟨-, rfl⟩ := hyields rfl
    exact goesAlong_of_resumes h hl hp (.awaiting hu hcode) fun _ => .forward
  | returning b r' =>
    cases hd
    obtain ⟨-, hs⟩ := hstands.resolve_left fun hfinal => by cases hfinal.1
    obtain rfl : waits = false := hw.idle fun hexec => by cases hs.outer.symm.trans hexec
    refine ⟨false, [], .tick h (callFunction_returning hu hcode args k _), .of_not fun hafter => ?_⟩
    obtain ⟨config, held'⟩ := w'
    obtain rfl : config = (e.used f).wake kind (Value.argument args 0) k (.returning a r) := by
      cases h
      exact Engine.callFunction_wake hu hcode args k
    cases kind with
    | fulfill => cases hafter.outer.symm.trans ((e.used f).state_answerRequest a .completed r _ true)
    | reject => cases hafter.outer.symm.trans ((e.used f).state_failWith a r _)
  | body g p => cases hd
  | host onFulfilled onRejected => cases hd

/-- Requests that need no step are served in a guise as they are without. -/
theorem serve_guise_of_answered {e : Engine H} (G : Guise H)
    (h : ∀ e' inner r, e.takeRequest a ≠ (e', .resume inner r)) (reply : Value) (k : Caller H) :
    (e.guise G).serve a reply (G.caller k) = (e.serve a reply k).guise G := by
  simp only [Engine.serve, Engine.takeRequest_guise]
  cases ht : e.takeRequest a with
  | mk e' service =>
    cases service with
    | idle => rfl
    | answered => rfl
    | resume inner r => exact absurd ht (h e' inner r)

/-- The next request is taken off the queue. -/
theorem goesAlong_of_serve {e : Engine H} {held : List (Job H)} {rest : List Request}
    (h : Step ⟨⟨e, .serve a reply k⟩, held⟩ .tick w')
    (hl : ((World.mk ⟨e, .serve a reply k⟩ held).ledger (requestsIn es)).Exclusive)
    (hp : (World.mk ⟨e, .serve a reply k⟩ held).Paired (requestsIn es) a g)
    (hw : (World.mk ⟨e, .serve a reply k⟩ held).Suits es a g waits)
    (hq : (e.asyncGenerator a).queue = r :: rest) :
    R.GoesAlong es a g waits ⟨⟨e, .serve a reply k⟩, held⟩ .tick w' := by
  have hanswers : (∀ e' inner r, e.takeRequest a ≠ (e', .resume inner r)) →
      R.Follows a g (some waits) (some waits) ⟨⟨e, .serve a reply k⟩, held⟩ .tick [] w' :=
    fun hnone => .tick h (serve_guise_of_answered _ hnone reply k)
  cases hb : (e.asyncGenerator a).state.isBusy with
  | true =>
    obtain ⟨_, _, _, _, heq, rfl⟩ := h.of_busy (.intro hq) hb
    cases heq
    have hidle : e.takeRequest a = (e, .idle) := if_pos hb
    have hbefore : ∀ {control}, (World.mk ⟨e, control⟩ held).FrameWaits a g →
        (World.mk ⟨e, .serve a reply k⟩ held).FrameWaits a g := fun h => ⟨h.outer, h.inner⟩
    refine ⟨waits, [], hanswers (by simp [hidle]), hw.idle, fun hwaits => ?_,
      fun hwaits hyes r' hr' => ?_⟩
    · exact fun f waiter kind r hcode hd hf => hw.waiters (hbefore hwaits) f waiter kind r hcode hd hf
    obtain ⟨q, hq', ⟨p, hstands, hon⟩, -⟩ := hw.yielded (hbefore hwaits) hyes r' hr'
    exact ⟨q, hq'.later _,
      ⟨p, hstands, fun f kind hen hf => ⟨(hon f kind hen hf).reaction, (hon f kind hen hf).job⟩⟩,
      fun f kind hf => by cases hf⟩
  | false =>
    obtain rfl : waits = false := hw.idle fun hexec => by
      have hexec : (e.asyncGenerator a).state = .executing := hexec
      rw [hexec] at hb
      cases hb
    obtain ⟨config, held'⟩ := w'
    have hconfig : config = e.serve a reply k := by cases h; rfl
    have hdone : ∀ {e' : Engine H} {s : AsyncGeneratorState}, e.takeRequest a = (e', .answered) →
        (e'.asyncGenerator a).state = s → s ≠ .executing →
        R.GoesAlong es a g false ⟨⟨e, .serve a reply k⟩, held⟩ .tick ⟨config, held'⟩ := by
      intro e' s ht hs hne
      refine ⟨false, [], hanswers (by simp [ht]), .of_not fun hafter => hne ?_⟩
      have heq : config = ⟨e', .serve a reply k⟩ := by rw [hconfig, Engine.serve, ht]
      rw [heq] at hafter
      exact hs.symm.trans hafter.outer
    let taken := e.modifyAsyncGenerator a fun g => { g with queue := rest }
    let closed := taken.closeGenerator (e.asyncGenerator a).inner
    obtain ⟨hs, ht⟩ | ⟨-, -, ht⟩ | ⟨-, -, ht⟩ | ⟨-, ht⟩ := Engine.takeRequest_cases hb hq
    · refine hdone (s := .completed) ht ?_ (by decide)
      have hspares := (taken.spares_answerRequest r .undefined true).asyncGenerator a
      have hself : taken.asyncGenerator a = { e.asyncGenerator a with queue := rest } :=
        (e.asyncGenerator_modify a a _).trans (if_pos rfl)
      exact (congrArg AsyncGenerator.state (hspares.trans hself)).trans hs
    · exact hdone ht (closed.state_failWith a r _) (by decide)
    · exact hdone ht (closed.state_awaitReturn a r _) (by decide)
    · obtain rfl : (e.asyncGenerator a).inner = g := hp.inner
      exact goesAlong_of_resumes h hl hp (.serve ht) fun _ => .forward

/-- **With a relay in place of the frame every step is possible as well.** -/
theorem step (h : Step w m w') (hlaw : w.Lawful) (hsingle : w.config.Single)
    (hl : (w.ledger (requestsIn es)).Exclusive) (hin : w.Inside)
    (hp : w.Paired (requestsIn es) a g)
    (hreach : g ∈ w.reaches m → ∃ c, m.request? = some (a, c)) (hw : w.Suits es a g waits)
    (hplain : ∀ q, YieldedIn es g q →
      ∀ q', (w.config.engine.promise q).state ≠ .fulfilled (.promise q')) :
    R.GoesAlong es a g waits w m w' := by
  by_cases hdrive : ∃ x ∈ w.drives m, x.1 = g
  · obtain ⟨x, hx, hg⟩ := hdrive
    have hdrives : w.Drives m g x.2 := hg ▸ World.drives_of_mem hx
    obtain ⟨r, hd⟩ := hp.duty_of_drives hl hreach hdrives
    generalize x.2 = d at hdrives hd
    cases hdrives with
    | wake hcode hmem =>
      cases hd
      exact goesAlong_of_wake h hl hp hw hplain hcode (Waiter.duty?_of_drives hmem)
    | resume =>
      obtain ⟨reply, k, rfl⟩ := Purpose.eq_serving hd
      cases h with
      | tick => exact goesAlong_of_runs (.tick _ _) hlaw.1 hl hp (.inl ⟨_, _, rfl⟩)
    | run =>
      obtain ⟨reply, k, rfl⟩ := Purpose.eq_serving hd
      cases h with
      | tick => exact goesAlong_of_runs (.tick _ _) hlaw.1 hl hp (.inr ⟨_, rfl⟩)
    | frame o code =>
      obtain ⟨reply, k, rfl⟩ := Purpose.eq_serving hd
      exact goesAlong_of_stops h hlaw.1 hl hp (.host o code)
    | serve hq =>
      cases hd
      exact goesAlong_of_serve h hl hp hw hq
    | start f => exact absurd hp.allocated (Nat.lt_irrefl _)
    | named hmem => cases hd
  · have hg : ∀ x ∈ w.drives m, x.1 ≠ g := fun x hx heq => hdrive ⟨x, hx, heq⟩
    have ha : ∀ x ∈ w.drives m, ∀ r, x.2 ≠ some (.serve a r) := by
      intro x hx r hr
      have hinside := World.inside_of_drives hl hin (hr ▸ World.drives_of_mem hx)
      exact hdrive ⟨x, hx, hinside.2.trans hp.inner⟩
    refine ⟨waits, [], ?_, h.suits hlaw hsingle hl hp hg ha hw⟩
    by_cases hm : m = .abandon
    · subst hm
      exact abandons h
    · exact passesBy h hm (fun _ _ => hp.allocated) hg ha

end Relay

/-! ## Runs with a relay -/

/-- The completion that the frame is resumed with. -/
def FrameEvent.completion? : FrameEvent → Option Completion
  | .resumed c => some c
  | .answered _ | .lost => none

/-- What the frame of a generator is resumed with in the course of some events. -/
def deliveredIn (g : GeneratorRef) (es : List (Event H)) : List Completion :=
  (frameLog g es).filterMap FrameEvent.completion?

/-- What a frame is resumed with on behalf of the frame of a generator. -/
def World.forwards (w : World H) (m : Move H) (g : GeneratorRef) : List Completion :=
  match m, w.config.control with
  | .tick, .resume _ c (.host (.frame (.generator g' _))) => if g' = g then [c] else []
  | _, _ => []

/-- What the frame of a generator has forwarded in the course of some events. -/
def forwardedIn (g : GeneratorRef) : List (Event H) → List Completion
  | [] => []
  | ev :: es => forwardedIn g es ++ ev.before.forwards ev.move g

theorem forwardedIn_append (g : GeneratorRef) (es es' : List (Event H)) :
    forwardedIn g (es ++ es') = forwardedIn g es' ++ forwardedIn g es := by
  induction es with
  | nil => exact (List.append_nil _).symm
  | cons ev es ih => rw [List.cons_append, forwardedIn, ih, forwardedIn, List.append_assoc]

namespace Relay

variable (R : Relay H) (a : AsyncGeneratorRef) (g : GeneratorRef)

/-- The same move with a relay: the async generator is made over the relay. -/
inductive Turns (w : World H) : Move H → Move H → Prop where
  | same {m : Move H} : (a, g) ∉ w.makes m → Turns w m m
  | make {f : Frame H} : (a, g) ∈ w.makes (.perform (.newAsyncGenerator f)) →
      Turns w (.perform (.newAsyncGenerator f)) (.perform (.newAsyncGenerator (.host (R.ready f))))

/-- The relay does what it has to do whenever it has the floor. -/
def Obeys (ev : Event H) : Prop :=
  ∀ e purpose prompt held,
    ev.before = ⟨⟨e, .host (.frame (.generator g purpose)) prompt⟩, held⟩ → R.Does prompt ev.move

/-- **The same run with a relay.** The moves are the same, with some of the relay's own
after them. Seen from the outside the world is the same before and after each move, and what
the relay does besides happens at once before or after it. -/
inductive Mirrors : List (Event H) → World H → List (Event H) → World H → Prop where
  | start : Mirrors [] {} [] {}
  | step {es es' own : List (Event H)} {w w' v v' : World H} {m m' : Move H} :
      Mirrors es w es' v → R.Turns a g w m m' → (∀ ev ∈ own, R.Own g ev) →
      (∀ ev ∈ own, ev.before.config.engine.seen = w.config.engine.seen) ∨
        (∀ ev ∈ own, ev.before.config.engine.seen = w'.config.engine.seen) →
      v'.config.engine.seen = w'.config.engine.seen →
      Mirrors (⟨w, m⟩ :: es) w' (own ++ ⟨v, m'⟩ :: es') v'

/-- A run with a relay that mirrors another one, and in which the frame is given the same. -/
structure Image (es : List (Event H)) (w : World H) (es' : List (Event H)) (v : World H) :
    Prop where
  run : Run es' v
  mirrors : R.Mirrors a g es w es' v
  obeys : ∀ ev ∈ es', R.Obeys g ev
  delivered : forwardedIn g es' = deliveredIn g es

variable {R a g} {w w' : World H} {m : Move H} {es es' : List (Event H)} {made : Option Bool}

theorem forwards_guise : (w.guise (R.guise a g made)).forwards m g =
    (w.frameEvents m g).filterMap FrameEvent.completion? := by
  have hrest : (w.answers m g ++ w.loses m g).filterMap FrameEvent.completion? = [] := by
    refine List.filterMap_eq_nil_iff.2 fun ev hev => ?_
    rcases List.mem_append.1 hev with hev | hev
    · obtain ⟨-, o, rfl, -⟩ := World.mem_answers hev
      rfl
    · rw [(World.mem_loses hev).1]
      rfl
  rw [World.frameEvents, List.filterMap_append, hrest, List.append_nil]
  obtain ⟨⟨e, control⟩, held⟩ := w
  cases m with
  | tick =>
    cases control with
    | resume f c s =>
      cases s with
      | generator g' purpose =>
        by_cases hg : g' = g <;>
          simp [World.forwards, World.guise, Config.guise, Control.guise, Relay.guise,
            Stepper.relayed, World.resumes, Control.entering?, FrameEvent.completion?, hg]
      | host h =>
        cases h with
        | frame s =>
          have hforwards : ∀ s' : Stepper H, (∀ purpose, s' ≠ .generator g purpose) →
              World.forwards ⟨⟨e.guise (R.guise a g made), .resume f c (.host (.frame s'))⟩, held⟩
                .tick g = [] := by
            intro s' hs'
            cases s' with
            | host h => rfl
            | generator g' purpose => exact if_neg fun heq => hs' purpose (by rw [heq])
          exact hforwards _ fun purpose => s.relayed_ne g purpose
        | _ => rfl
    | _ => rfl
  | _ => rfl

/-- The relay's own events are none of forwarding. -/
theorem Own.forwards {ev : Event H} (h : R.Own g ev) : ev.before.forwards ev.move g = [] := by
  cases h with
  | enter => rfl
  | @floor _ _ _ _ m hdoes => cases m <;> rfl

theorem Own.obeys {ev : Event H} (h : R.Own g ev) : R.Obeys g ev := by
  intro e purpose prompt held hev
  cases h with
  | enter => cases hev
  | floor hdoes =>
    cases hev
    exact hdoes

/-- The relay has the floor in none of the worlds of the run without. -/
theorem obeys_guise (w : World H) (m : Move H) :
    R.Obeys g ⟨w.guise (R.guise a g made), m⟩ := by
  intro e purpose prompt held hev
  obtain ⟨⟨e, control⟩, held⟩ := w
  have hcontrol : control.guise (R.guise a g made) = .host (.frame (.generator g purpose)) prompt :=
    congrArg (fun w => w.config.control) hev
  cases control with
  | host h p =>
    have hact := (Control.host.inj hcontrol).1
    cases h with
    | frame s => exact absurd (Activation.frame.inj hact) (s.relayed_ne g purpose)
    | _ => cases hact
  | _ => cases hcontrol

/-- **An async generator is made** over the relay. -/
theorem makes {f : Frame H} (h : Step w (.perform (.newAsyncGenerator f)) w')
    (ha : a = ⟨w.config.engine.asyncGenerators.size⟩) (hg : g = ⟨w.config.engine.generators.size⟩) :
    Step (w.guise (R.guise a g none)) (.perform (.newAsyncGenerator (.host (R.ready f))))
      (w'.guise (R.guise a g (some false))) := by
  cases h with
  | @perform e h prompt held _ _ =>
    have hrecords : ∀ r : Generator H, (e.generators.push r).adjust g.index (Generator.relayed R false) =
        e.generators.push (r.relayed R false) := fun r => by
      rw [hg]
      exact e.generators.adjust_push _ r
    have hmade : ((e.guise (R.guise a g none)).newAsyncGenerator (.host (R.ready f))) =
        ((e.newAsyncGenerator f).1, (e.newAsyncGenerator f).2.guise (R.guise a g (some false))) := by
      simp only [Engine.newAsyncGenerator, Engine.newGenerator, Engine.guise, Relay.guise, records,
        hrecords]
      rfl
    have hperform : ((e.guise (R.guise a g none)).perform ((R.guise a g none).activation h)
        (.newAsyncGenerator (.host (R.ready f)))) =
        (e.perform h (.newAsyncGenerator f)).guise (R.guise a g (some false)) := by
      simp only [Engine.perform, hmade]
      rfl
    rw [World.guise, World.guise, ← hperform]
    exact .perform ⟨by rintro _ ⟨⟩, by rintro _ ⟨⟩⟩

/-- A further step. -/
theorem Image.extend {own : List (Event H)} {m' : Move H} {v' : World H}
    (h : R.Image a g es w es' (w.guise (R.guise a g made))) (hturn : R.Turns a g w m m')
    (howns : ∀ ev ∈ own, R.Own g ev)
    (hseen : (∀ ev ∈ own, ev.before.config.engine.seen = w.config.engine.seen) ∨
      ∀ ev ∈ own, ev.before.config.engine.seen = w'.config.engine.seen)
    (hsteps : Steps (w.guise (R.guise a g made)) (own ++ [⟨w.guise (R.guise a g made), m'⟩]) v')
    (hv : v'.config.engine.seen = w'.config.engine.seen)
    (hforwards : (w.guise (R.guise a g made)).forwards m' g =
      (w.frameEvents m g).filterMap FrameEvent.completion?) :
    R.Image a g (⟨w, m⟩ :: es) w' (own ++ ⟨w.guise (R.guise a g made), m'⟩ :: es') v' where
  run := by simpa using Steps.trans h.run hsteps
  mirrors := h.mirrors.step hturn howns hseen hv
  obeys ev hev := by
    rcases List.mem_append.1 hev with hev | hev
    · exact (howns ev hev).obeys
    · rcases List.mem_cons.1 hev with rfl | hev
      · exact obeys_guise w m'
      · exact h.obeys ev hev
  delivered := by
    have hown : forwardedIn g own = [] := by
      clear hsteps hseen
      induction own with
      | nil => rfl
      | cons ev own ih =>
        rw [forwardedIn, (howns ev List.mem_cons_self).forwards,
          ih fun ev hev => howns ev (List.mem_cons_of_mem _ hev)]
        rfl
    rw [forwardedIn_append, hown, List.append_nil, forwardedIn, h.delivered, hforwards, deliveredIn,
      deliveredIn, frameLog, List.filterMap_append]

theorem Image.follow {own : List (Event H)} {made' : Option Bool}
    (h : R.Image a g es w es' (w.guise (R.guise a g made))) (hmakes : (a, g) ∉ w.makes m)
    (hf : R.Follows a g made made' w m own w') :
    R.Image a g (⟨w, m⟩ :: es) w' (own ++ ⟨w.guise (R.guise a g made), m⟩ :: es')
      (w'.guise (R.guise a g made')) :=
  h.extend (.same hmakes) hf.owns hf.seen hf.steps rfl forwards_guise

end Relay

section Runs

open Relay

variable {R : Relay H} {w w' : World H} {m : Move H} {es : List (Event H)} {a : AsyncGeneratorRef}
  {g : GeneratorRef}

/-- The frame has yielded no promise that is fulfilled with a promise value. -/
def World.YieldsPlain (w : World H) (es : List (Event H)) (g : GeneratorRef) : Prop :=
  ∀ q, YieldedIn es g q → ∀ q', (w.config.engine.promise q).state ≠ .fulfilled (.promise q')

theorem World.YieldsPlain.before (h : Step w m w') (hlaw : w.Lawful)
    (hp : w'.YieldsPlain (⟨w, m⟩ :: es) g) : w.YieldsPlain es g := fun q hq q' hstate =>
  hp q (hq.later _) q' ((((h.lawful hlaw).2 q).settled (by simp [hstate])).trans hstate)

theorem Relay.guise_start (R : Relay H) (a : AsyncGeneratorRef) (g : GeneratorRef) :
    ({} : World H).guise (R.guise a g none) = {} := by
  have hcallables : (({} : Engine H).callables.map fun c => c.guise (R.guise a g none)) = {} := by
    simp [Store.map]
  simp only [World.guise, Config.guise, Engine.guise, hcallables]
  rfl

/-- An async generator that is not made yet is no different with a relay. -/
theorem Step.follows_unborn (h : Step w m w') (hbacked : w.config.engine.Backed)
    (hl : (w.ledger (requestsIn es)).Exclusive) (hin : w.Inside) (hw : w.Unborn (requestsIn es) g)
    (hreach : g ∈ w.reaches m → ∃ c, m.request? = some (a, c))
    (ha : w'.config.engine.asyncGenerators.size ≤ a.index)
    (hg : w'.config.engine.generators.size ≤ g.index) : R.Follows a g none none w m [] w' := by
  have ha' : w.config.engine.asyncGenerators.size ≤ a.index := (h.retains hbacked).size.trans ha
  by_cases hm : m = .abandon
  · subst hm
    exact Relay.abandons h
  have hnot : g ∉ w.reaches m := fun hmem => by
    obtain ⟨c, hc⟩ := hreach hmem
    exact absurd (h.lt_size_of_request hc) (Nat.not_lt_of_le ha)
  refine passesBy h hm (by rintro _ ⟨⟩) ?_ fun x hx r hr => ?_
  · have hl' := hl
    rw [← w.keeping_nil] at hl' hw
    exact hw.not_driven h hl' hnot hg
  · have hinside := World.inside_of_drives hl hin (hr ▸ World.drives_of_mem hx)
    exact absurd hinside.1 (Nat.not_lt_of_le ha')

/-- The frame of an async generator that has just been made waits for nothing. -/
theorem Step.suits_made {f : Frame H} (h : Step w (.perform (.newAsyncGenerator f)) w')
    (ha : a = ⟨w.config.engine.asyncGenerators.size⟩) : w'.Suits es a g false := by
  refine .of_not fun hwaits => ?_
  cases h with
  | @perform e h prompt held _ _ =>
    have hnew : ((e.newAsyncGenerator f).2.asyncGenerator a).state = .suspendedStart := by
      rw [ha]
      exact congrArg AsyncGenerator.state ((e.asyncGenerators.get_push _ _).trans (if_pos rfl))
    cases hnew.symm.trans hwaits.outer

/-- Together with the run goes one with the relay, from where the async generator is made. -/
theorem Run.images (R : Relay H) (h : Run es w)
    (hreach : ∀ ev ∈ es, g ∈ ev.before.reaches ev.move → ∃ c, ev.move.request? = some (a, c))
    (hplain : w.YieldsPlain es g) :
    (w.config.engine.asyncGenerators.size ≤ a.index → w.config.engine.generators.size ≤ g.index →
      ∃ es', R.Image a g es w es' (w.guise (R.guise a g none))) ∧
    ((a, g) ∈ madeIn es → ∃ waits es', w.Suits es a g waits ∧
      R.Image a g es w es' (w.guise (R.guise a g (some waits)))) := by
  induction h with
  | refl =>
    refine ⟨fun _ _ => ⟨[], ?_⟩, fun hmade => by cases hmade⟩
    rw [R.guise_start]
    exact ⟨.refl, .start, fun _ hev => (by cases hev), rfl⟩
  | @step es w₁ w₂ m h hs ih =>
    have hnext := Run.paired (h.step hs) hreach
    obtain ⟨hreachm, hreach⟩ := List.forall_mem_cons.1 hreach
    have hlaw := Run.lawful h
    have hl := Run.exclusive h
    have hin := Run.inside h
    have hplain₁ := hplain.before hs hlaw
    obtain ⟨hunborn, hpaired⟩ := ih hreach hplain₁
    have hw := Run.paired h hreach
    have hsize := (hs.changes (D := fun _ => True) (fun _ _ => trivial) fun _ _ => trivial).size_le
    have hsize' := (hs.retains hlaw.1).size
    refine ⟨fun ha hg => ?_, fun hmade => ?_⟩
    · obtain ⟨es', hi⟩ := hunborn (hsize'.trans ha) (hsize.trans hg)
      have hfollows : R.Follows a g none none w₁ m [] w₂ :=
        hs.follows_unborn hlaw.1 hl hin (hw.unborn (hsize'.trans ha) (hsize.trans hg)) hreachm ha hg
      refine ⟨_, hi.follow (fun hmake => ?_) hfollows⟩
      have hp := hnext.paired (List.mem_append_left _ hmake)
      exact absurd hp.allocated (Nat.not_lt_of_le hg)
    · rcases List.mem_append.1 hmade with hmake | hmade
      · obtain ⟨f, rfl, ha, hg⟩ := World.of_makes hmake
        obtain ⟨es', hi⟩ := hunborn (ha ▸ le_rfl) (hg ▸ le_rfl)
        have hstep := makes (R := R) hs ha hg
        have hi' : R.Image a g (⟨w₁, .perform (.newAsyncGenerator f)⟩ :: es) w₂ ([] ++ _) _ :=
          hi.extend (.make hmake) (fun _ hev => by cases hev) (.inl fun _ hev => by cases hev)
            (Steps.refl.step hstep) rfl rfl
        exact ⟨false, _, hs.suits_made ha, hi'⟩
      · have hp := hw.paired hmade
        obtain ⟨waits, es', hsuits, hi⟩ := hpaired hmade
        obtain ⟨waits', own, hfollows, hsuits'⟩ :=
          Relay.step (R := R) hs hlaw (Run.single h) hl hin hp hreachm hsuits hplain₁
        refine ⟨waits', _, hsuits', hi.follow (fun hmake => ?_) hfollows⟩
        obtain ⟨f, -, ha, -⟩ := World.of_makes hmake
        have hlt := hp.allocated'
        rw [ha] at hlt
        exact Nat.lt_irrefl _ hlt

/-- **Yielding a promise is awaiting it and yielding the result.** Where the host reaches the
generator inside by requests only, and no promise that its frame yields is fulfilled with a
promise value, there is also a run with a relay over the frame that does the same: the
async generators go through the same states, the same promises are settled alike at the same
moves, the same jobs are queued, and the frame is resumed with the same completions. -/
theorem Run.mirrored (R : Relay H) (h : Run es w) (hmade : (a, g) ∈ madeIn es)
    (hreach : ∀ ev ∈ es, g ∈ ev.before.reaches ev.move → ∃ c, ev.move.request? = some (a, c))
    (hplain : w.YieldsPlain es g) : ∃ es' v, R.Image a g es w es' v := by
  obtain ⟨waits, es', -, hi⟩ := (Run.images R h hreach hplain).2 hmade
  exact ⟨es', _, hi⟩

/-- Moves after which a frame has yielded a promise, which has been fulfilled since. -/
def World.yieldingPromise : List (Move Unit) :=
  [.perform .newPromise, .perform (.newAsyncGenerator (.host ())),
    .perform (.request ⟨0⟩ (.normal .undefined)), .tick, .tick,
    .finishFrame (.yielded (.promise ⟨0⟩)) (), .tick, .tick, .perform (.resolve ⟨0⟩ (.boolean true)),
    .perform .runJobs, .tick, .tick, .tick, .tick, .tick]

/-- The request is answered with the value of the promise, and with a relay as well. -/
theorem Run.mirrored_yielding :
    let es := ({} : World Unit).events World.yieldingPromise
    let w := ({} : World Unit).after World.yieldingPromise
    let R : Relay Unit := ⟨fun _ => (), fun _ => ()⟩
    frameLog ⟨0⟩ es = [.resumed (.normal .undefined), .answered (.yielded (.promise ⟨0⟩))] ∧
      (w.config.engine.promise ⟨1⟩).state = .fulfilled (.object ⟨0⟩) ∧
      ∃ es' v, R.Image ⟨0⟩ ⟨0⟩ es w es' v := by
  intro es w R
  have hrun : Run es w := World.steps_after (by decide +kernel)
  have hlog : frameLog ⟨0⟩ es =
      [.resumed (.normal .undefined), .answered (.yielded (.promise ⟨0⟩))] := by decide +kernel
  have hrequest : ∀ ev ∈ es, ⟨0⟩ ∈ ev.before.reaches ev.move →
      ev.move.request?.map Prod.fst = some ⟨0⟩ := by decide +kernel
  have hreach : ∀ ev ∈ es, ⟨0⟩ ∈ ev.before.reaches ev.move →
      ∃ c, ev.move.request? = some (⟨0⟩, c) := fun ev hev hr => by
    obtain ⟨⟨a, c⟩, hc, rfl⟩ := Option.map_eq_some_iff.1 (hrequest ev hev hr)
    exact ⟨c, hc⟩
  have hstate : (w.config.engine.promise ⟨0⟩).state = .fulfilled (.boolean true) := by decide +kernel
  have hplain : w.YieldsPlain es ⟨0⟩ := fun q hq q' => by
    rw [YieldedIn, hlog] at hq
    obtain rfl : q = ⟨0⟩ := by simpa using hq
    simp [hstate]
  exact ⟨hlog, by decide +kernel, Run.mirrored R hrun (by decide +kernel) hreach hplain⟩

end Runs

end Microtask
