import Microtask.Proofs.Generator.Relay

/-!
# What happens with a relay in place of the frame

Each step with the frame is also one with a relay in place of it, in the guise of that, unless
it begins or ends a step of the frame or answers a request with a promise that the frame has
yielded. Then the relay does something of its own besides (`Relay.Own`):

* `Relay.enters`: it is resumed instead of the frame, and resumes the frame.
* `Relay.leaves`: the frame stops for the relay, which stops then.
* `Relay.yieldsAgain`: it is resumed instead of what waits, and yields.

Seen from the outside (`Engine.seen`) nothing happens meanwhile that does not happen with the
step itself (`Relay.Follows`).
-/

namespace Microtask

variable {H : Type}

/-- An engine without its functions and the records of its generators: what remains are the
objects, the promises, the async generators and the jobs. -/
def Engine.seen (e : Engine H) : Engine H := { e with callables := {}, generators := {} }

namespace Relay

variable (R : Relay H) (a : AsyncGeneratorRef) (g : GeneratorRef)

/-- The events of a relay's own: it is resumed, or it has the floor. -/
inductive Own : Event H → Prop where
  | enter {e : Engine H} {code : H} {c : Completion} {purpose : Purpose H} {held : List (Job H)} :
      Own ⟨⟨⟨e, .resume (.host code) c (.generator g purpose)⟩, held⟩, .tick⟩
  | floor {e : Engine H} {purpose : Purpose H} {prompt : Prompt H} {held : List (Job H)}
      {m : Move H} : R.Does prompt m →
      Own ⟨⟨⟨e, .host (.frame (.generator g purpose)) prompt⟩, held⟩, m⟩

/-- With the relay in place of the frame, a move leads from one world to another if the relay
does something of its own after it. -/
structure Follows (made made' : Option Bool) (w : World H) (m : Move H) (own : List (Event H))
    (w' : World H) : Prop where
  owns : ∀ ev ∈ own, R.Own g ev
  seen : (∀ ev ∈ own, ev.before.config.engine.seen = w.config.engine.seen) ∨
    ∀ ev ∈ own, ev.before.config.engine.seen = w'.config.engine.seen
  steps : Steps (w.guise (R.guise a g made)) (own ++ [⟨w.guise (R.guise a g made), m⟩])
    (w'.guise (R.guise a g made'))

variable {R a g} {made made' : Option Bool} {waits waits' : Bool} {w w' : World H} {m : Move H}

/-- The relay does nothing of its own. -/
theorem Follows.single (h : Step (w.guise (R.guise a g made)) m (w'.guise (R.guise a g made'))) :
    R.Follows a g made made' w m [] w' where
  owns := fun ev hev => by cases hev
  seen := .inl fun ev hev => by cases hev
  steps := .step .refl h

theorem Follows.tick (h : Step w .tick w')
    (hc : (w.config.guise (R.guise a g made)).tick = w.config.tick.guise (R.guise a g made')) :
    R.Follows a g made made' w .tick [] w' := by
  cases h with
  | tick c held =>
    refine .single ?_
    rw [World.guise, World.guise, ← hc]
    exact .tick _ held

/-- **What has nothing to do with the frame** happens with a relay as well. -/
theorem passesBy (h : Step w m w') (hm : m ≠ .abandon)
    (hallocated : ∀ waits, made = some waits → g.index < w.config.engine.generators.size)
    (hg : ∀ x ∈ w.drives m, x.1 ≠ g) (ha : ∀ x ∈ w.drives m, ∀ r, x.2 ≠ some (.serve a r)) :
    R.Follows a g made made w m [] w' := by
  refine .single (h.guise hm (fun x hx => ⟨passes (hg x hx), fun b r hd => yields ?_⟩)
    (admits hallocated) ⟨fun _ _ _ => drains, fun _ => drains, fun _ => .inl drains⟩)
  rintro rfl
  exact ha x hx r hd

/-- Everything that is under way is lost with a relay as well. -/
theorem abandons (h : Step w .abandon w') : R.Follows a g made made w .abandon [] w' := by
  cases h with
  | abandon => exact .single .abandon

end Relay

/-! ## Steps of the frame -/

namespace Engine

theorem used_guise (e : Engine H) (G : Guise H) (f : FunctionRef) :
    (e.guise G).used f = (e.used f).guise G := by
  unfold used
  rw [usage_guise]
  split
  · exact e.spend_guise G f
  · rfl
  · rfl

/-- With a relay, what waits for a promise that has been yielded is the relay. -/
theorem code_relayed {e : Engine H} {f : FunctionRef} {a : AsyncGeneratorRef} {r : Request}
    {kind : Settling} (hcode : (e.callable f).code = .wake (.yielding a r) kind) (R : Relay H)
    (g : GeneratorRef) (made : Option Bool) :
    ((e.guise (R.guise a g made)).callable f).code = .wake (.awaiting a r) kind := by
  rw [callable_guise, Callable.guise, hcode]
  exact congrArg (Code.wake · kind) (if_pos rfl)

end Engine

/-- A request that is served with a step of the frame is so with a step of the relay. -/
theorem World.Resumes.relayed {w : World H} {m : Move H} {e : Engine H} {g g' : GeneratorRef}
    {c : Completion} {a : AsyncGeneratorRef} {r : Request} {reply : Value} {k : Caller H}
    (h : w.Resumes m e g' c (.serving a r reply k)) (R : Relay H) (made : Option Bool) :
    (w.guise (R.guise a g made)).Resumes m (e.guise (R.guise a g made)) g' c
      (.serving a r reply (k.relayed g)) := by
  cases h with
  | serve ht =>
    refine .serve ?_
    rw [Engine.takeRequest_guise, ht]
  | @awaiting e f _ _ _ _ _ kind hu hcode =>
    have hcode' : ((e.guise (R.guise a g made)).callable f).code = .wake (.awaiting a r) kind := by
      rw [Engine.callable_guise, Callable.guise, hcode]
      rfl
    rw [← Engine.used_guise]
    rw [← e.usage_guise (R.guise a g made)] at hu
    exact .awaiting hu hcode'
  | @yielding e f _ _ _ _ _ hu hcode =>
    rw [← Engine.used_guise]
    rw [← e.usage_guise (R.guise a g made)] at hu
    exact .awaiting hu (Engine.code_relayed hcode R g made)

/-- Where a frame stops, it stops in a guise. -/
theorem Step.stops_guise {w w' : World H} {m : Move H} (h : Step w m w') {s : Stepper H} {o : Outcome}
    (hs : w.Stops m s o) (G : Guise H) :
    ∃ f, w' = ⟨w.config.engine.frameStopped o f s, w.held⟩ ∧
      Step (w.guise G) m ⟨(w.config.engine.guise G).frameStopped o f (G.stepper s), w.held⟩ := by
  cases hs with
  | values f =>
    cases h
    exact ⟨.values (f.resume _).2, rfl, .tick _ _⟩
  | @enter e c s held f f' o hf =>
    cases h
    have htick : Step (World.guise ⟨⟨e, .resume (.script f) c s⟩, held⟩ G) .tick
      ⟨(e.guise G).scriptProgress (G.stepper s) (f.enter c), held⟩ := .tick _ _
    refine ⟨.script f', ?_, ?_⟩
    · simp only [Config.tick, Engine.resumeFrame, hf, Engine.scriptProgress]
    · rwa [hf] at htick
  | @script e s held f f' o hf =>
    cases h
    have htick : Step (World.guise ⟨⟨e, .run f s⟩, held⟩ G) .tick
      ⟨(e.guise G).scriptProgress (G.stepper s) f.step, held⟩ := .tick _ _
    refine ⟨.script f', ?_, ?_⟩
    · simp only [Config.tick, hf, Engine.scriptProgress]
    · rwa [hf] at htick
  | host o code =>
    cases h
    refine ⟨.host code, rfl, ?_⟩
    rw [World.guise, Config.guise, Control.guise, G.activation_frame]
    exact .finishFrame o code

namespace Relay

variable {R : Relay H} {a : AsyncGeneratorRef} {g : GeneratorRef} {made : Option Bool} {waits : Bool}
  {w w' : World H} {m : Move H} {e e' : Engine H} {f : Frame H} {c : Completion} {r : Request}
  {reply : Value} {k k' : Caller H}

/-- **The relay is resumed** instead of the frame. -/
theorem enters (hr : (w.guise (R.guise a g (some waits))).Resumes .tick
      (e.guise (R.guise a g (some waits))) g c (.serving a r reply k'))
    (ht : (e.generator g).Takes c) (hf : (e.generator g).frame = some f) (waits' : Bool) :
    let taken := (e.takeOut g).guise (R.guise a g (some waits'))
    let purpose := Purpose.serving a r reply k'
    Steps (w.guise (R.guise a g (some waits)))
      [⟨⟨⟨taken, .resume (.host (R.code waits f)) c (.generator g purpose)⟩, w.held⟩, .tick⟩,
        ⟨w.guise (R.guise a g (some waits)), .tick⟩]
      ⟨⟨taken, .host (.frame (.generator g purpose)) (.resumed (R.code waits f) c)⟩, w.held⟩ := by
  intro taken purpose
  have hstep : Step (w.guise (R.guise a g (some waits))) .tick
      ⟨⟨taken, .resume (.host (R.code waits f)) c (.generator g purpose)⟩, w.held⟩ := by
    have htick : Step (w.guise (R.guise a g (some waits))) .tick
      ⟨(w.config.guise (R.guise a g (some waits))).tick, w.held⟩ := .tick _ _
    have hconfig : (w.config.guise (R.guise a g (some waits))).tick = _ :=
      (htick.resumes hr).trans (e.stepGenerator_relayed ht hf waits waits' purpose)
    rwa [hconfig] at htick
  exact .step (.step .refl hstep) (.tick _ _)

/-- **A step of the frame begins**: the relay is resumed instead, and resumes the frame. -/
theorem begins (h : Step w .tick w') (hr : w.Resumes .tick e g c (.serving a r reply k))
    (ht : (e.generator g).Takes c) (hf : (e.generator g).frame = some f)
    (hdoes : R.Does (.resumed (R.code waits f) c) (.perform (.resumeFrame f c))) :
    ∃ own, R.Follows a g (some waits) (some false) w .tick own w' := by
  let taken := (e.takeOut g).guise (R.guise a g (some false))
  let purpose := Purpose.serving a r reply (k.relayed g)
  have hw' : w' = ⟨⟨e.takeOut g, .resume f c (.generator g (.serving a r reply k))⟩, w.held⟩ := by
    obtain ⟨config, held⟩ := w'
    obtain rfl : held = w.held := by cases h; rfl
    obtain rfl : config = e.stepGenerator g c (.serving a r reply k) := h.resumes hr
    rw [Engine.stepGenerator, Engine.beginStep_of_takes ht hf]
  have hlast : Step ⟨⟨taken, .host (.frame (.generator g purpose)) (.resumed (R.code waits f) c)⟩,
      w.held⟩ (.perform (.resumeFrame f c)) (w'.guise (R.guise a g (some false))) := by
    have hself : (R.guise a g (some false)).stepper (.generator g (.serving a r reply k)) =
        .host (.frame (.generator g purpose)) := Stepper.relayed_self g _
    rw [hw', World.guise, Config.guise, Control.guise, hself]
    exact .perform ⟨by rintro _ ⟨⟩, by rintro _ ⟨⟩⟩
  have hseen : taken.seen = w'.config.engine.seen := by
    rw [hw']
    rfl
  have hsteps := enters (hr.relayed R (some waits)) ht hf false
  exact ⟨[⟨_, _⟩, ⟨_, _⟩],
    List.forall_mem_cons.2 ⟨.floor hdoes, List.forall_mem_singleton.2 .enter⟩,
    .inr (List.forall_mem_cons.2 ⟨hseen, List.forall_mem_singleton.2 hseen⟩), hsteps.step hlast⟩

/-- **A relay that waits for a promise that the frame has yielded** yields the result. -/
theorem yieldsAgain {held : List (Job H)} {fn : FunctionRef} {args : List Value}
    (hu : (e.callable fn).usage ≠ .spent)
    (hcode : (e.callable fn).code = .wake (.yielding a r) .fulfill)
    (h : Step ⟨⟨e, .call fn args k⟩, held⟩ .tick w') (hinner : (e.asyncGenerator a).inner = g)
    (hs : (e.generator g).state = .suspendedYield) (hf : (e.generator g).frame = some f)
    (hplain : ∀ q, Value.argument args 0 ≠ .promise q) :
    ∃ own, R.Follows a g (some true) (some false) ⟨⟨e, .call fn args k⟩, held⟩ .tick own w' := by
  let w : World H := ⟨⟨e, .call fn args k⟩, held⟩
  let x := Value.argument args 0
  let taken := ((e.used fn).takeOut g).guise (R.guise a g (some true))
  have hw' : w' = ⟨⟨(e.used fn).settleYield a r x, .serve a .undefined k⟩, held⟩ := by
    cases h
    exact congrArg (World.mk · held) (Engine.callFunction_wake hu hcode args k)
  have hresumes : (w.guise (R.guise a g (some true))).Resumes .tick
      ((e.used fn).guise (R.guise a g (some true))) g (.normal x)
      (.serving a r .undefined (k.relayed g)) := by
    rw [← Engine.used_guise]
    rw [← e.usage_guise (R.guise a g (some true))] at hu
    exact hinner ▸ .awaiting hu (Engine.code_relayed hcode R g (some true))
  have hs' : ((e.used fn).generator g).state = .suspendedYield := by
    rwa [Engine.generator_used]
  have hf' : ((e.used fn).generator g).frame = some f := by
    rwa [Engine.generator_used]
  have hsteps := enters hresumes (.inl hs') hf' true
  have hlast : Step ⟨⟨taken, .host (.frame (.generator g (.serving a r .undefined (k.relayed g))))
      (.resumed (R.waiting f) (.normal x))⟩, held⟩ (.finishFrame (.yielded x) (R.ready f))
      (w'.guise (R.guise a g (some false))) := by
    rw [hw', World.guise, ← Engine.yieldAgain_relayed hs' hf' r hplain]
    exact .finishFrame _ _
  have hseen : taken.seen = w.config.engine.seen := by
    show ((e.used fn).takeOut g).seen = e.seen
    unfold Engine.used
    split <;> rfl
  exact ⟨[⟨_, _⟩, ⟨_, _⟩],
    List.forall_mem_cons.2 ⟨.floor .yield, List.forall_mem_singleton.2 .enter⟩,
    .inl (List.forall_mem_cons.2 ⟨hseen, List.forall_mem_singleton.2 hseen⟩), hsteps.step hlast⟩

/-- **A step of the frame ends** for the relay, which stops then with what is awaited. -/
theorem leaves {o : Outcome} (h : Step w m w')
    (hs : w.Stops m (.generator g (.serving a r reply k)) o)
    (hnone : (w.config.engine.generator g).frame = none) :
    ∃ own, R.Follows a g (some waits) (some o.yieldsPromise) w m own w' := by
  obtain ⟨f, hw', hfirst⟩ := h.stops_guise hs (R.guise a g (some waits))
  have hself : (R.guise a g (some waits)).stepper (.generator g (.serving a r reply k)) =
      .host (.frame (.generator g (.serving a r reply (k.relayed g)))) := Stepper.relayed_self g _
  rw [hself] at hfirst
  let before := w.config.engine.guise (R.guise a g (some waits))
  have hlast : Step ⟨⟨before, .host (.frame (.generator g (.serving a r reply (k.relayed g))))
      (.answered (.stopped o f))⟩, w.held⟩ (.finishFrame o.awaited (R.code o.yieldsPromise f))
      (w'.guise (R.guise a g (some o.yieldsPromise))) := by
    rw [hw', World.guise, ← Engine.frameStopped_relayed hnone]
    exact .finishFrame _ _
  have hseen : before.seen = w.config.engine.seen := rfl
  exact ⟨[⟨_, _⟩], List.forall_mem_singleton.2 (.floor .stop),
    .inl (List.forall_mem_singleton.2 hseen), (Steps.refl.step hfirst).step hlast⟩

/-- The frame of a step goes on. -/
theorem goesOn {s : Stepper H} (h : Step w .tick w')
    (hcontrol : (∃ f c, w.config.control = .resume f c s) ∨ ∃ f, w.config.control = .run f s)
    (hstop : ∀ o, ¬ w.Stops .tick s o) : R.Follows a g made made w .tick [] w' := by
  have hprogress : ∀ {e : Engine H} {p : ScriptFrame.Progress}, (∀ o f, p ≠ .stopped o f) →
      (e.guise (R.guise a g made)).scriptProgress (s.relayed g) p =
        (e.scriptProgress s p).guise (R.guise a g made) := by
    intro e p hp
    cases p with
    | running f => rfl
    | stopped o f => exact absurd rfl (hp o f)
  obtain ⟨⟨e, control⟩, held⟩ := w
  refine .tick h ?_
  obtain ⟨f, c, rfl⟩ | ⟨f, rfl⟩ := hcontrol
  · cases f with
    | values f => exact absurd (.values f) (hstop _)
    | script f => exact hprogress fun o f' heq => hstop o (.enter heq)
    | host code => rfl
  · exact hprogress fun o f' heq => hstop o (.script heq)

end Relay

end Microtask
