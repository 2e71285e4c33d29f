import Microtask.Proofs.Generator.Answering
import Microtask.Proofs.Generator.Awaiting
import Microtask.Proofs.Generator.InStep
import Microtask.Proofs.Generator.Requests

/-!
# How async generators complete

An async generator completes with a request: its frame has returned or thrown
(`World.Completes.frame`), the request is to throw and the frame has not been entered
(`World.Completes.thrown`), or the final result that it has waited for is there
(`World.Completes.awaited`). It waits for a promise that the frame has returned, or for the
value of a request to return that comes before the frame is entered (`World.Returns`). The
request is answered with the outcome at once (`World.Paired.ends`).
-/

namespace Microtask

variable {H : Type}

/-- The outcome that waiting for a final result ends with. -/
def Settling.outcome : Settling → Value → Outcome
  | .fulfill, v => .returned v
  | .reject, reason => .threw reason

/-- The state of an async generator after its frame has stopped. -/
def Outcome.stateAfter : Outcome → AsyncGeneratorState → AsyncGeneratorState
  | .yielded (.promise _), s | .awaiting _, s => s
  | .yielded _, _ => .suspendedYield
  | .returned (.promise _), _ => .awaitingReturn
  | .returned _, _ | .threw _, _ => .completed

theorem Engine.endStep_alike (e : Engine H) (g : GeneratorRef) (f : Frame H) (o : Outcome) :
    e.Alike (e.endStep g f o) ∧ (e.endStep g f o).waitingJobs = e.waitingJobs := by
  unfold endStep
  split <;> exact ⟨⟨rfl, rfl, rfl⟩, rfl⟩

theorem Engine.state_absorbOutcome (e : Engine H) (a : AsyncGeneratorRef) (r : Request)
    (o : Outcome) :
    ((e.absorbOutcome a r (.ok o)).asyncGenerator a).state =
      o.stateAfter (e.asyncGenerator a).state := by
  have hawait : ∀ v waiter, ((e.await v waiter).asyncGenerator a).state =
      (e.asyncGenerator a).state := fun v waiter =>
    congrArg AsyncGenerator.state ((spares_await e v waiter).asyncGenerator a)
  cases o with
  | yielded v =>
    cases v with
    | promise p => exact hawait (.promise p) (.yielding a r)
    | _ => exact state_answerRequest e a .suspendedYield r _ false
  | awaiting v => exact hawait v (.awaiting a r)
  | returned v =>
    cases v with
    | promise p => exact state_awaitReturn e a r (.promise p)
    | _ => exact state_answerRequest e a .completed r _ true
  | threw reason => exact state_failWith e a r reason

namespace World

/-- A function of a wait is called with the value that the wait is over with. -/
inductive CallsBack : World H → Move H → Waiter H → Settling → Value → Prop where
  | intro {e : Engine H} {f : FunctionRef} {x : Value} {k : Caller H} {held : List (Job H)}
      {waiter : Waiter H} {kind : Settling} :
      (e.callable f).code = .wake waiter kind →
      CallsBack ⟨⟨e, .call f [x] k⟩, held⟩ .tick waiter kind x

/-- An async generator begins to wait for its final result. -/
inductive Returns (w : World H) (m : Move H) (a : AsyncGeneratorRef) (g : GeneratorRef)
    (r : Request) : Value → Prop where
  /-- The frame has returned a promise. -/
  | promise {reply : Value} {k : Caller H} {p : PromiseRef} :
      w.Stops m (.generator g (.serving a r reply k)) (.returned (.promise p)) →
      Returns w m a g r (.promise p)
  /-- The frame has not been entered, and the request is to return. -/
  | request : w.Looks m a r → (w.config.engine.asyncGenerator a).state = .suspendedStart →
      r.completion.kind = .return → Returns w m a g r r.completion.value

/-- The ways in which an async generator completes with a request, after some events. -/
inductive Completes (w : World H) (m : Move H) (a : AsyncGeneratorRef) (g : GeneratorRef)
    (es : List (Event H)) (r : Request) : Outcome → Prop where
  /-- The frame has returned a value that is no promise, or has thrown. -/
  | frame {reply : Value} {k : Caller H} {o : Outcome} :
      w.Stops m (.generator g (.serving a r reply k)) o → o.isFinished = true →
      (∀ p, o ≠ .returned (.promise p)) → Completes w m a g es r o
  /-- The frame has not been entered, and the request is to throw. -/
  | thrown : w.Looks m a r → (w.config.engine.asyncGenerator a).state = .suspendedStart →
      r.completion.kind = .throw → Completes w m a g es r (.threw r.completion.value)
  /-- The final result that has been waited for is there. -/
  | awaited {ev : Event H} {v x : Value} {kind : Settling} : ev ∈ es →
      ev.before.Returns ev.move a g r v → w.CallsBack m (.returning a r) kind x →
      w.config.engine.settlement? v = some (kind.completion x) →
      Completes w m a g es r (kind.outcome x)

/-- If an async generator waits for its final result after a move, or is completed, then the
move has made it so with the request. -/
structure Ends (w : World H) (m : Move H) (w' : World H) (a : AsyncGeneratorRef)
    (g : GeneratorRef) (es : List (Event H)) (r : Request) : Prop where
  waits : (w'.config.engine.asyncGenerator a).state = .awaitingReturn →
    ∃ v, w.Returns m a g r v ∧ (w'.ledger []).Expects (.serve a r) v
  completes : (w'.config.engine.asyncGenerator a).state = .completed →
    ∃ o, w.Completes m a g es r o ∧ w'.config.engine.Tells r.capability o

namespace Ends

variable {w w' : World H} {m : Move H} {a : AsyncGeneratorRef} {g : GeneratorRef}
  {es : List (Event H)} {r : Request}

theorem goesOn {s : AsyncGeneratorState} (hs : (w'.config.engine.asyncGenerator a).state = s)
    (hgo : s = .executing ∨ s = .suspendedYield) : w.Ends m w' a g es r := by
  constructor <;> intro h <;> obtain rfl | rfl := hgo <;> cases hs.symm.trans h

theorem returns {v : Value} (hs : (w'.config.engine.asyncGenerator a).state = .awaitingReturn)
    (hr : w.Returns m a g r v) (hv : (w'.ledger []).Expects (.serve a r) v) :
    w.Ends m w' a g es r :=
  ⟨fun _ => ⟨v, hr, hv⟩, fun h => by cases hs.symm.trans h⟩

theorem completed {o : Outcome} (hs : (w'.config.engine.asyncGenerator a).state = .completed)
    (hc : w.Completes m a g es r o) (ho : w'.config.engine.Tells r.capability o) :
    w.Ends m w' a g es r :=
  ⟨fun h => (by cases hs.symm.trans h), fun _ => ⟨o, hc, ho⟩⟩

end Ends

/-- While an async generator waits for its final result, the request that is in flight waits
for the value that it has begun to wait for. -/
def Returning (w : World H) (a : AsyncGeneratorRef) (g : GeneratorRef) (es : List (Event H)) :
    Prop :=
  ∀ r, 0 < (w.ledger []).owed (.serve a r) →
    ∃ v, (∃ ev ∈ es, ev.before.Returns ev.move a g r v) ∧ w.Awaiting (.serve a r) v

end World

/-- **A request that is put to wait** waits for the value. -/
theorem World.expects_await {w : World H} {issued : List (AsyncGeneratorRef × Request)}
    (hl : (w.ledger issued).Lawful) (hcalled : (w.ledger issued).called = none)
    {e : Engine H} (he : w.config.engine.Alike e)
    (hj : e.waitingJobs = w.config.engine.waitingJobs) {a : AsyncGeneratorRef} {r : Request}
    {reply : Value} {k : Caller H} (hk : k.duties ⊆ w.config.control.duties)
    (hle : (w.ledger issued).owed (.serve a r) ≤ (w.ledger issued).stack.count (.serve a r))
    (waiter : Waiter H) (hd : waiter.duty? = some (.serve a r)) (v : Value) :
    ((World.mk ⟨e.await v waiter, .serve a reply k⟩ w.held).ledger []).Expects (.serve a r) v := by
  let l : Ledger H := { engine := e, held := w.held, stack := .serve a r :: k.duties,
                        serving := some a }
  have hjobs : l.jobs = (w.ledger issued).jobs := congrArg (· ++ w.held) hj
  have hstack : ∀ p, .adopt p ∉ l.stack := by
    intro p hp
    rcases List.mem_cons.1 hp with heq | hp
    · cases heq
    · exact hl.sound.stack p (hk hp)
  have hkeeps : (w.ledger issued).Keeps l := .restack hl he hjobs hcalled.symm hstack
  have hrestack : l.Sound ∧ ∀ d, l.owed d + (w.ledger issued).stack.count d =
      (w.ledger issued).owed d + l.stack.count d := hl.sound.restack he hjobs hcalled.symm hstack
  have hle' : l.owed (.serve a r) ≤ l.stack.count (.serve a r) := by
    have howed := hrestack.2 (.serve a r)
    omega
  exact Ledger.expects_await hkeeps.lawful hd rfl hle' v

namespace World.Paired

variable {w w' : World H} {m : Move H} {es : List (Event H)} {a : AsyncGeneratorRef}
  {g : GeneratorRef} {r : Request}

/-- The promise of a request that a move is about is still pending. -/
theorem open_request (hw : w.Orderly es)
    (hr : 0 < (w.ledger (requestsIn es)).owed (.serve a r) ∨
      r ∈ (w.config.engine.asyncGenerator a).queue) :
    (w.config.engine.promise r.capability).resolved = false ∧
      (w.config.engine.promise r.capability).state = .pending := by
  have hres := hw.accounts.unresolved hr
  exact ⟨hres, (hw.accounts.lawful.sane r.capability).pending hres⟩

/-- The async generator is in the state that the outcome leads to, when its frame has stopped. -/
theorem state_stopped {issued : List (AsyncGeneratorRef × Request)} (hp : w.Paired issued a g)
    {reply : Value} {k : Caller H} {o : Outcome}
    (hs : w.Stops m (.generator g (.serving a r reply k)) o) (f : Frame H) :
    (((w.config.engine.endStep g f o).absorbOutcome a r (.ok o)).asyncGenerator a).state =
      o.stateAfter .executing := by
  have hexec : ((w.config.engine.endStep g f o).asyncGenerator a).state = .executing := by
    rw [Engine.asyncGenerator, Engine.asyncGenerators_endStep]
    exact (hp.of_mem_steps hs.mem_steps).1.outer
  exact hexec ▸ (w.config.engine.endStep g f o).state_absorbOutcome a r o

/-- The frame stops. -/
theorem ends_of_stops (hp : w.Paired (requestsIn es) a g) (hw : w.Orderly es)
    (hl : (w.ledger (requestsIn es)).Exclusive) (h : Step w m w')
    {reply : Value} {k : Caller H} {o : Outcome}
    (hs : w.Stops m (.generator g (.serving a r reply k)) o) : w.Ends m w' a g es r := by
  obtain ⟨f, rfl⟩ := h.stops hs
  let e := w.config.engine.endStep g f o
  have hstate := hp.state_stopped hs f
  have hledger := hs.ledger (requestsIn es)
  have hstack := hs.stack_pos (requestsIn es)
  obtain ⟨hres, hpend⟩ := open_request hw (.inl (hstack.trans_le (Nat.le_add_left _ _)))
  obtain ⟨halike, hjobs⟩ := w.config.engine.endStep_alike g f o
  have hsame : e.promise r.capability = w.config.engine.promise r.capability :=
    congrArg (Store.get · r.capability.index) halike.promises
  rw [← hsame] at hres hpend
  cases o with
  | returned v =>
    cases v with
    | promise p =>
      have hk : k.duties ⊆ w.config.control.duties := by
        have hduties : w.config.control.duties = .serve a r :: k.duties :=
          congrArg Ledger.stack hledger
        exact hduties ▸ List.subset_cons_self _ _
      have hwait : w.config.engine.Alike (e.setAsyncState a .awaitingReturn) :=
        ⟨halike.promises, halike.callables, halike.tallies⟩
      exact .returns hstate (.promise hs) (World.expects_await hl.lawful
        (congrArg Ledger.called hledger) hwait hjobs hk (hl.owed_le_count hstack r)
        (.returning a r) rfl (.promise p))
    | _ =>
      exact .completed hstate (.frame hs rfl fun p heq => by cases heq)
        (Engine.tells_answer (e := e.setAsyncState a .completed) hres hpend _ true)
  | threw reason =>
    exact .completed hstate (.frame hs rfl fun p heq => by cases heq)
      (Engine.tells_reject (e := e.setAsyncState a .completed) hres hpend reason)
  | yielded v =>
    cases v with
    | promise q => exact .goesOn hstate (.inl rfl)
    | _ => exact .goesOn hstate (.inr rfl)
  | awaiting v => exact .goesOn hstate (.inl rfl)

/-- The next request is taken off the queue. -/
theorem ends_of_looks (hp : w.Paired (requestsIn es) a g) (hw : w.Orderly es)
    (hl : (w.ledger (requestsIn es)).Exclusive) (h : Step w m w')
    (hr : w.Looks m a r) (hb : (w.config.engine.asyncGenerator a).state.isBusy = false)
    (hs : (w.config.engine.asyncGenerator a).state ≠ .completed) : w.Ends m w' a g es r := by
  obtain ⟨hres, hpend⟩ := open_request hw (.inr hr.mem_queue)
  have hlooks := hr
  cases hr with
  | @intro e a reply k held r rest hq =>
    obtain ⟨config, held'⟩ := w'
    obtain rfl : held' = held := by cases h; rfl
    have hconfig : config = e.serve a reply k := by cases h; rfl
    let taken := e.modifyAsyncGenerator a fun g => { g with queue := rest }
    let closed := taken.closeGenerator (e.asyncGenerator a).inner
    obtain ⟨hs', -⟩ | ⟨hs', hkind, ht⟩ | ⟨hs', hkind, ht⟩ | ⟨-, ht⟩ := Engine.takeRequest_cases hb hq
    · exact absurd hs' hs
    · obtain rfl : config = ⟨closed.failWith a r r.completion.value, .serve a reply k⟩ := by
        rw [hconfig, Engine.serve, ht]
      exact .completed (closed.state_failWith a r _) (.thrown hlooks hs' hkind)
        (Engine.tells_reject (e := closed.setAsyncState a .completed) hres hpend _)
    · obtain rfl : config = ⟨closed.awaitReturn a r r.completion.value, .serve a reply k⟩ := by
        rw [hconfig, Engine.serve, ht]
      refine .returns (closed.state_awaitReturn a r _) (.request hlooks hs' hkind) ?_
      exact World.expects_await (e := closed.setAsyncState a .awaitingReturn) hl.lawful rfl
        ⟨rfl, rfl, rfl⟩ rfl (List.Subset.refl _) ((hl.not_owed hb r).trans_le (Nat.zero_le _))
        (.returning a r) rfl _
    · obtain rfl : (e.asyncGenerator a).inner = g := hp.inner
      obtain ⟨hstands, -⟩ := hp.stands_of_resumes hl h (.serve ht)
      exact .goesOn hstands.outer (.inl rfl)

/-- A wait is over. -/
theorem ends_of_wake (hp : w.Paired (requestsIn es) a g) (hw : w.Orderly es)
    (hl : (w.ledger (requestsIn es)).Exclusive) (h : Step w m w')
    (hreturning : (w.config.engine.asyncGenerator a).state = .awaitingReturn → w.Returning a g es)
    {e : Engine H} {f : FunctionRef} {args : List Value} {k : Caller H} {held : List (Job H)}
    {waiter : Waiter H} {kind : Settling} (heq : w = ⟨⟨e, .call f args k⟩, held⟩) (hm : m = .tick)
    (hcode : (e.callable f).code = .wake waiter kind) (hd : waiter.duty? = some (.serve a r)) :
    w.Ends m w' a g es r := by
  subst heq hm
  have hen := Engine.engagement?_of_wake hcode hd
  have hcalled : ((World.mk ⟨e, .call f args k⟩ held).ledger (requestsIn es)).called = some f :=
    called_of_wake hcode hd
  have hpos := Ledger.owed_pos_of_called hcalled hen
  have hu : (e.callable f).usage ≠ .spent :=
    (usage_of_wake (hl.unspent a r) hcode hd).trans_ne (by decide)
  obtain ⟨hres, hpend⟩ := open_request hw (.inl hpos)
  have hstands := hp.of_called hl hcode hd hcalled
  have hexec : ∀ {c purpose}, (World.mk ⟨e, .call f args k⟩ held).Resumes .tick (e.used f) g c purpose →
      (World.mk ⟨e, .call f args k⟩ held).Ends .tick w' a g es r := by
    intro c purpose hres
    obtain ⟨hs, -⟩ := hp.stands_of_resumes hl h hres
    exact .goesOn hs.outer (.inl rfl)
  obtain rfl : (e.asyncGenerator a).inner = g := hp.inner
  obtain ⟨config, held'⟩ := w'
  cases waiter with
  | yielding b r' =>
    cases hd
    cases kind with
    | fulfill =>
      obtain rfl : config = ⟨(e.used f).settleYield a r (Value.argument args 0), .serve a .undefined k⟩ := by
        cases h
        exact Engine.callFunction_wake hu hcode args k
      exact .goesOn ((e.used f).state_answerRequest a .suspendedYield r _ false) (.inr rfl)
    | reject => exact hexec (.yielding hu hcode)
  | awaiting b r' =>
    cases hd
    exact hexec (.awaiting hu hcode)
  | returning b r' =>
    cases hd
    obtain ⟨-, hs⟩ := hstands.resolve_left fun hfinal => by cases hfinal.1
    obtain ⟨v, ⟨ev, hev, hbegun⟩, hwait⟩ := hreturning hs.outer r hpos
    obtain ⟨x, k', hcontrol, hset⟩ := hwait.called f kind hcalled hen
    obtain ⟨rfl, rfl⟩ : args = [x] ∧ k = k' := by
      cases hcontrol
      exact ⟨rfl, rfl⟩
    have hconfig : config = (e.used f).wake kind x k (.returning a r) := by
      cases h
      exact Engine.callFunction_wake hu hcode [x] k
    -- the promise of the request is still pending when the function has been used
    have hused : (e.used f).promise r.capability = e.promise r.capability :=
      e.promise_used f r.capability
    let done := (e.used f).setAsyncState a .completed
    have hres' : (done.promise r.capability).resolved = false := (congrArg _ hused).trans hres
    have hpend' : (done.promise r.capability).state = .pending := (congrArg _ hused).trans hpend
    have hcompletes := World.Completes.awaited hev hbegun (.intro hcode) hset
    cases kind with
    | fulfill =>
      subst hconfig
      exact .completed ((e.used f).state_answerRequest a .completed r x true) hcompletes
        (Engine.tells_answer hres' hpend' x true)
    | reject =>
      subst hconfig
      exact .completed ((e.used f).state_failWith a r x) hcompletes
        (Engine.tells_reject hres' hpend' x)
  | body g p => cases hd
  | host onFulfilled onRejected => cases hd

/-- **With a move that is about a request** the async generator goes on, begins to wait for its
final result, or completes with that request, unless it is busy and only looks at its
queue. -/
theorem ends (hp : w.Paired (requestsIn es) a g) (hw : w.Orderly es)
    (hl : (w.ledger (requestsIn es)).Exclusive) (h : Step w m w')
    (hs : (w.config.engine.asyncGenerator a).state ≠ .completed)
    (hreturning : (w.config.engine.asyncGenerator a).state = .awaitingReturn → w.Returning a g es)
    (hdrive : w.Drives m g (some (.serve a r)))
    (hlooks : w.Looks m a r → (w.config.engine.asyncGenerator a).state.isBusy = false) :
    w.Ends m w' a g es r := by
  have hexec : (g, some (.serve a r)) ∈ w.config.control.steps →
      w'.config.engine = w.config.engine → w.Ends m w' a g es r := by
    intro hmem hsame
    refine .goesOn (s := .executing) ?_ (.inl rfl)
    rw [hsame]
    exact (hp.of_mem_steps hmem).1.outer
  have hprogress : ∀ {e : Engine H} {control : Control H} {held : List (Job H)} {reply : Value}
      {k : Caller H} {progress : ScriptFrame.Progress},
      w = ⟨⟨e, control⟩, held⟩ → m = .tick →
      control.steps = (g, some (.serve a r)) :: k.steps →
      (∀ o f, progress = .stopped o f → w.Stops m (.generator g (.serving a r reply k)) o) →
      w' = ⟨e.scriptProgress (.generator g (.serving a r reply k)) progress, held⟩ →
      w.Ends m w' a g es r := by
    rintro e control held reply k progress rfl rfl hsteps hstops rfl
    cases progress with
    | running f => exact hexec (hsteps ▸ List.mem_cons_self) rfl
    | stopped o f => exact hp.ends_of_stops hw hl h (hstops o f rfl)
  generalize hd : some (Duty.serve a r) = d at hdrive
  cases hdrive with
  | wake hcode hmem =>
    cases hd
    exact hp.ends_of_wake hw hl h hreturning rfl rfl hcode (Waiter.duty?_of_drives hmem)
  | @resume e f c _ purpose held =>
    obtain ⟨reply, k, rfl⟩ := Purpose.eq_serving hd.symm
    cases f with
    | values f => exact hp.ends_of_stops hw hl h (.values f)
    | script f =>
      refine hprogress rfl rfl rfl (fun o f' hf => .enter hf) ?_
      cases h
      rfl
    | host code =>
      refine hexec List.mem_cons_self ?_
      cases h
      rfl
  | run =>
    obtain ⟨reply, k, rfl⟩ := Purpose.eq_serving hd.symm
    refine hprogress rfl rfl rfl (fun o f' hf => .script hf) ?_
    cases h
    rfl
  | frame o code =>
    obtain ⟨reply, k, rfl⟩ := Purpose.eq_serving hd.symm
    exact hp.ends_of_stops hw hl h (.host o code)
  | serve hq =>
    cases hd
    exact hp.ends_of_looks hw hl h (.intro hq) (hlooks (.intro hq)) hs
  | start f => exact absurd hp.allocated (Nat.lt_irrefl _)
  | named hmem => cases hd

/-- What is done for a request of the async generator is done with the generator inside. -/
theorem drives_inside (hp : w.Paired (requestsIn es) a g)
    (hl : (w.ledger (requestsIn es)).Exclusive) (hin : w.Inside) {g' : GeneratorRef}
    (h : w.Drives m g' (some (.serve a r))) : w.Drives m g (some (.serve a r)) :=
  (World.inside_of_drives hl hin h).2.trans hp.inner ▸ h

end World.Paired

/-! ## Steps -/

section Steps

variable {w w' : World H} {m : Move H} {es : List (Event H)} {a : AsyncGeneratorRef}
  {g : GeneratorRef}

/-- A step that drives a generator calls no function with a duty. -/
theorem Step.called_of_drives (h : Step w m w') (hbacked : w.config.engine.Backed)
    {x : GeneratorRef × Option Duty} (hx : x ∈ w.drives m) :
    w'.config.control.called? w'.config.engine = none := by
  refine Option.eq_none_iff_forall_not_mem.2 fun f hf => ?_
  obtain ⟨rfl, d, -, -, -, -, -, hcontrol, -⟩ := h.calls hbacked hf
  rw [World.drives, hcontrol] at hx
  cases hx

/-- A busy async generator takes nothing off its queue. -/
theorem Step.of_busy (h : Step w m w') {r : Request} (hr : w.Looks m a r)
    (hb : (w.config.engine.asyncGenerator a).state.isBusy = true) :
    ∃ e reply k held, w = ⟨⟨e, .serve a reply k⟩, held⟩ ∧
      w' = ⟨⟨e, .deliver (.ok reply) k⟩, held⟩ := by
  cases hr with
  | @intro e a reply k held r rest hq =>
    have hidle : e.takeRequest a = (e, .idle) := if_pos hb
    refine ⟨e, reply, k, held, rfl, ?_⟩
    cases h
    simp only [Config.tick, Engine.serve, hidle]

/-- **Every step keeps what an async generator waits for**, or it begins to wait. -/
theorem Step.returning (h : Step w m w') (hw : w.Orderly es)
    (hl : (w.ledger (requestsIn es)).Exclusive) (hp : w.Paired (requestsIn es) a g)
    (hin : w.Inside) (hlaw : w.Lawful) (hsingle : w.config.Single)
    (hreach : g ∈ w.reaches m → ∃ c, m.request? = some (a, c))
    (hs : (w.config.engine.asyncGenerator a).state ≠ .completed)
    (hreturning : (w.config.engine.asyncGenerator a).state = .awaitingReturn → w.Returning a g es)
    (hs' : (w'.config.engine.asyncGenerator a).state = .awaitingReturn) :
    w'.Returning a g (⟨w, m⟩ :: es) := by
  have hbacked := hw.backed
  have hdrives : ∀ {x r}, x ∈ w.drives m → x.2 = some (.serve a r) →
      w.Drives m g (some (.serve a r)) := fun hx hr =>
    hp.drives_inside hl hin (hr ▸ World.drives_of_mem hx)
  intro r hr
  by_cases hdrive : ∃ x ∈ w.drives m, x.2 = some (.serve a r)
  · obtain ⟨x, hx, hxr⟩ := hdrive
    by_cases hlook : w.Looks m a r ∧ (w.config.engine.asyncGenerator a).state.isBusy = true
    · obtain ⟨e, reply, k, held, rfl, rfl⟩ := h.of_busy hlook.1 hlook.2
      obtain ⟨v, ⟨ev, hev, hbegun⟩, ⟨q, hq, hwaits⟩, -⟩ := hreturning hs' r hr
      exact ⟨v, ⟨ev, List.mem_cons_of_mem _ hev, hbegun⟩,
        ⟨q, hq, fun f kind hen hf => ⟨(hwaits f kind hen hf).reaction, (hwaits f kind hen hf).job⟩⟩,
        fun f kind hf => by cases hf⟩
    · have hends := hp.ends hw hl h hs hreturning (hdrives hx hxr) fun hr =>
        Bool.eq_false_iff.2 fun hb => hlook ⟨hr, hb⟩
      obtain ⟨v, hbegun, hexp⟩ := hends.waits hs'
      refine ⟨v, ⟨_, List.mem_cons_self, hbegun⟩, hexp, fun f kind hf => ?_⟩
      cases (h.called_of_drives hbacked hx).symm.trans hf
  · have hnot : ∀ x ∈ w.drives m, x.2 ≠ some (.serve a r) := fun x hx hxr => hdrive ⟨x, hx, hxr⟩
    have howed : 0 < (w.ledger (requestsIn es)).owed (.serve a r) :=
      Nat.lt_of_lt_of_le hr (h.owed_mono hbacked hl.lawful trivial hnot)
    have hstate : (w.config.engine.asyncGenerator a).state = .awaitingReturn := by
      by_cases hother : ∃ x ∈ w.drives m, ∃ r', x.2 = some (.serve a r')
      · -- the request is in flight, so at most the queue is looked at for another one
        obtain ⟨x, hx, r', hxr⟩ := hother
        obtain hpos | ⟨b, s, hd, hlook⟩ | ⟨f, -, hd⟩ :=
          World.origin_of_drives (hdrives hx hxr) (requestsIn es)
        · exact absurd (hl.unique howed hpos ▸ hxr) (hnot x hx)
        · cases hd
          obtain ⟨e, reply, k, held, rfl, rfl⟩ := h.of_busy hlook (hl.busy howed)
          exact hs'
        · cases hd
      · have hkept := h.state_eq hbacked hp.allocated' fun x hx r' hxr => hother ⟨x, hx, r', hxr⟩
        exact hkept.symm.trans hs'
    obtain ⟨v, ⟨ev, hev, hbegun⟩, hwait⟩ := hreturning hstate r howed
    exact ⟨v, ⟨ev, List.mem_cons_of_mem _ hev, hbegun⟩,
      h.awaiting (d := .serve a r) hlaw hsingle hl.lawful trivial hnot hwait⟩

/-- **An async generator becomes completed with a request**, whose promise was pending and
shows the outcome then. -/
theorem Step.completes (h : Step w m w') (hw : w.Orderly es)
    (hl : (w.ledger (requestsIn es)).Exclusive) (hp : w.Paired (requestsIn es) a g)
    (hin : w.Inside) (hs : (w.config.engine.asyncGenerator a).state ≠ .completed)
    (hreturning : (w.config.engine.asyncGenerator a).state = .awaitingReturn → w.Returning a g es)
    (hs' : (w'.config.engine.asyncGenerator a).state = .completed) :
    ∃ r o, w.Completes m a g es r o ∧ (w.config.engine.promise r.capability).state = .pending ∧
      w'.config.engine.Tells r.capability o := by
  by_cases hdrive : ∃ x ∈ w.drives m, ∃ r, x.2 = some (.serve a r)
  · obtain ⟨x, hx, r, hxr⟩ := hdrive
    have hdrives := hp.drives_inside hl hin (hxr ▸ World.drives_of_mem hx)
    have hends := hp.ends hw hl h hs hreturning hdrives fun hlook => Bool.eq_false_iff.2 fun hb => by
      obtain ⟨e, reply, k, held, rfl, rfl⟩ := h.of_busy hlook hb
      exact hs hs'
    obtain ⟨o, hcompletes, ho⟩ := hends.completes hs'
    refine ⟨r, o, hcompletes, (World.Paired.open_request (a := a) hw ?_).2, ho⟩
    obtain hpos | ⟨b, s, hd, hlook⟩ | ⟨f, -, hd⟩ :=
      World.origin_of_drives hdrives (requestsIn es)
    · exact .inl hpos
    · cases hd
      exact .inr hlook.mem_queue
    · cases hd
  · have hsame := h.state_eq hw.backed hp.allocated' fun x hx r hxr => hdrive ⟨x, hx, r, hxr⟩
    exact absurd (hsame.symm.trans hs') hs

end Steps

end Microtask
