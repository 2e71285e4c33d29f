import Microtask.Proofs.Generator.Accounts

/-!
# Serving requests

What taking a request off the queue, answering it and making a new one do to the
accounts (`Ledger.Taken`, `Ledger.Answered`, `Ledger.Requested`), and that all
other acts are quiet about them.

Main statement: `Act.accounts`.
-/

namespace Microtask

variable {H : Type}

/-! ## Taking, holding and answering requests -/

namespace Ledger

variable {l : Ledger H} {a : AsyncGeneratorRef} {r : Request} {rest : List Duty}

theorem owed_pos_of_stack {d : Duty} (hs : l.stack = d :: rest) : 0 < l.owed d := by
  have hpos : 0 < l.stack.count d := by
    rw [hs]
    exact List.count_pos_iff.2 List.mem_cons_self
  rw [owed]
  omega

namespace Account

variable {served flight : List Request}

/-- Whoever works on a request has the one in flight. -/
theorem busy_of_owed (h : l.Account a served flight) (hr : 0 < l.owed (.serve a r)) :
    (l.engine.asyncGenerator a).state.isBusy = true := by
  have hsingle := h.single
  rw [h.duty r hr] at hsingle
  by_contra hb
  rw [if_neg hb] at hsingle
  cases hsingle

theorem flight_of_idle (h : l.Account a served flight)
    (hb : (l.engine.asyncGenerator a).state.isBusy = false) : flight = [] := by
  have hsingle := h.single
  rw [hb] at hsingle
  exact List.length_eq_zero_iff.1 hsingle

end Account

/-- The promise of a request that somebody works on, or that waits, is unresolved. -/
theorem Accounts.unresolved (h : l.Accounts)
    (hr : 0 < l.owed (.serve a r) ∨ r ∈ (l.engine.asyncGenerator a).queue) :
    (l.engine.promise r.capability).resolved = false := by
  obtain ⟨served, flight, ha⟩ := h.account a
  refine ha.unresolved r (List.mem_append.2 (hr.imp_left fun hpos => ?_))
  rw [ha.duty r hpos]
  exact List.mem_cons_self

/-- A request is taken off the queue, and nothing else happens. -/
structure Taken (l l' : Ledger H) (a : AsyncGeneratorRef) (r : Request) (requests : List Request)
    (s : AsyncGeneratorState) : Prop where
  issued : l'.issued = l.issued
  serving : l'.serving = l.serving
  generator : ∀ b, l'.engine.asyncGenerator b =
    if b = a then { l.engine.asyncGenerator a with queue := requests, state := s }
    else l.engine.asyncGenerator b
  promise : ∀ p, l'.engine.promise p = l.engine.promise p
  owed : ∀ d, l'.owed d = l.owed d + if .serve a r = d then 1 else 0

/-- A request is answered, and nothing else happens. -/
structure Answered (l l' : Ledger H) (a : AsyncGeneratorRef) (r : Request)
    (s : AsyncGeneratorState) : Prop where
  issued : l'.issued = l.issued
  serving : l'.serving = l.serving
  generator : ∀ b, l'.engine.asyncGenerator b =
    if b = a then { l.engine.asyncGenerator a with state := s } else l.engine.asyncGenerator b
  promise : ∀ p, p ≠ r.capability → l'.engine.promise p = l.engine.promise p
  settled : (l'.engine.promise r.capability).state ≠ .pending
  owed : ∀ d, l'.owed d + (if .serve a r = d then 1 else 0) = l.owed d

/-- A request with a promise of its own is appended to the queue, and nothing else
happens. -/
structure Requested (l l' : Ledger H) (a : AsyncGeneratorRef) (r : Request) : Prop where
  issued : l'.issued = l.issued ++ [(a, r)]
  free : l.serving = none
  serving : l'.serving = some a
  generator : ∀ b, l'.engine.asyncGenerator b =
    if b = a then
      { l.engine.asyncGenerator a with queue := (l.engine.asyncGenerator a).queue ++ [r] }
    else l.engine.asyncGenerator b
  promise : ∀ p, p ≠ r.capability → l'.engine.promise p = l.engine.promise p
  unresolved : (l'.engine.promise r.capability).resolved = false
  fresh : ¬ l.Issued r.capability
  owed : ∀ d, l'.owed d = l.owed d

theorem taken (l : Ledger H) (a : AsyncGeneratorRef) (r : Request) (requests : List Request)
    (s : AsyncGeneratorState) :
    l.Taken { l with
      engine := l.engine.modifyAsyncGenerator a fun g => { g with queue := requests, state := s }
      stack := .serve a r :: l.stack } a r requests s where
  issued := rfl
  serving := rfl
  generator b := Engine.asyncGenerator_modify l.engine a b _
  promise _ := rfl
  owed d := by
    refine owed_push ?_ ?_ ?_ ?_ d
    · exact ⟨rfl, rfl, rfl⟩
    all_goals rfl

/-- An answer takes the duty off the stack, whether or not the promise of the request has
been resolved before. -/
theorem answer_frame (hs : l.Sound) (hstack : l.stack = .serve a r :: rest)
    (s : AsyncGeneratorState) {kind : Settling} {v : Value}
    (hv : kind = .fulfill → ∀ p, v ≠ .promise p) :
    (∀ b, ((l.engine.setAsyncState a s).settle r.capability kind v).asyncGenerator b =
      if b = a then { l.engine.asyncGenerator a with state := s }
      else l.engine.asyncGenerator b) ∧
    ∀ d, ({ l with
        engine := (l.engine.setAsyncState a s).settle r.capability kind v
        stack := rest } : Ledger H).owed d + (if .serve a r = d then 1 else 0) = l.owed d := by
  let l₁ : Ledger H := { l with engine := l.engine.setAsyncState a s, stack := rest }
  have he : l.engine.Alike l₁.engine := ⟨rfl, rfl, rfl⟩
  obtain ⟨h₁, -⟩ := hs.restack he rfl rfl fun p hp =>
    hs.stack p (hstack ▸ List.mem_cons_of_mem _ hp)
  have hdrop : ∀ d, l₁.owed d + (if .serve a r = d then 1 else 0) = l.owed d :=
    owed_drop he rfl rfl hstack
  cases hres : (l₁.engine.promise r.capability).resolved with
  | true =>
    rw [Engine.settle_of_resolved hres]
    exact ⟨fun b => Engine.asyncGenerator_modify l.engine a b _, hdrop⟩
  | false =>
    rw [Engine.settle_of_unresolved hres hv]
    obtain ⟨h₂, ho₂⟩ := h₁.lock r.capability
    obtain ⟨-, ho₃⟩ := h₂.settleNow r.capability kind v
    refine ⟨fun b => ?_, fun d => ?_⟩
    · rw [Engine.asyncGenerator, Engine.asyncGenerators_settleNow]
      exact Engine.asyncGenerator_modify l.engine a b _
    · rw [← hdrop]
      exact congrArg (· + _) ((ho₃ d).trans (ho₂ d))

/-- What answering a request with an unresolved promise comes down to. -/
theorem answered (h : l.Lawful) (hstack : l.stack = .serve a r :: rest)
    (hres : (l.engine.promise r.capability).resolved = false) (s : AsyncGeneratorState)
    {kind : Settling} {v : Value} (hv : kind = .fulfill → ∀ p, v ≠ .promise p) :
    l.Answered { l with
      engine := (l.engine.setAsyncState a s).settle r.capability kind v
      stack := rest } a r s := by
  obtain ⟨hgen, howed⟩ := answer_frame h.sound hstack s hv
  have hres' : ((l.engine.setAsyncState a s).promise r.capability).resolved = false := hres
  have hlocked : (((l.engine.setAsyncState a s).lock r.capability).promise r.capability).state =
      .pending := by
    rw [Engine.promise_lock, if_pos rfl]
    exact (h.sane _).pending hres
  refine ⟨rfl, rfl, hgen, fun p hp => ?_, ?_, howed⟩
  · rw [Engine.settle_of_unresolved hres' hv, Engine.promise_settleNow hlocked, if_neg hp,
      Engine.promise_lock, if_neg hp]
    rfl
  · rw [Engine.settle_of_unresolved hres' hv, Engine.promise_settleNow hlocked, if_pos rfl]
    exact Promise.settled_ne_pending _ kind v

section Serving

variable {l' : Ledger H} {b : AsyncGeneratorRef} {served flight : List Request}
  {requests : List Request} {s : AsyncGeneratorState}

/-- The next request is in flight once it has been taken off the queue. -/
theorem Account.take (h : l.Account a served []) (ht : l.Taken l' a r requests s)
    (hq : (l.engine.asyncGenerator a).queue = r :: requests) (hs : s.isBusy = true) :
    l'.Account a served [r] := by
  have hgen := ht.generator a
  rw [if_pos rfl] at hgen
  have hnone : ∀ r', l.owed (.serve a r') = 0 := by
    intro r'
    by_contra hpos
    cases h.duty r' (Nat.pos_of_ne_zero hpos)
  refine ⟨?_, fun r' hr' => ?_, fun r' hr' => ?_, ?_, fun _ hbusy => ?_, fun r' hr' => ?_,
    fun r' => ?_⟩
  · rw [hgen, ht.issued, h.requests, hq]
    simp
  · rw [ht.promise]
    exact h.settled r' hr'
  · rw [hgen] at hr'
    rw [ht.promise]
    exact h.unresolved r' (hq ▸ hr')
  · rw [hgen]
    simp [hs]
  · rw [hgen, hs] at hbusy
    cases hbusy
  · rw [ht.owed, hnone] at hr'
    split at hr'
    · next heq =>
      cases heq
      rfl
    · cases hr'
  · rw [ht.owed, hnone]
    split <;> omega

theorem Accounts.take (h : l.Accounts) (ht : l.Taken l' a r requests s)
    (hb : (l.engine.asyncGenerator a).state.isBusy = false)
    (hq : (l.engine.asyncGenerator a).queue = r :: requests) (hs : s.isBusy = true)
    (b : AsyncGeneratorRef) : ∃ served flight, l'.Account b served flight := by
  obtain ⟨served, flight, hacc⟩ := h.account b
  by_cases hba : b = a
  · subst hba
    obtain rfl := hacc.flight_of_idle hb
    exact ⟨served, [r], hacc.take ht hq hs⟩
  · have hsame : l'.engine.asyncGenerator b = l.engine.asyncGenerator b := by
      rw [ht.generator, if_neg hba]
    refine ⟨served, flight, hacc.keep (by rw [ht.issued]) (by rw [hsame]) (by rw [hsame])
      (by rw [ht.serving]; exact id) (fun p => by rw [ht.promise]; exact .refl _)
      (fun r' _ _ hr' => by rw [ht.promise]; exact hr') fun r' => ?_⟩
    have hne : Duty.serve a r ≠ .serve b r' := by
      intro heq
      cases heq
      exact hba rfl
    rw [ht.owed, if_neg hne]
    exact le_rfl

/-- An answered request is the last one of those that are served. -/
theorem Account.answer (hacc : l.Account a served [r]) (h : l.Accounts)
    (ha : l.Answered l' a r s) (hserving : l.serving = some a) (hs : s.isBusy = false)
    (hp : ∀ p, (l.engine.promise p).Persists (l'.engine.promise p)) :
    l'.Account a (served ++ [r]) [] := by
  have hgen := ha.generator a
  rw [if_pos rfl] at hgen
  have hnodup := (h.nodup_capabilities a).of_map _
  rw [hacc.requests] at hnodup
  have hnot : r ∉ (l.engine.asyncGenerator a).queue := fun hmem =>
    (List.nodup_append.1 hnodup).2.2 r (List.mem_append_right _ List.mem_cons_self) r hmem rfl
  have hnone : ∀ r', l'.owed (.serve a r') = 0 := by
    intro r'
    by_contra hpos
    have hd := ha.owed (.serve a r')
    have hflight : [r] = [r'] := hacc.duty r' (by omega)
    obtain rfl : r = r' := List.singleton_inj.1 hflight
    have honce := hacc.once r
    rw [if_pos rfl] at hd
    omega
  refine ⟨?_, fun r' hr' => ?_, fun r' hr' => ?_, ?_, fun hne => ?_, fun r' hr' => ?_,
    fun r' => ?_⟩
  · rw [hgen, ha.issued, hacc.requests, List.append_nil]
  · rcases List.mem_append.1 hr' with hr' | hr'
    · rw [(hp _).settled (hacc.settled r' hr')]
      exact hacc.settled r' hr'
    · rw [List.mem_singleton.1 hr']
      exact ha.settled
  · rw [hgen] at hr'
    have hqueue : r' ∈ (l.engine.asyncGenerator a).queue := hr'
    have hmem : r' ∈ [r] ++ (l.engine.asyncGenerator a).queue := List.mem_append_right _ hqueue
    rw [ha.promise]
    · exact hacc.unresolved r' hmem
    · intro heq
      obtain ⟨-, rfl⟩ := h.request_unique (hacc.issued hmem) (hacc.issued List.mem_cons_self) heq
      exact hnot hqueue
  · rw [hgen]
    simp [hs]
  · rw [ha.serving] at hne
    exact absurd hserving hne
  · rw [hnone] at hr'
    cases hr'
  · rw [hnone]
    exact Nat.zero_le _

theorem Accounts.answer (h : l.Accounts) (hacc : l.Account a served [r])
    (ha : l.Answered l' a r s) (hserving : l.serving = some a) (hs : s.isBusy = false)
    (hp : ∀ p, (l.engine.promise p).Persists (l'.engine.promise p)) (b : AsyncGeneratorRef) :
    ∃ served flight, l'.Account b served flight := by
  by_cases hba : b = a
  · subst hba
    exact ⟨served ++ [r], [], hacc.answer h ha hserving hs hp⟩
  · obtain ⟨served', flight', hb⟩ := h.account b
    have hsame : l'.engine.asyncGenerator b = l.engine.asyncGenerator b := by
      rw [ha.generator, if_neg hba]
    refine ⟨served', flight', hb.keep (by rw [ha.issued]) (by rw [hsame]) (by rw [hsame])
      (by rw [ha.serving]; exact id) hp (fun r' hr' _ hres => ?_) fun r' => ?_⟩
    · rw [ha.promise]
      · exact hres
      · intro heq
        exact hba (h.request_unique hr' (hacc.issued List.mem_cons_self) heq).1
    · exact Nat.le_of_add_right_le (ha.owed (.serve b r')).le

/-- A new request waits at the end of the queue. -/
theorem Account.request (h : l.Account a served flight) (hr : l.Requested l' a r)
    (hp : ∀ p, (l.engine.promise p).Persists (l'.engine.promise p)) :
    l'.Account a served flight := by
  have hgen := hr.generator a
  rw [if_pos rfl] at hgen
  refine ⟨?_, fun r' hr' => ?_, fun r' hr' => ?_, ?_, fun hne => absurd hr.serving hne,
    fun r' hr' => ?_, fun r' => ?_⟩
  · rw [hgen, hr.issued, requestsOf_append, h.requests]
    simp [requestsOf]
  · rw [(hp _).settled (h.settled r' hr')]
    exact h.settled r' hr'
  · rw [hgen, ← List.append_assoc, List.mem_append, List.mem_singleton] at hr'
    rcases hr' with hr' | rfl
    · rw [hr.promise]
      · exact h.unresolved r' hr'
      · intro heq
        exact hr.fresh (heq ▸ ⟨_, h.issued hr', rfl⟩)
    · exact hr.unresolved
  · rw [hgen]
    exact h.single
  · rw [hr.owed] at hr'
    exact h.duty r' hr'
  · rw [hr.owed]
    exact h.once r'

theorem Accounts.requested (h : l.Accounts) (hr : l.Requested l' a r)
    (hp : ∀ p, (l.engine.promise p).Persists (l'.engine.promise p)) (b : AsyncGeneratorRef) :
    ∃ served flight, l'.Account b served flight := by
  obtain ⟨served, flight, hacc⟩ := h.account b
  by_cases hba : b = a
  · subst hba
    exact ⟨served, flight, hacc.request hr hp⟩
  · have hsame : l'.engine.asyncGenerator b = l.engine.asyncGenerator b := by
      rw [hr.generator, if_neg hba]
    refine ⟨served, flight, hacc.keep ?_ (by rw [hsame]) (by rw [hsame]) (fun _ => ?_) hp
      (fun r' hr' _ hres => ?_) fun r' => (hr.owed _).le⟩
    · rw [hr.issued, requestsOf_append]
      simp [requestsOf, Ne.symm hba]
    · rw [hr.free]
      rintro ⟨⟩
    · rw [hr.promise]
      · exact hres
      · intro heq
        exact hr.fresh (heq ▸ ⟨_, hr', rfl⟩)

end Serving

/-! ## Acts -/

/-- An effect that may not settle the promise of a request. -/
theorem Quiet.of_effect {R : Rights} (hl : l.Accounts) (hR : ∀ p, l.Issued p → ¬ R.settle p)
    {e' : Engine H} (he : l.engine.Effect R e') : l.Quiet { l with engine := e' } where
  issued := rfl
  queue a := (he.asyncGenerator a).1
  busy a := (he.asyncGenerator a).2
  serving _ ha := ha
  unresolved p hp hr := he.unresolved (hR p hp) (hl.allocated p hp) hr
  owed a r := ((hl.lawful.sound.effect he).2 (.serve a r) (Duty.serve_ne_adopt a r)).le

/-- A job that is begun is not about a request by itself. -/
theorem Quiet.of_pop (hs : l.Sound) {id : Nat} {j : Job H} {jobs : JobQueue (Job H)}
    (hpop : l.engine.jobs.pop? = some ((id, j), jobs)) (hj : ∀ p q, j ≠ .adoption p q)
    (hc : l.called = none) :
    l.Quiet { l with
      engine := { l.engine with jobs }
      called := l.engine.calledBy j
      stack := j.results ++ l.stack } := by
  obtain ⟨-, ho⟩ := hs.pop hpop hj hc rfl
  refine .of_same rfl rfl (fun _ => rfl) (fun _ ha => ha) fun a r => ?_
  rw [ho, j.count_results (d := .serve a r) fun p => nofun]
  exact le_rfl

/-- The promise of a request has not been resolved, and one that adopts another has. -/
theorem Quiet.of_adopt {R : Rights} (hl : l.Lawful) {f : FunctionRef} {q : PromiseRef}
    {kind : Settling} {e e' : Engine H} (hf : l.called = some f)
    (hcode : (l.engine.callable f).code = .adopt q kind) (ha : (l.engine.used f).Aside R e)
    (hfate : e.Fate q e') : l.Quiet { l with engine := e', called := none } := by
  obtain ⟨-, hres⟩ := hl.due hf hcode
  have hgen : ∀ a, e'.asyncGenerator a = e.asyncGenerator a := fun a => by
    rw [Engine.asyncGenerator, Engine.asyncGenerator, hfate.asyncGenerators]
  have hused : ∀ a, (l.engine.used f).asyncGenerator a = l.engine.asyncGenerator a := fun a => by
    rw [Engine.asyncGenerator, Engine.asyncGenerator, Engine.asyncGenerators_used]
  refine ⟨rfl, fun a => ?_, fun a => ?_, fun _ ha => ha, fun p _ hr => ?_, fun a r => ?_⟩
  · rw [hgen, (Engine.Effect.asyncGenerator (.aside ha) a).1, hused]
  · rw [hgen, (Engine.Effect.asyncGenerator (.aside ha) a).2, hused]
  · have hne : p ≠ q := by
      rintro rfl
      rw [hres] at hr
      cases hr
    rw [hfate.promise_of_ne hne, ha.promise, Engine.promise_used]
    exact hr
  · exact (hl.owed_adopt hf hcode ha hfate (Duty.serve_ne_adopt a r)).le

/-- A wait hands its duty on. -/
theorem Quiet.of_engage (hs : l.Sound) {d : Duty} {q : PromiseRef} {c c' : Callable H}
    (hstack : l.stack = d :: rest) (hd : d.Engages c c') :
    l.Quiet { l with engine := l.engine.engage q c c', stack := rest } := by
  have he : l.engine.Alike ({ l with stack := rest } : Ledger H).engine := ⟨rfl, rfl, rfl⟩
  obtain ⟨h₁, -⟩ := hs.restack he rfl rfl fun p hp =>
    hs.stack p (hstack ▸ List.mem_cons_of_mem _ hp)
  obtain ⟨-, ho⟩ := h₁.engage q hd
  refine .of_asyncGenerators rfl (Engine.asyncGenerators_engage _ q c c')
    (fun s _ hr => (Engine.resolved_engage l.engine q c c' s).trans hr) (fun _ ha => ha)
    fun a r => ?_
  have hdrop : ({ l with stack := rest } : Ledger H).owed (.serve a r) +
      (if d = .serve a r then 1 else 0) = l.owed (.serve a r) :=
    owed_drop he rfl rfl hstack (.serve a r)
  exact ((ho (.serve a r)).trans hdrop).le

/-- Whoever works on a request may go on to wait for its result. -/
theorem Quiet.of_hold (hl : l.Accounts) (hstack : l.stack = .serve a r :: rest) :
    l.Quiet { l with engine := l.engine.setAsyncState a .awaitingReturn } := by
  obtain ⟨served, flight, ha⟩ := hl.account a
  have hgen : ∀ b, (l.engine.setAsyncState a .awaitingReturn).asyncGenerator b =
      if b = a then { l.engine.asyncGenerator a with state := .awaitingReturn }
      else l.engine.asyncGenerator b := fun b => Engine.asyncGenerator_modify l.engine a b _
  refine ⟨rfl, fun b => ?_, fun b => ?_, fun _ hb => hb, fun _ _ hr => hr, fun _ _ => le_rfl⟩
  · rw [hgen]
    split
    · next hb => rw [hb]
    · rfl
  · rw [hgen]
    split
    · next hb =>
      rw [hb]
      exact (ha.busy_of_owed (owed_pos_of_stack hstack)).symm
    · rfl

/-- Nobody looks at the queue any more if the async generator is busy, or if there is
nothing in it. -/
theorem Account.idle {b : AsyncGeneratorRef} {served flight : List Request}
    (hb : l.Account b served flight) (hserving : l.serving = some a)
    (hi : (l.engine.asyncGenerator a).state.isBusy = true ∨
      (l.engine.asyncGenerator a).queue = []) :
    ({ l with serving := none } : Ledger H).Account b served flight := by
  refine ⟨hb.requests, hb.settled, hb.unresolved, hb.single, fun _ hbusy => ?_, hb.duty, hb.once⟩
  have hbusy' : (l.engine.asyncGenerator b).state.isBusy = false := hbusy
  by_cases hba : b = a
  · subst hba
    rcases hi with hi | hi
    · rw [hi] at hbusy'
      cases hbusy'
    · exact hi
  · refine hb.waiting (fun heq => hba ?_) hbusy'
    exact (Option.some.inj (hserving.symm.trans heq)).symm

end Ledger

open Ledger in
/-- **Every act keeps the accounts**, if it may not settle the promise of a request
and makes none. -/
theorem Act.accounts {R : Rights} {l l' : Ledger H} (h : Act R l l')
    (hR : ∀ p, l.Issued p → ¬ R.settle p) (hreq : ¬ R.request) (hl : l.Accounts) :
    l'.Accounts ∧ l'.issued = l.issued := by
  have hs := hl.lawful.sound
  have hk := h.keeps hl.lawful
  have hg := h.grows
  have hquiet : l.Quiet l' → l'.Accounts ∧ l'.issued = l.issued :=
    fun hq => ⟨hl.quiet hk.lawful hk.persists hg hq, hq.issued⟩
  have hrest : ∀ {d : Duty} {rest : List Duty}, l.stack = d :: rest → ∀ p, .adopt p ∉ rest :=
    fun hstack p hp => hs.stack p (hstack ▸ List.mem_cons_of_mem _ hp)
  cases h with
  | effect he => exact hquiet (.of_effect hl hR he)
  | pop hpop hj hc => exact hquiet (.of_pop hs hpop hj hc)
  | @attach id p q jobs hpop =>
    obtain ⟨-, ho⟩ := hs.attach hpop
    exact hquiet (.of_asyncGenerators rfl (Engine.asyncGenerators_engage _ q _ _)
      (fun s _ hr => (Engine.resolved_engage { l.engine with jobs } q _ _ s).trans hr)
      (fun _ ha => ha) fun a r => (ho _).le)
  | adopt hf hcode hu ha hfate => exact hquiet (.of_adopt hl.lawful hf hcode ha hfate)
  | @lapse f hf hu =>
    obtain ⟨x, hx⟩ := Option.isSome_iff_exists.1 (hs.called f hf).1
    obtain ⟨-, ho⟩ := hs.uncall hf hx
    exact hquiet (.of_same rfl rfl (fun _ => rfl) (fun _ ha => ha)
      fun a r => Nat.le_of_add_right_le (ho (.serve a r)).le)
  | @wake f d kind hf hen hd hu =>
    obtain ⟨-, ho⟩ := hs.wake hf hen hd rfl
    exact hquiet (.of_same rfl (Engine.asyncGenerators_used _ f) (Engine.promise_used _ f)
      (fun _ ha => ha) fun a r => (ho _).le)
  | @start d p hd ho =>
    refine hquiet (.of_stack hs ⟨rfl, rfl, rfl⟩ rfl rfl rfl (fun q hq => ?_) (fun a r => ?_) rfl
      fun _ ha => ha)
    · rcases List.mem_cons.1 hq with rfl | hq
      · cases hd
      · exact hs.stack q hq
    · have hne : d ≠ .serve a r := by
        rintro rfl
        cases hd
      rw [List.count_cons_of_ne hne]
  | @discharge d p rest hstack hd =>
    refine hquiet (.of_stack hs ⟨rfl, rfl, rfl⟩ rfl rfl rfl (hrest hstack) (fun a r => ?_) rfl
      fun _ ha => ha)
    rw [hstack]
    exact (List.sublist_cons_self d rest).count_le _
  | engage hstack hd => exact hquiet (.of_engage hs hstack hd)
  | request a c hr hserving => exact absurd hr hreq
  | look a hserving =>
    refine hquiet (.of_same rfl rfl (fun _ => rfl) (fun b _ => ?_) fun _ _ => le_rfl)
    rw [hserving]
    intro hnone
    cases hnone
  | idle hserving hi =>
    refine ⟨hl.change hk.lawful hg rfl fun b => ?_, rfl⟩
    obtain ⟨served, flight, hb⟩ := hl.account b
    exact ⟨served, flight, hb.idle hserving hi⟩
  | take hserving hb hq ht =>
    exact ⟨hl.change hk.lawful hg rfl (hl.take (taken l _ _ _ _) hb hq ht), rfl⟩
  | hold hstack => exact hquiet (.of_hold hl hstack)
  | @answer a r rest s kind v hstack hserving hb hv =>
    obtain ⟨served, flight, hacc⟩ := hl.account a
    obtain rfl := hacc.duty r (owed_pos_of_stack hstack)
    have ha := answered hl.lawful hstack (hacc.unresolved r List.mem_cons_self) s hv
    exact ⟨hl.change hk.lawful hg rfl (hl.answer hacc ha hserving hb hk.persists), rfl⟩
  | abandon hc hserving =>
    exact hquiet (.of_stack hs ⟨rfl, rfl, rfl⟩ rfl rfl rfl (fun _ => List.not_mem_nil)
      (fun _ _ => Nat.zero_le _) rfl fun _ ha => ha)
  | takeOff hpop =>
    exact hquiet (.of_jobs ⟨rfl, rfl, rfl⟩ rfl (jobs_takeOff hpop).subperm rfl rfl rfl rfl)
  | putBack hh =>
    exact hquiet (.of_jobs ⟨rfl, rfl, rfl⟩ rfl (jobs_putBack hh).subperm rfl rfl rfl rfl)

open Ledger in
/-- Making a request keeps the accounts. -/
theorem Ledger.Accounts.request {l : Ledger H} (h : l.Accounts) (a : AsyncGeneratorRef)
    (c : Completion) (hserving : l.serving = none) :
    ({ l with
      engine := (l.engine.addRequest a c).2
      serving := some a
      issued := l.issued ++ [(a, ⟨c, l.engine.newPromise.1⟩)] } : Ledger H).Accounts := by
  have hact := Act.request (R := Rights.all) a c trivial hserving
  have hk := hact.keeps h.lawful
  have hg := hact.grows
  have hprom : ∀ p, (l.engine.addRequest a c).2.promise p =
      if p = ⟨l.engine.promises.size⟩ then { id := l.engine.nextId } else l.engine.promise p :=
    Engine.promise_newPromise l.engine
  have hfresh : ¬ l.Issued ⟨l.engine.promises.size⟩ := fun hp => (h.allocated _ hp).ne rfl
  have hr : l.Requested { l with
      engine := (l.engine.addRequest a c).2
      serving := some a
      issued := l.issued ++ [(a, ⟨c, l.engine.newPromise.1⟩)] } a ⟨c, l.engine.newPromise.1⟩ := by
    refine ⟨rfl, hserving, rfl, fun b => ?_, fun p hp => ?_, ?_, hfresh, ?_⟩
    · exact Engine.asyncGenerator_modify l.engine.newPromise.2 a b _
    · exact (hprom p).trans (if_neg hp)
    · have hnew : (l.engine.addRequest a c).2.promise l.engine.newPromise.1 =
          { id := l.engine.nextId } := (hprom _).trans (if_pos rfl)
      rw [hnew]
    · exact h.lawful.sound.newPromise.2
  refine ⟨hk.lawful, fun p hp => ?_, ?_, h.requested hr hk.persists⟩
  · obtain ⟨x, hx, rfl⟩ := hp
    rcases List.mem_append.1 hx with hx | hx
    · exact (h.allocated _ ⟨x, hx, rfl⟩).trans_le hg.promises
    · rw [List.mem_singleton.1 hx]
      show l.engine.promises.size < (l.engine.promises.push _).size
      rw [Store.size_push]
      exact Nat.lt_succ_self _
  · rw [List.map_append]
    refine List.nodup_append.2 ⟨h.distinct, List.nodup_singleton _, fun p hp q hq => ?_⟩
    obtain ⟨x, hx, rfl⟩ := List.mem_map.1 hp
    rw [List.mem_singleton.1 hq]
    exact fun heq => hfresh ⟨x, hx, heq⟩

end Microtask
