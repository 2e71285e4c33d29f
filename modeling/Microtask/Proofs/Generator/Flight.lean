import Microtask.Proofs.Continuations
import Microtask.Proofs.Generator.Serving

/-!
# Requests in flight

A busy async generator has one request in flight, whose duty is owed once, and one
that is not busy has none (`Ledger.Flight`). In contrast to the accounts of
`Ledger.Accounts`, which allow for losses, nothing is lost here: only the host can lose
a duty, by dropping jobs or by a panic. Even then no more than one request is in flight
(`Ledger.Exclusive`). This does not depend on who settles the promises of requests.

Main statements: `Act.flights`, `Act.exclusive`.
-/

namespace Microtask

variable {H : Type}

namespace Ledger

/-- The request that an async generator has in flight. -/
structure Flight (l : Ledger H) (a : AsyncGeneratorRef) (flight : Option Request) : Prop where
  busy : (l.engine.asyncGenerator a).state.isBusy = flight.isSome
  owed : ∀ r, l.owed (.serve a r) = if flight = some r then 1 else 0

structure Flights (l : Ledger H) : Prop where
  lawful : l.Lawful
  unspent : ∀ a r, l.Unspent (.serve a r)
  flight : ∀ a, ∃ flight, l.Flight a flight

/-- At most one request of an async generator is owed an answer, once, and only while the
generator is busy. This remains so whatever is lost. -/
structure Exclusive (l : Ledger H) : Prop where
  lawful : l.Lawful
  unspent : ∀ a r, l.Unspent (.serve a r)
  busy : ∀ {a r}, 0 < l.owed (.serve a r) → (l.engine.asyncGenerator a).state.isBusy = true
  unique : ∀ {a r r'}, 0 < l.owed (.serve a r) → 0 < l.owed (.serve a r') → r = r'
  once : ∀ a r, l.owed (.serve a r) ≤ 1

variable {l l' : Ledger H} {a : AsyncGeneratorRef} {r : Request} {flight : Option Request}

namespace Flight

theorem owed_le (h : l.Flight a flight) (r : Request) : l.owed (.serve a r) ≤ 1 := by
  rw [h.owed]
  split <;> omega

/-- What is owed is in flight. -/
theorem eq_of_owed (h : l.Flight a flight) (hr : 0 < l.owed (.serve a r)) : flight = some r := by
  by_contra hne
  rw [h.owed, if_neg hne] at hr
  cases hr

theorem busy_of_owed (h : l.Flight a flight) (hr : 0 < l.owed (.serve a r)) :
    (l.engine.asyncGenerator a).state.isBusy = true := by
  rw [h.busy, h.eq_of_owed hr]
  rfl

theorem keep (h : l.Flight a flight)
    (hbusy : (l'.engine.asyncGenerator a).state.isBusy = (l.engine.asyncGenerator a).state.isBusy)
    (howed : ∀ r, l'.owed (.serve a r) = l.owed (.serve a r)) : l'.Flight a flight :=
  ⟨hbusy.trans h.busy, fun r => (howed r).trans (h.owed r)⟩

end Flight

/-! ## Acts -/

/-- A change that leaves the requests in flight alone. -/
structure Steady (l l' : Ledger H) : Prop where
  busy : ∀ a, (l'.engine.asyncGenerator a).state.isBusy = (l.engine.asyncGenerator a).state.isBusy
  owed : ∀ a r, l'.owed (.serve a r) = l.owed (.serve a r)

namespace Steady

theorem of_asyncGenerators (hgen : l'.engine.asyncGenerators = l.engine.asyncGenerators)
    (howed : ∀ a r, l'.owed (.serve a r) = l.owed (.serve a r)) : l.Steady l' :=
  ⟨fun a => by rw [Engine.asyncGenerator, Engine.asyncGenerator, hgen], howed⟩

end Steady

/-- A request gets in flight: its async generator becomes busy. -/
structure Takes (l l' : Ledger H) (a : AsyncGeneratorRef) (r : Request) : Prop where
  idle : (l.engine.asyncGenerator a).state.isBusy = false
  busy : (l'.engine.asyncGenerator a).state.isBusy = true
  others : ∀ b, b ≠ a →
    (l'.engine.asyncGenerator b).state.isBusy = (l.engine.asyncGenerator b).state.isBusy
  owed : ∀ d, l'.owed d = l.owed d + if .serve a r = d then 1 else 0

/-- A request is in flight no more: its async generator is not busy after that. -/
structure Lands (l l' : Ledger H) (a : AsyncGeneratorRef) (r : Request) : Prop where
  due : 0 < l.owed (.serve a r)
  idle : (l'.engine.asyncGenerator a).state.isBusy = false
  others : ∀ b, b ≠ a →
    (l'.engine.asyncGenerator b).state.isBusy = (l.engine.asyncGenerator b).state.isBusy
  owed : ∀ d, l'.owed d + (if .serve a r = d then 1 else 0) = l.owed d

theorem Takes.owed_of_ne (h : l.Takes l' a r) {b : AsyncGeneratorRef} (hb : b ≠ a) (r' : Request) :
    l'.owed (.serve b r') = l.owed (.serve b r') := by
  have hne : Duty.serve a r ≠ .serve b r' := by
    rintro ⟨⟩
    exact hb rfl
  rw [h.owed, if_neg hne]
  rfl

theorem Lands.owed_of_ne (h : l.Lands l' a r) {b : AsyncGeneratorRef} (hb : b ≠ a) (r' : Request) :
    l'.owed (.serve b r') = l.owed (.serve b r') := by
  have hne : Duty.serve a r ≠ .serve b r' := by
    rintro ⟨⟩
    exact hb rfl
  have hd := h.owed (.serve b r')
  rw [if_neg hne] at hd
  exact hd

/-- The next request is in flight once it has been taken off the queue. -/
theorem Flight.take (h : l.Flight a flight) (ht : l.Takes l' a r) : l'.Flight a (some r) := by
  obtain rfl : flight = none := by
    rw [← Option.not_isSome_iff_eq_none, ← h.busy, ht.idle]
    exact Bool.false_ne_true
  refine ⟨ht.busy, fun r' => ?_⟩
  rw [ht.owed, h.owed]
  simp

/-- A request that is answered is in flight no more. -/
theorem Flight.land (h : l.Flight a flight) (hr : l.Lands l' a r) : l'.Flight a none := by
  obtain rfl := h.eq_of_owed hr.due
  refine ⟨hr.idle, fun r' => ?_⟩
  have hd := hr.owed (.serve a r')
  rw [h.owed] at hd
  simp only [Duty.serve.injEq, true_and, Option.some.injEq, reduceCtorEq, if_false] at hd ⊢
  omega

theorem Flights.steady (h : l.Flights) (hl : l'.Lawful) (hu : ∀ a r, l'.Unspent (.serve a r))
    (hs : l.Steady l') : l'.Flights := by
  refine ⟨hl, hu, fun a => ?_⟩
  obtain ⟨flight, ha⟩ := h.flight a
  exact ⟨flight, ha.keep (hs.busy a) (hs.owed a)⟩

/-- A change of one async generator. -/
theorem Flights.change (h : l.Flights) (hl : l'.Lawful) (hu : ∀ a r, l'.Unspent (.serve a r))
    (hself : ∃ flight, l'.Flight a flight)
    (hbusy : ∀ b, b ≠ a →
      (l'.engine.asyncGenerator b).state.isBusy = (l.engine.asyncGenerator b).state.isBusy)
    (howed : ∀ b r, b ≠ a → l'.owed (.serve b r) = l.owed (.serve b r)) : l'.Flights := by
  refine ⟨hl, hu, fun b => ?_⟩
  by_cases hb : b = a
  · exact hb ▸ hself
  · obtain ⟨flight, hf⟩ := h.flight b
    exact ⟨flight, hf.keep (hbusy b hb) fun r => howed b r hb⟩

theorem Flights.owed_le (h : l.Flights) (a : AsyncGeneratorRef) (r : Request) :
    l.owed (.serve a r) ≤ 1 :=
  (h.flight a).elim fun _ ha => ha.owed_le r

theorem Flights.exclusive (h : l.Flights) : l.Exclusive where
  lawful := h.lawful
  unspent := h.unspent
  busy hr := (h.flight _).elim fun _ hf => hf.busy_of_owed hr
  unique hr hr' := (h.flight _).elim fun _ hf =>
    Option.some.inj ((hf.eq_of_owed hr).symm.trans (hf.eq_of_owed hr'))
  once := h.owed_le

namespace Exclusive

/-- Nothing is owed while the async generator is not busy. -/
theorem not_owed (h : l.Exclusive) (hb : (l.engine.asyncGenerator a).state.isBusy = false)
    (r : Request) : l.owed (.serve a r) = 0 := by
  by_contra hne
  exact absurd (h.busy (Nat.pos_of_ne_zero hne)) (hb ▸ Bool.false_ne_true)

/-- If the duty to answer a request is on the stack, then no other one is owed, and nothing
but the stack has it. -/
theorem owed_le_count (h : l.Exclusive) (hstack : 0 < l.stack.count (.serve a r)) (r' : Request) :
    l.owed (.serve a r') ≤ l.stack.count (.serve a r') := by
  have hpos : 0 < l.owed (.serve a r) := hstack.trans_le (Nat.le_add_left _ _)
  rcases Nat.eq_zero_or_pos (l.owed (.serve a r')) with hzero | hpos'
  · rw [hzero]
    exact Nat.zero_le _
  · obtain rfl := h.unique hpos hpos'
    exact (h.once a r).trans hstack

/-- No function with the duty to serve a request is called again. -/
theorem not_spent (h : l.Exclusive) {f : FunctionRef} (hf : l.called = some f) {a r kind}
    (hen : l.engine.engagement? f = some (.serve a r, kind)) :
    (l.engine.callable f).usage ≠ .spent := by
  rw [h.unspent a r f kind hen (.inr hf)]
  rintro ⟨⟩

/-- **Nothing comes in flight beside a request** as long as none is taken off the queue. -/
theorem mono (h : l.Exclusive) (hl : l'.Lawful) (hu : ∀ a r, l'.Unspent (.serve a r))
    (hbusy : ∀ a,
      (l'.engine.asyncGenerator a).state.isBusy = (l.engine.asyncGenerator a).state.isBusy)
    (howed : ∀ a r, l'.owed (.serve a r) ≤ l.owed (.serve a r)) : l'.Exclusive where
  lawful := hl
  unspent := hu
  busy hr := (hbusy _).trans (h.busy (hr.trans_le (howed _ _)))
  unique hr hr' := h.unique (hr.trans_le (howed _ _)) (hr'.trans_le (howed _ _))
  once a r := (howed a r).trans (h.once a r)

/-- A change of one async generator, which has at most one request in flight after it. -/
theorem change (h : l.Exclusive) (hl : l'.Lawful) (hu : ∀ a r, l'.Unspent (.serve a r))
    (hself : ∀ r', l'.owed (.serve a r') ≤ if r' = r then 1 else 0)
    (hbusy : 0 < l'.owed (.serve a r) → (l'.engine.asyncGenerator a).state.isBusy = true)
    (hothers : ∀ b, b ≠ a →
      (l'.engine.asyncGenerator b).state.isBusy = (l.engine.asyncGenerator b).state.isBusy)
    (howed : ∀ b r, b ≠ a → l'.owed (.serve b r) = l.owed (.serve b r)) : l'.Exclusive := by
  have heq : ∀ {r'}, 0 < l'.owed (.serve a r') → r' = r := by
    intro r' hr
    by_contra hne
    have hle := hself r'
    rw [if_neg hne] at hle
    omega
  refine ⟨hl, hu, fun {b r'} hr => ?_, fun {b r' r''} hr hr' => ?_, fun b r' => ?_⟩
  · by_cases hb : b = a
    · subst hb
      exact hbusy (heq hr ▸ hr)
    · exact (hothers b hb).trans (h.busy (howed b r' hb ▸ hr))
  · by_cases hb : b = a
    · subst hb
      exact (heq hr).trans (heq hr').symm
    · exact h.unique (howed b r' hb ▸ hr) (howed b r'' hb ▸ hr')
  · by_cases hb : b = a
    · subst hb
      refine (hself r').trans ?_
      split <;> omega
    · exact (howed b r' hb).trans_le (h.once b r')

end Exclusive

end Ledger

open Ledger in
/-- **What an act does to the requests in flight**: it takes one off the queue, is done with
one, leaves them alone, or loses everything. -/
theorem Act.flight_cases {R : Rights} {l l' : Ledger H} (h : Act R l l') (hl : l.Exclusive) :
    l.Steady l' ∨ (∃ a r, l.Takes l' a r) ∨ (∃ a r, l.Lands l' a r) ∨
      R.abandon ∧ l' = { l with stack := [] } := by
  have hs := hl.lawful.sound
  cases h with
  | effect he =>
    exact .inl ⟨fun a => (he.asyncGenerator a).2, fun a r =>
      (hs.effect he).2 _ (Duty.serve_ne_adopt a r)⟩
  | @pop id j jobs hpop hj hc =>
    obtain ⟨-, ho⟩ := hs.pop hpop hj hc rfl
    refine .inl (.of_asyncGenerators rfl fun a r => ?_)
    have hne : ∀ p, Duty.serve a r ≠ .result p := by rintro p ⟨⟩
    rw [ho, j.count_results hne]
    rfl
  | @attach id p q jobs hpop =>
    exact .inl (.of_asyncGenerators (Engine.asyncGenerators_engage _ q _ _) fun a r =>
      (hs.attach hpop).2 _)
  | @adopt f q kind e e' hf hcode hu ha hfate =>
    refine .inl ⟨fun a => ?_, fun a r => ?_⟩
    · rw [Engine.asyncGenerator, hfate.asyncGenerators, ← Engine.asyncGenerator,
        (Engine.Effect.asyncGenerator (.aside ha) a).2, Engine.asyncGenerator,
        Engine.asyncGenerators_used]
      rfl
    · exact hl.lawful.owed_adopt hf hcode ha hfate (Duty.serve_ne_adopt a r)
  | @lapse f hf hu =>
    obtain ⟨⟨d, kind⟩, hen⟩ := Option.isSome_iff_exists.1 (hs.called f hf).1
    obtain ⟨-, ho⟩ := hs.uncall hf hen
    refine .inl (.of_asyncGenerators rfl fun a r => ?_)
    have hne : d ≠ .serve a r := by
      rintro rfl
      exact hl.not_spent hf hen hu
    have hd := ho (.serve a r)
    rw [if_neg hne] at hd
    exact hd
  | @wake f d kind hf hen hd hu =>
    exact .inl (.of_asyncGenerators (Engine.asyncGenerators_used _ f) fun a r =>
      (hs.wake hf hen hd rfl).2 _)
  | @start d p hd ho =>
    refine .inl (.of_asyncGenerators rfl fun a r => ?_)
    rw [(hs.push (Duty.ne_of_settles hd).1).2, if_neg ((Duty.ne_of_settles hd).2 a r)]
    rfl
  | @discharge d p rest hstack hd =>
    refine .inl (.of_asyncGenerators rfl fun a r => ?_)
    have hdrop := (hs.drop hstack).2 (.serve a r)
    rw [if_neg ((Duty.ne_of_settles hd).2 a r)] at hdrop
    exact hdrop
  | @engage d rest q c c' hstack hd =>
    obtain ⟨h₁, hdrop⟩ := hs.drop hstack
    exact .inl (.of_asyncGenerators (Engine.asyncGenerators_engage _ q c c') fun a r =>
      ((h₁.engage q hd).2 (.serve a r)).trans (hdrop (.serve a r)))
  | request a c hr hserving =>
    refine .inl ⟨fun b => ?_, fun b r => hs.newPromise.2 (.serve b r)⟩
    have hgen : (l.engine.addRequest a c).2.asyncGenerator b = if b = a then
        { l.engine.asyncGenerator a with
          queue := (l.engine.asyncGenerator a).queue ++ [⟨c, l.engine.newPromise.1⟩] }
        else l.engine.asyncGenerator b := Engine.asyncGenerator_modify l.engine.newPromise.2 a b _
    rw [hgen]
    split
    · next hb => rw [hb]
    · rfl
  | @take a r rest s hserving hb hq ht =>
    have htaken := taken l a r rest s
    refine .inr (.inl ⟨a, r, hb, ?_, fun b hne => ?_, htaken.owed⟩)
    · rw [htaken.generator, if_pos rfl]
      exact ht
    · rw [htaken.generator, if_neg hne]
  | @hold a r rest hstack =>
    refine .inl ⟨fun b => ?_, fun _ _ => rfl⟩
    have hgen : (l.engine.setAsyncState a .awaitingReturn).asyncGenerator b =
        if b = a then { l.engine.asyncGenerator a with state := .awaitingReturn }
        else l.engine.asyncGenerator b := Engine.asyncGenerator_modify l.engine a b _
    rw [hgen]
    split
    · next hb =>
      rw [hb]
      exact (hl.busy (owed_pos_of_stack hstack)).symm
    · rfl
  | @answer a r rest s kind v hstack hserving hb hv =>
    obtain ⟨hgen, howed⟩ := answer_frame hs hstack s hv
    refine .inr (.inr (.inl ⟨a, r, owed_pos_of_stack hstack, ?_, fun b hne => ?_, howed⟩))
    · rw [hgen, if_pos rfl]
      exact hb
    · rw [hgen, if_neg hne]
  | abandon hc hserving hlose => exact .inr (.inr (.inr ⟨hlose, rfl⟩))
  | takeOff hpop => exact .inl (.of_asyncGenerators rfl fun a r => owed_takeOff hpop _)
  | putBack hh => exact .inl (.of_asyncGenerators rfl fun a r => owed_putBack hh _)
  | _ => exact .inl (.of_asyncGenerators rfl fun _ _ => rfl)

section Acts

variable {R : Rights} {l l' : Ledger H}

/-- **Every act keeps the requests in flight**, unless it loses everything. -/
theorem Act.flights (h : Act R l l') (hR : ¬ R.abandon) (hl : l.Flights) : l'.Flights := by
  have hlaw := (h.keeps hl.lawful).lawful
  have hunspent : ∀ a r, l'.Unspent (.serve a r) := fun a r =>
    h.unspent hl.lawful.sound (hl.owed_le a r) (hl.unspent a r)
  obtain hsteady | ⟨a, r, ht⟩ | ⟨a, r, hr⟩ | ⟨hlose, -⟩ := h.flight_cases hl.exclusive
  · exact hl.steady hlaw hunspent hsteady
  · obtain ⟨flight, ha⟩ := hl.flight a
    exact hl.change hlaw hunspent ⟨some r, ha.take ht⟩ ht.others fun b r hb => ht.owed_of_ne hb r
  · obtain ⟨flight, ha⟩ := hl.flight a
    exact hl.change hlaw hunspent ⟨none, ha.land hr⟩ hr.others fun b r hb => hr.owed_of_ne hb r
  · exact absurd hlose hR

/-- **Every act keeps requests from being in flight at the same time.** -/
theorem Act.exclusive (h : Act R l l') (hl : l.Exclusive) : l'.Exclusive := by
  have hlaw := (h.keeps hl.lawful).lawful
  have hunspent : ∀ a r, l'.Unspent (.serve a r) := fun a r =>
    h.unspent hl.lawful.sound (hl.once a r) (hl.unspent a r)
  obtain hsteady | ⟨a, r, ht⟩ | ⟨a, r, hr⟩ | ⟨-, rfl⟩ := h.flight_cases hl
  · exact hl.mono hlaw hunspent hsteady.busy fun a r => (hsteady.owed a r).le
  · refine hl.change hlaw hunspent (a := a) (r := r) (fun r' => ?_) (fun _ => ht.busy) ht.others
      fun b r hb => ht.owed_of_ne hb r
    rw [ht.owed, hl.not_owed ht.idle]
    simp [eq_comm]
  · have hnone : ∀ r', l'.owed (.serve a r') = 0 := by
      intro r'
      have hd := hr.owed (.serve a r')
      by_cases heq : r' = r
      · subst heq
        rw [if_pos rfl] at hd
        have honce := hl.once a r'
        omega
      · have hother : l.owed (.serve a r') = 0 := by
          by_contra hne
          exact heq (hl.unique (Nat.pos_of_ne_zero hne) hr.due)
        omega
    refine hl.change hlaw hunspent (a := a) (r := r) (fun r' => ?_) (fun hpos => ?_) hr.others
      fun b r hb => hr.owed_of_ne hb r
    · rw [hnone]
      exact Nat.zero_le _
    · exact absurd (hnone r) hpos.ne'
  · refine hl.mono hlaw hunspent (fun _ => rfl) fun a r => ?_
    exact Nat.add_le_add_left (Nat.zero_le _) _

end Acts

end Microtask
