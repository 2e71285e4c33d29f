import Microtask.Proofs.Promise.Restoring

/-!
# The course of a `finally`

A `finally` attaches a pair of functions to a promise and answers with another one (`Finalizer`).
It is first in wait of a settlement (`World.Upcoming`). Then its callback is called, without
arguments, and nothing comes back until the callback is done (`World.Underway`). With what the
callback has come to, the promise is rejected, or it follows a promise that restores the
settlement (`World.ComesTo`). Every step keeps it in its stage or takes it to the next one
(`Step.upcoming`, `Step.underway`, `Step.comes_to`), so that the callback is called once, and has
one result.

Main statement: `Steps.finalizes`.
-/

namespace Microtask

variable {H : Type}

/-! ## Calls of the callback -/

/-- The promise that a `finally` answered with, of a caller that waits for its callback. -/
def Caller.finalizes? : Caller H → Option PromiseRef
  | .finalizer _ _ (.reaction capability _) => capability
  | _ => none

/-- The callback that is being called for the promise of a `finally`, and the arguments. -/
def World.callsBack? (w : World H) (d : PromiseRef) : Option (FunctionRef × List Value) :=
  match w.config.control with
  | .call f args k => if k.finalizes? = some d then some (f, args) else none
  | _ => none

/-- What the callback comes to that has been called for the promise of a `finally`. -/
def World.comesBack? (w : World H) (d : PromiseRef) : Option (Settling × Value) :=
  match w.config.control with
  | .deliver result k =>
    if k.finalizes? = some d then some (w.config.engine.upshot result) else none
  | _ => none

/-- The calls of callbacks for the promise of a `finally`, the latest one first. -/
def callsFor (d : PromiseRef) (es : List (Event H)) : List (FunctionRef × List Value) :=
  es.filterMap (·.before.callsBack? d)

/-- What they have come to. -/
def resultsFor (d : PromiseRef) (es : List (Event H)) : List (Settling × Value) :=
  es.filterMap (·.before.comesBack? d)

theorem Caller.finalizes_iff {k : Caller H} {d : PromiseRef} : k.finalizes? = some d ↔
    ∃ v kind drain, k = .finalizer v kind (.reaction (some d) drain) := by
  constructor
  · intro h
    cases k with
    | finalizer v kind k =>
      cases k with
      | reaction capability drain =>
        cases h
        exact ⟨v, kind, drain, rfl⟩
      | _ => cases h
    | _ => cases h
  · rintro ⟨v, kind, drain, rfl⟩
    rfl

/-- Below a callback waits the caller that settles the promise. -/
theorem Caller.countP_finalizer (v : Value) (kind : Settling) (d : PromiseRef) (drain : Drain H) :
    0 < (Caller.finalizer v kind (.reaction (some d) drain)).callers.countP
      (fun k => decide (k.capability? = some d)) :=
  List.countP_pos_iff.2 ⟨.reaction (some d) drain, List.mem_cons_of_mem _ List.mem_cons_self,
    decide_eq_true rfl⟩

namespace World

variable {w : World H} {d : PromiseRef}

theorem callsBack_iff {x : FunctionRef × List Value} : w.callsBack? d = some x ↔
    ∃ k, w.config.control = .call x.1 x.2 k ∧ k.finalizes? = some d := by
  rw [callsBack?]
  constructor
  · intro h
    split at h
    · next f args k hc =>
      split at h
      · next hk =>
        cases h
        exact ⟨k, hc, hk⟩
      · cases h
    · cases h
  · rintro ⟨k, hc, hk⟩
    rw [hc]
    exact if_pos hk

theorem comesBack_iff {x : Settling × Value} : w.comesBack? d = some x ↔
    ∃ result k, w.config.control = .deliver result k ∧ k.finalizes? = some d ∧
      w.config.engine.upshot result = x := by
  rw [comesBack?]
  constructor
  · intro h
    split at h
    · next result k hc =>
      split at h
      · next hk => exact ⟨result, k, hc, hk, Option.some.inj h⟩
      · cases h
    · cases h
  · rintro ⟨result, k, hc, hk, rfl⟩
    rw [hc]
    exact if_pos hk

/-- Nothing is called for the promise, and nothing comes back. -/
structure Quiet (w : World H) (d : PromiseRef) : Prop where
  call : w.callsBack? d = none
  result : w.comesBack? d = none

/-- A function is called, or a result is delivered, for others. -/
theorem quiet_of_caller {k : Caller H} (hk : k.finalizes? ≠ some d)
    (hc : (∃ f args, w.config.control = .call f args k) ∨
      ∃ result, w.config.control = .deliver result k) : w.Quiet d := by
  constructor
  · rw [callsBack?]
    rcases hc with ⟨f, args, hc⟩ | ⟨result, hc⟩ <;> rw [hc]
    exact if_neg hk
  · rw [comesBack?]
    rcases hc with ⟨f, args, hc⟩ | ⟨result, hc⟩ <;> rw [hc]
    exact if_neg hk

/-- No caller settles the promise. -/
theorem quiet_of_count (h : w.config.control.callers.countP (·.capability? = some d) = 0) :
    w.Quiet d := by
  have hnone : ∀ k : Caller H, k.callers = w.config.control.callers → k.finalizes? ≠ some d := by
    intro k hk hd
    obtain ⟨v, kind, drain, rfl⟩ := Caller.finalizes_iff.1 hd
    exact (Caller.countP_finalizer v kind d drain).ne' (hk ▸ h)
  constructor
  · rw [Option.eq_none_iff_forall_ne_some]
    rintro x hx
    obtain ⟨k, hc, hk⟩ := callsBack_iff.1 hx
    exact hnone k (by rw [hc]; rfl) hk
  · rw [Option.eq_none_iff_forall_ne_some]
    rintro x hx
    obtain ⟨result, k, hc, hk, -⟩ := comesBack_iff.1 hx
    exact hnone k (by rw [hc]; rfl) hk

end World

/-! ## Stages -/

/-- What a `finally` has set up. -/
structure Finalizer where
  input : PromiseRef
  result : PromiseRef
  callback : FunctionRef
  onFulfilled : FunctionRef
  onRejected : FunctionRef

namespace Finalizer

def registration (x : Finalizer) : Registration :=
  ⟨some x.onFulfilled, some x.onRejected, some x.result⟩

/-- The function for a way of settling. -/
def handler (x : Finalizer) : Settling → FunctionRef
  | .fulfill => x.onFulfilled
  | .reject => x.onRejected

theorem registration_handler (x : Finalizer) (kind : Settling) :
    x.registration.handler kind = some (x.handler kind) := by
  cases kind <;> rfl

end Finalizer

/-- The functions of the `finally` call its callback. -/
def World.Equipped (w : World H) (x : Finalizer) : Prop :=
  ∀ kind, w.Provides (x.handler kind) (.afterwards x.callback kind)

/-- The callback has not been called yet. -/
inductive World.Upcoming (w : World H) (es : List (Event H)) (x : Finalizer) : Prop where
  | attached : w.Attached es x.input x.registration x.result → Upcoming w es x
  | calling {kind : Settling} {v : Value} {drain : Drain H} :
      (w.config.engine.promise x.input).state = kind.state v → w.Derived es x.result →
      w.config.control = .call (x.handler kind) [v] (.reaction (some x.result) drain) →
      Upcoming w es x
  | callingBack {kind : Settling} {v : Value} {drain : Drain H} :
      (w.config.engine.promise x.input).state = kind.state v → w.Derived es x.result →
      w.config.control = .call x.callback []
        (.finalizer v kind (.reaction (some x.result) drain)) → Upcoming w es x

/-- The callback has been called, and nothing has come back yet. -/
structure World.Underway (w : World H) (es : List (Event H)) (x : Finalizer) (kind : Settling)
    (v : Value) (drain : Drain H) : Prop where
  settled : (w.config.engine.promise x.input).state = kind.state v
  derived : w.Derived es x.result
  waits : (Caller.finalizer v kind (.reaction (some x.result) drain)).callers <:+
    w.config.control.callers
  uncalled : w.callsBack? x.result = none

/-- There is no place left from which the promise can be settled. -/
structure World.Redeemed (w : World H) (es : List (Event H)) (c : PromiseRef) : Prop where
  allocated : c.index < w.config.engine.promises.size
  resolved : (w.config.engine.promise c).resolved = true
  carriers : (w.ledger (requestsIn es)).carriers c = 0

/-- What becomes of the promise with the result of the callback. -/
inductive World.ComesTo (w : World H) (es : List (Event H)) (x : Finalizer) :
    Settling × Value → Prop where
  | failing {failure : Failure} {drain : Drain H} : w.Derived es x.result →
      w.config.control = .deliver (.error failure) (.reaction (some x.result) drain) →
      ComesTo w es x (w.config.engine.upshot (.error failure))
  | returning {returned : Value} {c : PromiseRef} {drain : Drain H} : w.Derived es x.result →
      x.result ≠ c →
      w.config.control = .deliver (.ok (.promise c)) (.reaction (some x.result) drain) →
      w.Restores es x.input returned c → ComesTo w es x (.fulfill, returned)
  | failed {reason : Value} : w.Redeemed es x.result →
      w.config.engine.Resolves x.result .reject reason → ComesTo w es x (.reject, reason)
  | returned {returned : Value} {c : PromiseRef} : w.Redeemed es x.result →
      w.config.engine.Resolves x.result .fulfill (.promise c) →
      w.Restores es x.input returned c → ComesTo w es x (.fulfill, returned)

section Steps

variable {w w' : World H} {m : Move H} {es since : List (Event H)} {x : Finalizer} {c : PromiseRef}
  {kind : Settling} {v : Value} {drain : Drain H}

theorem Step.equipped (h : Step w m w') (hbacked : w.config.engine.Backed)
    (hx : w.Equipped x) : w'.Equipped x :=
  fun kind => h.provides hbacked (hx kind)

/-! ## Before the callback is called -/

/-- The callback of a `finally` begins to be called where its function is being called. -/
theorem Step.callsBack (h : Step w m w') {y : FunctionRef × List Value}
    (hy : w'.callsBack? c = some y) :
    ∃ g args drain, w.config.control = .call g args (.reaction (some c) drain) := by
  obtain ⟨k, hc, hk⟩ := World.callsBack_iff.1 hy
  obtain ⟨v, kind, drain, rfl⟩ := Caller.finalizes_iff.1 hk
  obtain ⟨g, args, hcall⟩ := h.finalizing hc
  exact ⟨g, args, drain, hcall⟩

/-- **A `finally` is in wait until its callback is called**, without arguments. -/
theorem Step.upcoming (h : Step w m w') (hm : m.Lossless) (hrun : Run es w) (hx : w.Equipped x)
    (hleft : Untouched (⟨w, m⟩ :: es) x.result) (hw : w.Upcoming es x) :
    w.Quiet x.result ∧ w'.Upcoming (⟨w, m⟩ :: es) x ∨
      w.callsBack? x.result = some (x.callback, []) ∧ w.comesBack? x.result = none ∧
        ∃ kind v drain, w'.Underway (⟨w, m⟩ :: es) x kind v drain := by
  have hent : ¬ Entrusted es x.result := hleft.tail.entrusts
  cases hw with
  | attached ha =>
    left
    refine ⟨World.quiet_of_count (ha.uncalled hent), ?_⟩
    rcases h.attached hm hrun ha hleft with ha' | hfired
    · exact .attached ha'
    · cases hfired with
      | @called kind v f drain hs hf hd hc =>
        obtain rfl : x.handler kind = f :=
          Option.some.inj ((x.registration_handler kind).symm.trans hf)
        exact .calling hs hd hc
      | @resolved kind v _ hnone =>
        rw [x.registration_handler] at hnone
        cases hnone
  | @calling kind v drain hs hd hc =>
    refine .inl ⟨World.quiet_of_caller (k := .reaction (some x.result) drain) nofun
      (.inl ⟨_, _, hc⟩), ?_⟩
    have hd' := h.derived hm hrun hd hleft (Config.not_redeems_of_call hc)
    have hw' := h.runs hc (hx kind).does
    exact .callingBack (h.keeps_state hrun.lawful hs) hd' (by rw [hw']; rfl)
  | @callingBack kind v drain hs hd hc =>
    refine .inr ⟨World.callsBack_iff.2 ⟨_, hc, rfl⟩, by rw [World.comesBack?, hc], kind, v, drain,
      h.keeps_state hrun.lawful hs, h.derived hm hrun hd hleft (Config.not_redeems_of_call hc),
      ?_, ?_⟩
    · rcases h.keeps_caller (k := .finalizer v kind (.reaction (some x.result) drain))
        (by rintro rfl; cases h; cases hc) (by rw [hc]; exact List.suffix_rfl) with hk | ⟨result, hr⟩
      · exact hk
      · cases hc.symm.trans hr
    · rw [Option.eq_none_iff_forall_ne_some]
      intro y hy
      obtain ⟨g, args, drain', hcall⟩ := h.callsBack hy
      cases hc.symm.trans hcall

/-! ## While the callback is running -/

namespace World.Underway

variable (hw : w.Underway es x kind v drain) (hent : ¬ Entrusted es x.result)
include hw hent

/-- The caller that settles the promise waits for the callback, and there is no other one. -/
theorem not_below {k : Caller H} (hk : k.callers <:+ w.config.control.callers)
    (hcap : k.capability? = some x.result) :
    ¬ (Caller.finalizer v kind (.reaction (some x.result) drain)).callers <:+ k.callers := by
  intro hsuffix
  have hplaces := hw.derived.places hent
  have hle := hk.sublist.countP_le (p := fun k => decide (k.capability? = some x.result))
  rw [k.callers_eq, List.suffix_cons_iff] at hsuffix
  rw [k.callers_eq, List.countP_cons, if_pos (decide_eq_true hcap)] at hle
  rcases hsuffix with htop | hsuffix
  · obtain rfl := (List.cons.inj htop).1
    cases hcap
  · have hone := hsuffix.sublist.countP_le (p := fun k => decide (k.capability? = some x.result))
    have hpos := Caller.countP_finalizer v kind x.result drain
    omega

theorem not_redeems : ¬ w.config.Redeems x.result := by
  intro hred
  cases hred with
  | @result result drain' hc =>
    refine hw.not_below hent (k := .reaction (some x.result) drain') ?_ rfl ?_
    · rw [hc]
      exact List.suffix_rfl
    · have hwaits := hw.waits
      rwa [hc] at hwaits
  | @job d d' id j jobs hc hpop ht hp =>
    have hplaces := hw.derived.places hent
    have hjob := World.jobCapabilityCount_pos (World.mem_jobs_of_pop hpop)
      (Job.capability_of_target hp)
    have hle := hw.waits.sublist.countP_le (p := fun k => decide (k.capability? = some x.result))
    have hpos := Caller.countP_finalizer v kind x.result drain
    omega

/-- What comes back comes back from the callback. -/
theorem comesBack {y : Settling × Value} (hy : w.comesBack? x.result = some y) :
    ∃ result, w.config.control =
      .deliver result (.finalizer v kind (.reaction (some x.result) drain)) ∧
      w.config.engine.upshot result = y := by
  obtain ⟨result, k, hc, hk, hy⟩ := World.comesBack_iff.1 hy
  obtain ⟨v', kind', drain', rfl⟩ := Caller.finalizes_iff.1 hk
  have hwaits := hw.waits
  rw [hc, Control.callers, Caller.callers_eq (.finalizer v' kind' _), List.suffix_cons_iff] at hwaits
  rcases hwaits with htop | hsuffix
  · rw [Caller.callers_eq] at htop
    rw [(List.cons.inj htop).1]
    exact ⟨result, hc, hy⟩
  · refine absurd hsuffix (hw.not_below hent (k := .reaction (some x.result) drain') ?_ rfl)
    rw [hc]
    exact List.suffix_cons _ _

end World.Underway

/-- **A callback is under way until it comes back.** Then it has failed, or a promise has been
made that restores the settlement. -/
theorem Step.underway (h : Step w m w') (hm : m.Lossless) (hrun : Run es w)
    (hleft : Untouched (⟨w, m⟩ :: es) x.result) (hw : w.Underway es x kind v drain) :
    w.callsBack? x.result = none ∧
      (w.comesBack? x.result = none ∧ w'.Underway (⟨w, m⟩ :: es) x kind v drain ∨
        ∃ y, w.comesBack? x.result = some y ∧ w'.ComesTo (⟨w, m⟩ :: es) x y) := by
  have hent : ¬ Entrusted es x.result := hleft.tail.entrusts
  have hd' := h.derived hm hrun hw.derived hleft (hw.not_redeems hent)
  refine ⟨hw.uncalled, ?_⟩
  cases hy : w.comesBack? x.result with
  | none =>
    refine .inl ⟨rfl, h.keeps_state hrun.lawful hw.settled, hd', ?_, ?_⟩
    · rcases h.keeps_caller hm.abandon hw.waits with hk | ⟨result, hc⟩
      · exact hk
      · cases hy.symm.trans (World.comesBack_iff.2 ⟨result, _, hc, rfl, rfl⟩)
    · rw [Option.eq_none_iff_forall_ne_some]
      intro y hy
      obtain ⟨g, args, drain', hc⟩ := h.callsBack hy
      have hwaits := hw.waits
      rw [hc] at hwaits
      exact hw.not_below hent (by rw [hc]; exact List.suffix_rfl) rfl hwaits
  | some y =>
    right
    obtain ⟨result, hc, rfl⟩ := hw.comesBack hent hy
    refine ⟨_, rfl, ?_⟩
    cases result with
    | ok returned =>
      obtain ⟨c, hnew, hc', hr⟩ := h.returned hrun hc hw.settled
      refine .returning hd' ?_ hc' hr
      rintro rfl
      exact Nat.not_lt_of_le hnew hw.derived.allocated
    | error failure =>
      obtain ⟨-, rfl⟩ := h.eq_tick (by rw [Config.atHost, hc])
      have htick : w.config.tick = ⟨w.config.engine,
          .deliver (.error failure) (.reaction (some x.result) drain)⟩ := by
        obtain ⟨⟨e, control⟩, held⟩ := w
        cases hc
        rfl
      have hengine : w.config.engine = (World.mk w.config.tick w.held).config.engine := by
        rw [htick]
      rw [hengine]
      exact .failing hd' (by rw [htick])

/-! ## After the callback -/

/-- **The result of a handler leaves no place** for the promise that it settles. -/
theorem Step.leaves_redeemed (h : Step w m w') (hrun : Run es w) (hw : w.Derived es c)
    (hent : ¬ Entrusted es c) {result : Except Failure Value}
    (hc : w.config.control = .deliver result (.reaction (some c) drain)) :
    w'.Redeemed (⟨w, m⟩ :: es) c := by
  have hl := (Run.exclusive hrun).lawful
  have hplaces := hw.places hent
  obtain ⟨rfl, hres⟩ := h.redeemed hrun hw hc
  refine ⟨hw.allocated.trans_le (h.grows (Run.backed hrun)).promises,
    hres.resolved (Run.sane (hrun.step h)), ?_⟩
  rw [hc, Control.count_callers] at hplaces
  have hstack : (Control.deliver result (.reaction (some c) drain)).duties.count (.result c) =
      drain.duties.count (.result c) + 1 := List.count_cons_self
  have hsettle := Ledger.carriers_settleCapability (c := c)
    (l := { w.ledger (requestsIn (⟨w, m⟩ :: es)) with stack := drain.duties })
    (hl.sound.paired.even c) (some c) result
  refine hsettle.trans ?_
  show w.config.engine.carriers c + jobCapabilityCount c w.jobs + drain.duties.count (.result c) = 0
  omega

/-- A promise without a place stays without one. -/
theorem Step.keeps_redeemed (h : Step w m w') (hm : m.clears = false) (hrun : Run es w)
    (hent : c ∉ m.entrusts) (hw : w.Redeemed es c) : w'.Redeemed (⟨w, m⟩ :: es) c where
  allocated := hw.allocated.trans_le (h.grows (Run.backed hrun)).promises
  resolved := (h.grows (Run.backed hrun)).resolved c hw.resolved
  carriers := by
    have hle := h.carriers hm hrun hw.allocated hent fun hr => by
      rw [hw.resolved] at hr
      cases hr
    rw [hw.carriers] at hle
    exact Nat.le_zero.1 hle

theorem World.Redeemed.quiet (hw : w.Redeemed es c) : w.Quiet c := by
  have hcarriers := hw.carriers
  refine World.quiet_of_count ?_
  rw [Control.count_callers]
  rw [Ledger.carriers] at hcarriers
  exact (Nat.add_eq_zero_iff.1 hcarriers).2

/-- **What the callback has come to decides about the promise**, and it is not called again. -/
theorem Step.comes_to (h : Step w m w') (hm : m.Lossless) (hrun : Run es w)
    (hleft : Untouched (⟨w, m⟩ :: es) x.result)
    (hfollowed : ∀ q, (w.config.engine.promise x.result).following = some q ∨
      (w'.config.engine.promise x.result).following = some q → Untouched (⟨w, m⟩ :: es) q)
    {y : Settling × Value} (hw : w.ComesTo es x y) :
    w.Quiet x.result ∧ w'.ComesTo (⟨w, m⟩ :: es) x y := by
  have hent : ¬ Entrusted es x.result := hleft.tail.entrusts
  have hquiet : ∀ {result drain},
      w.config.control = .deliver result (.reaction (some x.result) drain) → w.Quiet x.result :=
    fun {_ drain} hc =>
      World.quiet_of_caller (k := .reaction (some x.result) drain) nofun (.inr ⟨_, hc⟩)
  cases hw with
  | failing hd hc =>
    obtain ⟨-, hres⟩ := h.redeemed hrun hd hc
    exact ⟨hquiet hc, .failed (h.leaves_redeemed hrun hd hent hc) hres⟩
  | @returning returned c drain hd hne hc hr =>
    have hres : w'.config.engine.Resolves x.result .fulfill (.promise c) :=
      (h.redeemed hrun hd hc).2
    -- the promise that restores the settlement follows none
    have htied : (w.config.engine.promise c).resolved = false →
        (w'.config.engine.promise x.result).Tied c := by
      intro hr
      obtain ⟨rfl, -⟩ := h.redeemed hrun hd hc
      refine Engine.tied_resolve hrun.grounded (hrun.sane _) hd.unresolved fun hback => ?_
      have hnone := (hrun.sane c).undecided ((hrun.sane c).pending hr) hr
      rcases Relation.ReflTransGen.cases_head hback with heq | ⟨t, hct, -⟩
      · exact hne heq.symm
      · cases hnone.symm.trans hct
    exact ⟨hquiet hc, .returned (h.leaves_redeemed hrun hd hent hc) hres
      (h.restores hm hrun hr fun hc => hfollowed c (.inr (htied hc).following))⟩
  | failed hd hres =>
    exact ⟨hd.quiet, .failed (h.keeps_redeemed hm.clears hrun
      (fun hc => hleft.entrusts ⟨_, List.mem_cons_self, hc⟩) hd) (h.resolves hrun hres)⟩
  | @returned returned c hd hres hr =>
    exact ⟨hd.quiet, .returned (h.keeps_redeemed hm.clears hrun
      (fun hc => hleft.entrusts ⟨_, List.mem_cons_self, hc⟩) hd) (h.resolves hrun hres)
      (h.restores hm hrun hr fun hc =>
        hfollowed c (.inl (hres.tied_of_open (hrun.sane c) hc).following))⟩

/-! ## The whole course -/

/-- The course of a `finally`: its callback is to be called, or it has been called and is under
way, or it has come to a result. -/
inductive World.Finalizes (w : World H) (es since : List (Event H)) (x : Finalizer) : Prop where
  | upcoming : w.Upcoming es x → callsFor x.result since = [] → resultsFor x.result since = [] →
      Finalizes w es since x
  | underway {kind : Settling} {v : Value} {drain : Drain H} : w.Underway es x kind v drain →
      callsFor x.result since = [(x.callback, [])] → resultsFor x.result since = [] →
      Finalizes w es since x
  | comesTo {kind : Settling} {v : Value} {y : Settling × Value} :
      (w.config.engine.promise x.input).state = kind.state v → w.ComesTo es x y →
      callsFor x.result since = [(x.callback, [])] → resultsFor x.result since = [y] →
      Finalizes w es since x

theorem Step.finalizes (h : Step w m w') (hm : m.Lossless) (hrun : Run es w) (hx : w.Equipped x)
    (hleft : Untouched (⟨w, m⟩ :: es) x.result)
    (hfollowed : ∀ q, (w.config.engine.promise x.result).following = some q ∨
      (w'.config.engine.promise x.result).following = some q → Untouched (⟨w, m⟩ :: es) q)
    (hw : w.Finalizes es since x) : w'.Finalizes (⟨w, m⟩ :: es) (⟨w, m⟩ :: since) x := by
  have hnone : w.callsBack? x.result = none →
      callsFor x.result (⟨w, m⟩ :: since) = callsFor x.result since :=
    fun hc => List.filterMap_cons_none hc
  have hsome : ∀ {y}, w.callsBack? x.result = some y →
      callsFor x.result (⟨w, m⟩ :: since) = y :: callsFor x.result since :=
    fun hc => List.filterMap_cons_some hc
  have hnone' : w.comesBack? x.result = none →
      resultsFor x.result (⟨w, m⟩ :: since) = resultsFor x.result since :=
    fun hc => List.filterMap_cons_none hc
  have hsome' : ∀ {y}, w.comesBack? x.result = some y →
      resultsFor x.result (⟨w, m⟩ :: since) = y :: resultsFor x.result since :=
    fun hc => List.filterMap_cons_some hc
  cases hw with
  | upcoming hw hcalls hresults =>
    rcases h.upcoming hm hrun hx hleft hw with ⟨hquiet, hw'⟩ | ⟨hcall, hback, kind, v, drain, hw'⟩
    · exact .upcoming hw' ((hnone hquiet.call).trans hcalls) ((hnone' hquiet.result).trans hresults)
    · exact .underway hw' ((hsome hcall).trans (congrArg _ hcalls)) ((hnone' hback).trans hresults)
  | underway hw hcalls hresults =>
    obtain ⟨hcall, ⟨hback, hw'⟩ | ⟨y, hback, hw'⟩⟩ := h.underway hm hrun hleft hw
    · exact .underway hw' ((hnone hcall).trans hcalls) ((hnone' hback).trans hresults)
    · exact .comesTo (h.keeps_state hrun.lawful hw.settled) hw' ((hnone hcall).trans hcalls)
        ((hsome' hback).trans (congrArg _ hresults))
  | comesTo hs hw hcalls hresults =>
    obtain ⟨hquiet, hw'⟩ := h.comes_to hm hrun hleft hfollowed hw
    exact .comesTo (h.keeps_state hrun.lawful hs) hw' ((hnone hquiet.call).trans hcalls)
      ((hnone' hquiet.result).trans hresults)

/-- The promise has followed the other one at some time. -/
def World.HasFollowed (w : World H) (since : List (Event H)) (d q : PromiseRef) : Prop :=
  (w.config.engine.promise d).following = some q ∨
    ∃ ev ∈ since, (ev.before.config.engine.promise d).following = some q

/-- **A `finally` takes its course**, if the host leaves the promises alone that its promise
follows. -/
theorem Steps.finalizes (h : Steps w since w') (hrun : Run es w)
    (hes : ∀ ev ∈ since, ev.move.Lossless) (hleft : Untouched (since ++ es) x.result)
    (hfollowed : ∀ q, w'.HasFollowed since x.result q → Untouched (since ++ es) q)
    (hx : w.Equipped x) (hw : w.Upcoming es x) :
    w'.Equipped x ∧ w'.Finalizes (since ++ es) since x := by
  induction h with
  | refl => exact ⟨hx, .upcoming hw rfl rfl⟩
  | @step since w₁ w' m h hs ih =>
    obtain ⟨hm, hes⟩ := List.forall_mem_cons.1 hes
    have hrun₁ : Run (since ++ es) w₁ := hrun.trans h
    obtain ⟨hx₁, hw₁⟩ := ih hes hleft.tail fun q hq => by
      refine (hfollowed q (.inr ?_)).tail
      rcases hq with hq | ⟨ev, hev, hq⟩
      · exact ⟨_, List.mem_cons_self, hq⟩
      · exact ⟨ev, List.mem_cons_of_mem _ hev, hq⟩
    refine ⟨hs.equipped (Run.backed hrun₁) hx₁,
      hs.finalizes hm hrun₁ hx₁ hleft (fun q hq => hfollowed q ?_) hw₁⟩
    exact hq.symm.imp id fun hq => ⟨_, List.mem_cons_self, hq⟩

end Steps

end Microtask
