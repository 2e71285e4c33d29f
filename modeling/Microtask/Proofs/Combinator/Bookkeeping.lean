import Microtask.Proofs.Combinator.Outcomes

/-!
# The bookkeeping of a collection

A collection counts the reports to come, marks the elements that have reported, and keeps their
values until the count is zero, when it hands them out. A `Countdown` is that bookkeeping with
its faults: there is none to count below zero, and none to write a value out of range. An element
is marked before it is counted, so as many reports are to come as elements are not marked
(`Countdown.Sound`), and no report of an element comes to a fault (`Countdown.Sound.report`).

The tally of a collection shows what a countdown comes to by the reports that have been made to
it so far (`Steps.books`): a step counts the report that is made by it, if any (`Step.counts`),
and the set-up counts its own report after those of all elements (`Combining.set_up`).

Main statement: `Combining.bookkeeping`.
-/

namespace Microtask

variable {H : Type}

/-! ## Countdowns -/

/-- The bookkeeping of a collection. -/
structure Countdown where
  /-- The reports to come. -/
  remaining : Nat
  /-- Which elements have reported. -/
  called : List Bool
  values : List Value
  /-- The indices at which a value has been written, the latest one first. -/
  written : List Nat
  /-- The vectors of values that have been handed out. -/
  released : List (List Value)
  deriving DecidableEq

namespace Countdown

/-- Before the first element is in. The set-up counts as one report. -/
def start (n : Nat) : Countdown := ⟨1, .replicate n false, .replicate n .undefined, [], []⟩

/-- One more element is in. -/
def enrol (s : Countdown) : Countdown := { s with remaining := s.remaining + 1 }

/-- After the first `k` of `n` elements. -/
def enrolled (n : Nat) : Nat → Countdown
  | 0 => start n
  | k + 1 => (enrolled n k).enrol

/-- Count one report. With the last one the values are handed out. -/
def elementDone? (s : Countdown) : Option Countdown :=
  match s.remaining with
  | 0 => none
  | 1 => some { s with remaining := 0, values := [], released := s.values :: s.released }
  | n + 2 => some { s with remaining := n + 1 }

/-- Write the value of an element. -/
def write? (s : Countdown) (i : Nat) (v : Value) : Option Countdown :=
  if i < s.values.length then
    some { s with values := s.values.set i v, written := i :: s.written }
  else none

/-- An element reports. Only its first report counts. -/
def report? (s : Countdown) (i : Nat) (v : Value) : Option Countdown :=
  if s.called[i]? = some true then some s
  else ({ s with called := s.called.set i true }.write? i v).bind elementDone?

/-- The set-up of `n` elements, and the reports after it, the latest one first. -/
def replay? (n : Nat) : List (Nat × Value) → Option Countdown
  | [] => (enrolled n n).elementDone?
  | (i, v) :: rs => (replay? n rs).bind (·.report? i v)

/-! ## Soundness -/

/-- As many reports are to come as elements have not reported, the values are there as long as
reports are to come, and one has been written for each element that has reported. -/
structure Sound (n : Nat) (s : Countdown) : Prop where
  called : s.called.length = n
  remaining : s.remaining = s.called.count false
  values : s.values.length = if s.remaining = 0 then 0 else n
  nodup : s.written.Nodup
  mem_written : ∀ i, i ∈ s.written ↔ s.called[i]? = some true
  released : s.released.length = if s.remaining = 0 then 1 else 0

theorem enrolled_eq (n k : Nat) : enrolled n k = { start n with remaining := k + 1 } := by
  induction k with
  | zero => rfl
  | succ k ih => rw [enrolled, ih, enrol]

variable {n i : Nat} {s s' : Countdown}

/-- Counting a report comes to no fault as long as one is to come. -/
theorem elementDone_eq (h : 0 < s.remaining) :
    s.elementDone? = some { s with
      remaining := s.remaining - 1
      values := if s.remaining = 1 then [] else s.values
      released := if s.remaining = 1 then s.values :: s.released else s.released } := by
  unfold elementDone?
  split
  · omega
  · next hone => simp [hone]
  · next k hk => simp [hk]

/-- **The set-up is sound.** -/
theorem sound_start (n : Nat) : ∃ s, (enrolled n n).elementDone? = some s ∧ s.Sound n ∧
    s.called = .replicate n false := by
  rw [enrolled_eq, elementDone_eq (Nat.succ_pos n)]
  refine ⟨_, rfl, ⟨List.length_replicate, ?_, ?_, List.nodup_nil, fun i => ?_, ?_⟩, rfl⟩
  · exact (List.count_replicate_self ..).symm
  · cases n <;> simp [start]
  · simp [start, List.getElem?_replicate]
  · cases n <;> simp [start]

/-- After the first report of an element, before it is counted. -/
def filled (s : Countdown) (i : Nat) (v : Value) : Countdown :=
  { s with
    called := s.called.set i true
    values := s.values.set i v
    written := i :: s.written }

/-- A report after the first one does not count. -/
theorem report_again (hi : s.called[i]? = some true) (v : Value) : s.report? i v = some s :=
  if_pos hi

namespace Sound

variable (h : s.Sound n)
include h

/-- An element that has not reported is among those to come. -/
theorem remaining_pos (hi : s.called[i]? = some false) : 0 < s.remaining := by
  rw [h.remaining]
  exact List.count_pos_iff.2 (List.mem_of_getElem? hi)

/-- All values are there as long as an element has not reported. -/
theorem length_values (hi : s.called[i]? = some false) : s.values.length = n := by
  rw [h.values, if_neg (h.remaining_pos hi).ne']

/-- The first report of an element writes its value in range. -/
theorem report_first (hi : s.called[i]? = some false) (v : Value) :
    s.report? i v = (s.filled i v).elementDone? := by
  have hlt : i < s.values.length := by
    rw [h.length_values hi, ← h.called]
    exact (List.getElem?_eq_some_iff.1 hi).1
  rw [report?, if_neg (by rw [hi]; nofun), write?, if_pos hlt]
  rfl

/-- Then it is counted, without a fault either. -/
theorem elementDone_filled (hi : s.called[i]? = some false) (v : Value) :
    ∃ s', (s.filled i v).elementDone? = some s' ∧ s'.Sound n ∧
      s'.called = s.called.set i true := by
  obtain ⟨hlt, hmark⟩ := List.getElem?_eq_some_iff.1 hi
  have hpos := h.remaining_pos hi
  have hreleased : s.released.length = 0 := by rw [h.released, if_neg hpos.ne']
  have hzero : s.remaining = 1 ↔ s.remaining - 1 = 0 := by omega
  refine ⟨_, elementDone_eq (s := s.filled i v) hpos, ?_, rfl⟩
  constructor
  case called => exact List.length_set.trans h.called
  case remaining =>
    show s.remaining - 1 = (s.called.set i true).count false
    rw [List.count_set hlt, hmark, h.remaining]
    rfl
  case values =>
    show (if s.remaining = 1 then [] else s.values.set i v).length = _
    rw [apply_ite List.length, List.length_set, h.length_values hi]
    exact if_congr hzero rfl rfl
  case nodup =>
    refine List.nodup_cons.2 ⟨fun hmem => ?_, h.nodup⟩
    cases hi.symm.trans ((h.mem_written i).1 hmem)
  case mem_written =>
    intro j
    show j ∈ i :: s.written ↔ (s.called.set i true)[j]? = some true
    rw [List.mem_cons, h.mem_written, List.getElem?_set]
    by_cases hj : i = j
    · simp [hj, hj ▸ hlt]
    · simp [hj, Ne.symm hj]
  case released =>
    show (if s.remaining = 1 then s.values.set i v :: s.released else s.released).length = _
    rw [apply_ite List.length, List.length_cons, hreleased]
    exact if_congr hzero rfl rfl

/-- **A report is sound.** No fault comes about, and the element is marked. -/
theorem report (hi : i < n) (v : Value) :
    ∃ s', s.report? i v = some s' ∧ s'.Sound n ∧ s'.called = s.called.set i true := by
  have hlt : i < s.called.length := h.called ▸ hi
  cases hmark : s.called[i] with
  | true =>
    refine ⟨s, report_again (List.getElem?_eq_some_iff.2 ⟨hlt, hmark⟩) v, h, ?_⟩
    rw [← hmark, List.set_getElem_self]
  | false =>
    have hfirst : s.called[i]? = some false := List.getElem?_eq_some_iff.2 ⟨hlt, hmark⟩
    rw [h.report_first hfirst v]
    exact h.elementDone_filled hfirst v

end Sound

/-- **No run of reports comes to a fault**, and exactly the elements are marked that have
reported. -/
theorem replay_sound {rs : List (Nat × Value)} (hrs : ∀ x ∈ rs, x.1 < n) :
    ∃ s, replay? n rs = some s ∧ s.Sound n ∧
      s.called = (List.range n).map fun i => decide (i ∈ rs.map (·.1)) := by
  induction rs with
  | nil =>
    obtain ⟨s, hs, hsound, hcalled⟩ := sound_start n
    refine ⟨s, hs, hsound, hcalled.trans ?_⟩
    simp
  | cons x rs ih =>
    obtain ⟨hx, hrs⟩ := List.forall_mem_cons.1 hrs
    obtain ⟨s, hs, hsound, hcalled⟩ := ih hrs
    obtain ⟨s', hs', hsound', hcalled'⟩ := hsound.report hx x.2
    refine ⟨s', by rw [replay?, hs]; exact hs', hsound', ?_⟩
    rw [hcalled', hcalled]
    refine List.ext_getElem? fun j => ?_
    simp only [List.getElem?_set, List.getElem?_map, List.length_map, List.length_range,
      List.map_cons, List.mem_cons]
    by_cases hj : x.1 = j
    · simp [hj, hj ▸ hx]
    · by_cases hlt : j < n
      · simp [hj, Ne.symm hj, hlt]
      · simp [hj, hlt]

/-- As many reports are to come as elements have not reported. -/
theorem Sound.remaining_eq (h : s.Sound n) {is : List Nat}
    (hcalled : s.called = (List.range n).map fun i => decide (i ∈ is)) :
    s.remaining = (List.range n).countP (· ∉ is) := by
  rw [h.remaining, hcalled, List.count_eq_countP, List.countP_map]
  refine List.countP_congr fun i _ => ?_
  simp

end Countdown

/-! ## Tallies -/

/-- An element reports with the content of its slot. -/
def Tally.report (r : Tally) (i : Nat) (v : Value) : Tally :=
  if r.isOpen i then (r.fill i v).countDown else r

namespace Countdown

/-- The countdown is that of the tally. -/
structure Describes (s : Countdown) (r : Tally) : Prop where
  remaining : s.remaining = r.outstanding
  called : s.called = r.slots.map Option.isSome
  values : s.values = if s.remaining = 0 then [] else r.values
  released : s.released = if s.remaining = 0 then [r.values] else []

variable {n i k : Nat} {s s' : Countdown} {r : Tally}

/-- A tally of empty slots, as long as elements are added to it. -/
theorem describes_enrolled (hslots : r.slots = List.replicate n none)
    (hcount : r.outstanding = k + 1) : (enrolled n k).Describes r := by
  have hvalues : r.values = List.replicate n .undefined := by
    rw [Tally.values, hslots, List.map_replicate]
    rfl
  rw [enrolled_eq]
  constructor
  case remaining => exact hcount.symm
  case called =>
    rw [hslots, List.map_replicate]
    rfl
  case values => exact hvalues.symm
  case released => rfl

theorem Describes.elementDone (h : s.Describes r) (hpos : 0 < s.remaining) :
    ∃ s', s.elementDone? = some s' ∧ s'.Describes r.countDown := by
  have hreleased : s.released = [] := by rw [h.released, if_neg hpos.ne']
  have hvalues : s.values = r.values := by rw [h.values, if_neg hpos.ne']
  have hzero : s.remaining = 1 ↔ s.remaining - 1 = 0 := by omega
  refine ⟨_, elementDone_eq hpos, ⟨?_, h.called, ?_, ?_⟩⟩
  · exact congrArg (· - 1) h.remaining
  · exact (if_congr hzero rfl hvalues)
  · rw [hreleased, hvalues]
    exact if_congr hzero rfl rfl

theorem Describes.filled (h : s.Describes r) (hpos : 0 < s.remaining) (i : Nat) (v : Value) :
    (s.filled i v).Describes (r.fill i v) := by
  have hvalues : s.values = r.values := by rw [h.values, if_neg hpos.ne']
  have hfill : (r.fill i v).values = r.values.set i v := List.map_set ..
  constructor
  case remaining => exact h.remaining
  case called =>
    show s.called.set i true = (r.slots.set i (some v)).map Option.isSome
    rw [h.called, List.map_set]
    rfl
  case values =>
    show s.values.set i v = if s.remaining = 0 then _ else _
    rw [if_neg hpos.ne', hfill, hvalues]
  case released =>
    show s.released = if s.remaining = 0 then _ else _
    rw [h.released, if_neg hpos.ne', if_neg hpos.ne']

/-- **The countdown of a tally stays that of the tally** by a report. -/
theorem Describes.report (h : s.Describes r) (hsound : s.Sound n) (hi : i < n) (v : Value) :
    ∃ s', s.report? i v = some s' ∧ s'.Describes (r.report i v) := by
  have hlt : i < r.slots.length := by
    rw [← List.length_map (f := Option.isSome), ← h.called, hsound.called]
    exact hi
  have hcalled : s.called[i]? = some r.slots[i].isSome := by
    rw [h.called, List.getElem?_map, List.getElem?_eq_getElem hlt]
    rfl
  have hslot : r.slots[i]? = some r.slots[i] := List.getElem?_eq_getElem hlt
  cases hs : r.slots[i] with
  | none =>
    rw [hs] at hcalled hslot
    have hopen : r.isOpen i = true := (r.isOpen_iff i).2 hslot
    have hpos := hsound.remaining_pos hcalled
    rw [hsound.report_first hcalled v, Tally.report, if_pos hopen]
    exact (h.filled hpos i v).elementDone hpos
  | some content =>
    rw [hs] at hcalled hslot
    have hclosed : ¬ r.isOpen i = true := by
      rw [r.isOpen_iff, hslot]
      nofun
    rw [Tally.report, if_neg hclosed]
    exact ⟨s, report_again hcalled v, h⟩

end Countdown

/-! ## Reports -/

namespace Engine

variable {e : Engine H} {t : TallyRef}

/-- What goes into a slot depends on the objects only. -/
theorem slotContent_of_objects {e' : Engine H} (h : e'.objects = e.objects) (c : Collection)
    (kind : Settling) (v : Value) : (e'.slotContent c kind v).1 = (e.slotContent c kind v).1 := by
  cases c <;> cases kind <;> simp only [slotContent, newObject, h]

end Engine

namespace World

/-- The report to a tally that is about to be made: the element and the content of its slot. -/
def report? (w : World H) (t : TallyRef) : Option (Nat × Value) :=
  match w.config.control with
  | .call f args _ =>
    let e := w.config.engine
    match (e.callable f).usage, (e.callable f).code with
    | .spent, _ => none
    | _, .report u i kind =>
      if u = t then some (i, (e.slotContent (e.tally t).collection kind (Value.argument args 0)).1)
      else none
    | _, _ => none
  | _ => none

end World

/-- The reports to a tally in the course of some events, the latest one first. -/
def reportsTo (t : TallyRef) (es : List (Event H)) : List (Nat × Value) :=
  es.filterMap (·.before.report? t)

section Steps

variable {w w' : World H} {m : Move H} {es : List (Event H)} {t : TallyRef}
  {c : Collection} {xs : List Listener}

theorem World.report?_of_not_mem (h : t ∉ w.config.control.tally? w.config.engine) :
    w.report? t = none := by
  unfold World.report?
  split
  · next f args k hc =>
    rw [hc] at h
    dsimp only
    split
    · rfl
    · next u i kind hcode hu =>
      rw [if_neg]
      rintro rfl
      exact h (congrArg Code.tally? hcode)
    · rfl
  · rfl

/-- The call of a function that reports makes a report, unless the function is spent. -/
theorem World.report?_of_call {f : FunctionRef} {args : List Value} {k : Caller H}
    (hc : w.config.control = .call f args k) {i : Nat} {kind : Settling}
    (hcode : (w.config.engine.callable f).code = .report t i kind) :
    w.report? t = if (w.config.engine.callable f).usage = .spent then none
      else some (i, (w.config.engine.slotContent (w.config.engine.tally t).collection kind
        (Value.argument args 0)).1) := by
  simp only [World.report?, hc]
  cases (w.config.engine.callable f).usage <;> simp [hcode]

/-- **A step counts the report that is made**, and nothing else. -/
theorem Step.counts (h : Step w m w') (hbacked : w.config.engine.Backed)
    (hw : w.config.engine.Reporters t c xs) :
    w'.config.engine.tally t = (w.report? t).elim (w.config.engine.tally t)
        (fun x => (w.config.engine.tally t).report x.1 x.2) ∧
      ∀ x ∈ w.report? t, x.1 < xs.length := by
  by_cases hcall : t ∈ w.config.control.tally? w.config.engine
  · obtain ⟨f, args, k, i, kind, hcontrol, hcode⟩ := Control.call_of_mem_tally? hcall
    obtain rfl := h.reported hw hcontrol hcode
    rw [World.report?_of_call hcontrol hcode]
    cases hopen : (w.config.engine.tally t).isOpen i with
    | true =>
      have husage : (w.config.engine.callable f).usage ≠ .spent := by
        rw [hw.vacant f i kind hcode hopen]
        cases c <;> cases kind <;> nofun
      have hused := w.config.engine.tally_used f t
      have hobjects : (w.config.engine.used f).objects = w.config.engine.objects := by
        rw [w.config.engine.used_eq f]
      rw [if_neg husage, if_pos rfl]
      refine ⟨?_, fun x hx => ?_⟩
      · rw [Engine.tally_report (hused ▸ Tally.accepts_of_isOpen hopen), hused,
          Engine.slotContent_of_objects hobjects]
        exact (if_pos hopen).symm
      · cases hx
        exact hw.lt_length hcode
    | false =>
      rw [if_neg Bool.false_ne_true]
      split
      · exact ⟨rfl, nofun⟩
      · refine ⟨(if_neg (Bool.eq_false_iff.1 hopen)).symm, fun x hx => ?_⟩
        cases hx
        exact hw.lt_length hcode
  · rw [World.report?_of_not_mem hcall]
    exact ⟨h.tally hbacked hw.allocated hcall, nofun⟩

/-- What a tally and its functions keep to, by the reports that have been made since. -/
structure World.Books (w : World H) (t : TallyRef) (c : Collection) (xs : List Listener)
    (rs : List (Nat × Value)) : Prop where
  reporters : w.config.engine.Reporters t c xs
  reports : ∀ x ∈ rs, x.1 < xs.length
  counted : ∃ s, Countdown.replay? xs.length rs = some s ∧ s.Describes (w.config.engine.tally t)

/-- A step keeps the books. -/
theorem Step.books (h : Step w m w') (hrun : Run es w) {since : List (Event H)}
    (hw : w.Books t c xs (reportsTo t since)) :
    w'.Books t c xs (reportsTo t (⟨w, m⟩ :: since)) := by
  obtain ⟨htally, hindex⟩ := h.counts (Run.backed hrun) hw.reporters
  have hreporters := h.reporters (Run.backed hrun) hw.reporters
  obtain ⟨s, hs, hdescribes⟩ := hw.counted
  cases hr : w.report? t with
  | none =>
    have hsame : reportsTo t (⟨w, m⟩ :: since) = reportsTo t since := List.filterMap_cons_none hr
    rw [hr] at htally
    rw [hsame]
    exact ⟨hreporters, hw.reports, s, hs, htally ▸ hdescribes⟩
  | some x =>
    have hcons : reportsTo t (⟨w, m⟩ :: since) = x :: reportsTo t since :=
      List.filterMap_cons_some hr
    rw [hr] at htally
    have hx : x.1 < xs.length := hindex x hr
    obtain ⟨s₁, hs₁, hsound, -⟩ := Countdown.replay_sound hw.reports
    obtain rfl := Option.some.inj (hs.symm.trans hs₁)
    obtain ⟨s', hs', hdescribes'⟩ := hdescribes.report hsound hx x.2
    rw [hcons]
    refine ⟨hreporters, List.forall_mem_cons.2 ⟨hx, hw.reports⟩, s', ?_, htally ▸ hdescribes'⟩
    show (Countdown.replay? xs.length _).bind _ = _
    rw [hs]
    exact hs'

/-- So does a chain of steps. -/
theorem Steps.books {w₁ : World H} (hrun : Run es w₁) {since : List (Event H)}
    (h : Steps w₁ since w') (hw : w₁.Books t c xs []) : w'.Books t c xs (reportsTo t since) := by
  induction h with
  | refl => exact hw
  | step h hs ih => exact hs.books (hrun.trans h) ih

end Steps

/-! ## Collections -/

namespace Engine

variable {e : Engine H} {c : Collection} {items : List Value}

/-- The loop of the set-up keeps the books. -/
theorem describes_enrolling (hv : ∀ q, .promise q ∈ items → q.index < e.promises.size)
    (c : Collection) {k : Nat} (hk : k ≤ items.length) :
    (Countdown.enrolled items.length k).Describes
      ((e.enrolling c items k).tally ⟨e.tallies.size⟩) := by
  obtain ⟨xs, h⟩ := enrolls_enrolling hv c k
  rw [h.counted, List.length_take, Nat.min_eq_left hk]
  exact Countdown.describes_enrolled List.map_const' (Nat.add_comm 1 k)

end Engine

section Collecting

variable {w w₁ w' : World H} {m : Move H} {es since : List (Event H)} {c : Collection}
  {items : List Value}

/-- **The bookkeeping of a collection.** While its elements are being added, one report more is
to come than there are elements so far. From then on the tally shows what a countdown has come
to without a fault by the reports of its elements, whatever the host does: as many reports are
to come as elements have not reported, all values are there until the last one has, and they are
handed out once. -/
theorem Combining.bookkeeping (h : Combining es w m w₁ (.collection c) items) :
    let t : TallyRef := ⟨w.config.engine.tallies.size⟩
    let n := items.length
    (∀ k ≤ n, (Countdown.enrolled n k).remaining = k + 1 ∧
      (Countdown.enrolled n k).Describes ((w.config.engine.enrolling c items k).tally t)) ∧
    w₁.config.engine = (w.config.engine.enrolling c items n).countDown t ∧
    ∀ since w', Steps w₁ since w' → ∃ s, Countdown.replay? n (reportsTo t since) = some s ∧
      s.Describes (w'.config.engine.tally t) ∧ s.Sound n ∧
      s.remaining = (List.range n).countP (· ∉ (reportsTo t since).map (·.1)) := by
  intro t n
  have hloop : ∀ k ≤ n, (Countdown.enrolled n k).Describes
      ((w.config.engine.enrolling c items k).tally t) := fun k hk =>
    Engine.describes_enrolling h.exist c hk
  have hremaining : ∀ k, (Countdown.enrolled n k).remaining = k + 1 := fun k => by
    rw [Countdown.enrolled_eq]
  refine ⟨fun k hk => ⟨hremaining k, hloop k hk⟩, h.set_up, fun since w' hlater => ?_⟩
  obtain ⟨xs, henrolls⟩ := h.enrolls
  have hlen : xs.length = n := henrolls.represents.length_eq.symm
  have hstart : w₁.Books t c xs [] := by
    obtain ⟨s, hs, hdescribes⟩ := (hloop n le_rfl).elementDone (by rw [hremaining]; omega)
    refine ⟨h.reporters henrolls, List.forall_mem_nil _, s, hlen ▸ hs, ?_⟩
    rw [h.set_up, Engine.tally_countDown]
    exact hdescribes
  have hbooks := Steps.books h.run_set_up hlater hstart
  obtain ⟨s, hs, hdescribes⟩ := hbooks.counted
  obtain ⟨s', hs', hsound, hcalled⟩ := Countdown.replay_sound hbooks.reports
  obtain rfl := Option.some.inj (hs.symm.trans hs')
  rw [hlen] at hs hsound hcalled
  exact ⟨s, hs, hdescribes, hsound, hsound.remaining_eq hcalled⟩

/-- A promise that is given twice reports twice, after another value. -/
theorem Combining.bookkeeping_repeated :
    let items : List Value := [.promise ⟨0⟩, .null, .promise ⟨0⟩]
    let w : World Unit := ({} : World Unit).after [.perform .newPromise]
    let w₁ := w.after [.perform (.collect .all items)]
    let later := [.perform (.fulfill ⟨0⟩ (.boolean true)), .perform .runJobs] ++
      List.replicate 10 .tick
    reportsTo ⟨0⟩ (w₁.events later) = [(2, .boolean true), (0, .boolean true), (1, .null)] ∧
      ∃ s, Countdown.replay? 3 (reportsTo ⟨0⟩ (w₁.events later)) = some s ∧
        s.Describes ((w₁.after later).config.engine.tally ⟨0⟩) ∧ s.Sound 3 ∧ s.remaining = 0 := by
  intro items w w₁ later
  have h := Combining.of_play (.collection .all) items [.perform (.newPromise : Op Unit)]
    (by decide +kernel) (by decide +kernel) (by decide +kernel)
  have hreports : reportsTo ⟨0⟩ (w₁.events later) =
      [(2, .boolean true), (0, .boolean true), (1, .null)] := by decide +kernel
  have hplays : (w₁.play? later []).isSome = true := by decide +kernel
  obtain ⟨s, hs, hdescribes, hsound, hremaining⟩ :=
    (Combining.bookkeeping h).2.2 _ _ (World.steps_after hplays)
  have hcount : (List.range 3).countP (· ∉ (reportsTo ⟨0⟩ (w₁.events later)).map (·.1)) = 0 := by
    rw [hreports]
    decide
  exact ⟨hreports, s, hs, hdescribes, hsound, hremaining.trans hcount⟩

end Collecting

end Microtask
