import Microtask.Proofs.Trace.Serving
import Microtask.Trace.Run

/-!
# The transcript of the trace program

What the trace program prints without a limit on the number of jobs (`Options.transcript`). The
generator stops with the request that throws, with the one that returns, or when all values
have been yielded, whichever comes first (`Options.stop`). The requests before that get the
values, and those after it get undefined, whatever they ask for.

Whether the values are yielded as promises makes no difference, since a promise of a value
offers the value (`prepareValues_offers`). There may be as many requests as room can be asked
for; with more of them the program fails before the first (`runWith_overflow`).

Main statement: `runWith_transcript`, for any parser of command lines.
-/

namespace Microtask.Trace

/-! ## Closed forms -/

namespace Options

variable (o : Options)

/-- The number of requests. -/
def count : Nat := o.requests.getD (o.values.length + 1)

/-- The index of the request that stops the generator. -/
def stop : Nat :=
  min o.values.length (min (o.throwAt.getD o.values.length) (o.returnAt.getD o.values.length))

/-- What becomes of the request with the given index. -/
def answer (i : Nat) : Outcome :=
  if i < o.stop then .yielded (valueOf (o.values.getD i ""))
  else if i = o.stop ∧ o.throwAt = some i then .threw (.string "injected")
  else if i = o.stop ∧ o.returnAt = some i then .returned (.string "early")
  else .returned .undefined

/-- How the request with the given index is called. -/
def method (i : Nat) : String :=
  if o.throwAt = some i then "throw" else if o.returnAt = some i then "return" else "next"

/-- The generator stops with an exception that nobody handles. -/
def Throws : Prop := o.throwAt = some o.stop ∧ o.stop < o.count

instance : Decidable o.Throws := inferInstanceAs (Decidable (_ ∧ _))

end Options

/-- What is printed of an outcome. -/
def shown : Outcome → String
  | .yielded v => "\x7b value: " ++ ({} : Plain).text v ++ ", done: false \x7d"
  | .returned v => "\x7b value: " ++ ({} : Plain).text v ++ ", done: true \x7d"
  | .threw v => "rejected " ++ ({} : Plain).text v
  | .awaiting _ => "pending"

namespace Options

variable (o : Options)

/-- The line of the request with the given index. -/
def line (i : Nat) : String :=
  "#" ++ toString i ++ " " ++ o.method i ++ " -> " ++ shown (o.answer i) ++ "\n"

/-- All that is printed. -/
def transcript : String :=
  String.join ((List.range o.count).map o.line) ++
    if o.Throws ∧ o.unhandled ≠ some .ignore then "unhandled rejection: injected\n" else ""

/-! ## The request that stops the generator -/

theorem stop_le_length : o.stop ≤ o.values.length := min_le_left ..

variable {o}

theorem stop_le_throwAt {t : Nat} (h : o.throwAt = some t) : o.stop ≤ t := by
  rw [stop, h]
  exact (min_le_right ..).trans (min_le_left ..)

theorem stop_le_returnAt {t : Nat} (h : o.returnAt = some t) : o.stop ≤ t := by
  rw [stop, h]
  exact (min_le_right ..).trans (min_le_right ..)

theorem stop_cases (h : o.throwAt ≠ some o.stop) (h' : o.returnAt ≠ some o.stop) :
    o.stop = o.values.length := by
  have hget : ∀ {x : Option Nat}, x ≠ some o.stop → o.stop ≠ x.getD o.values.length ∨
      o.stop = o.values.length := by
    rintro (_ | t) hx
    · exact (em _).symm
    · exact .inl fun heq => hx (congrArg some heq.symm)
  have hmin : o.stop = min o.values.length
      (min (o.throwAt.getD o.values.length) (o.returnAt.getD o.values.length)) := rfl
  rcases hget h with ht | hl
  · rcases hget h' with hr | hl
    · omega
    · exact hl
  · exact hl

/-- A request before that is an ordinary one. -/
theorem completionAt_of_lt {i : Nat} (h : i < o.stop) : completionAt o i = .normal .undefined := by
  have ht : o.throwAt ≠ some i := fun heq => Nat.not_lt_of_le (stop_le_throwAt heq) h
  have hr : o.returnAt ≠ some i := fun heq => Nat.not_lt_of_le (stop_le_returnAt heq) h
  rw [completionAt, if_neg ht, if_neg hr]

theorem method_of_lt {i : Nat} (h : i < o.stop) : o.method i = "next" := by
  have ht : o.throwAt ≠ some i := fun heq => Nat.not_lt_of_le (stop_le_throwAt heq) h
  have hr : o.returnAt ≠ some i := fun heq => Nat.not_lt_of_le (stop_le_returnAt heq) h
  rw [method, if_neg ht, if_neg hr]

theorem label_completionAt (i : Nat) : label (completionAt o i) = o.method i := by
  unfold completionAt method
  split
  · rfl
  · split <;> rfl

/-! ## Answers -/

/-- The values that are still to be yielded when the requests before have been served. -/
def left (o : Options) (i : Nat) : Option (List Value) :=
  if i ≤ o.stop then some ((o.values.map valueOf).drop i) else none

theorem left_of_lt {i : Nat} (h : i < o.stop) :
    o.left i = some (valueOf (o.values.getD i "") :: (o.values.map valueOf).drop (i + 1)) := by
  have hi : i < o.values.length := h.trans_le o.stop_le_length
  rw [left, if_pos h.le, List.drop_eq_getElem_cons (by rwa [List.length_map]), List.getElem_map]
  simp [List.getD, hi]

theorem left_of_gt {i : Nat} (h : o.stop < i) : o.left i = none :=
  if_neg (Nat.not_le_of_lt h)

/-- **What requests are due** in a row. -/
theorem answersDue_eq (rs : List Request) (i : Nat)
    (hrs : rs.map Request.completion = (List.range' i rs.length).map (completionAt o)) :
    answersDue (o.left i) rs = (rs.zipIdx i).map fun x => (x.1.capability, o.answer x.2) := by
  induction rs generalizing i with
  | nil => cases h : o.left i <;> rfl
  | cons r rs ih =>
    rw [List.length_cons, List.range'_succ, List.map_cons, List.map_cons] at hrs
    obtain ⟨hr, hrs⟩ := List.cons.inj hrs
    rw [List.zipIdx_cons, List.map_cons, ← ih (i + 1) hrs]
    rcases Nat.lt_trichotomy i o.stop with hlt | rfl | hgt
    · rw [completionAt_of_lt hlt] at hr
      rw [left_of_lt hlt, left, if_pos (Nat.succ_le_of_lt hlt), answer, if_pos hlt]
      simp only [answersDue, hr, Completion.normal]
    · rw [left_of_gt (Nat.lt_succ_self _), left, if_pos le_rfl, answer, if_neg (lt_irrefl _)]
      by_cases ht : o.throwAt = some o.stop
      · rw [completionAt, if_pos ht] at hr
        simp [answersDue, hr, Completion.throwing, ht]
      · by_cases hret : o.returnAt = some o.stop
        · rw [completionAt, if_neg ht, if_pos hret] at hr
          simp [answersDue, hr, Completion.returning, ht, hret]
        · have hnone : (o.values.map valueOf).drop o.stop = [] := by
            rw [stop_cases ht hret, List.drop_eq_nil_iff, List.length_map]
          rw [completionAt, if_neg ht, if_neg hret] at hr
          simp [answersDue, hr, Completion.normal, ht, hret, hnone]
    · have hne : i ≠ o.stop := hgt.ne'
      rw [left_of_gt hgt, left_of_gt (hgt.trans (Nat.lt_succ_self i)), answer,
        if_neg (Nat.not_lt_of_gt hgt)]
      simp [answersDue, hne]

theorem thrown_answer (p : PromiseRef) (i : Nat) :
    (thrown [(p, o.answer i)]).map (·.2) =
      if o.throwAt = some o.stop ∧ i = o.stop then [.string "injected"] else [] := by
  unfold answer
  rcases Nat.lt_trichotomy i o.stop with hlt | rfl | hgt
  · rw [if_pos hlt, if_neg fun h => hlt.ne h.2]
    rfl
  · rw [if_neg (lt_irrefl _)]
    by_cases ht : o.throwAt = some o.stop
    · rw [if_pos ⟨rfl, ht⟩, if_pos ⟨ht, rfl⟩]
      rfl
    · have hno : ¬ (o.throwAt = some o.stop ∧ o.stop = o.stop) := fun h => ht h.1
      rw [if_neg fun h => ht h.2, if_neg hno]
      split <;> rfl
  · have hne : i ≠ o.stop := hgt.ne'
    rw [if_neg (Nat.not_lt_of_gt hgt), if_neg fun h => hne h.1, if_neg fun h => hne h.1,
      if_neg fun h => hne h.2]
    rfl

/-- There is one exception at most. -/
theorem thrown_eq (rs : List Request) :
    (thrown (rs.zipIdx.map fun x => (x.1.capability, o.answer x.2))).map (·.2) =
      if o.throwAt = some o.stop ∧ o.stop < rs.length then [.string "injected"] else [] := by
  induction rs using List.reverseRecOn with
  | nil => simp [thrown]
  | append_singleton rs r ih =>
    have happend : thrown ((rs ++ [r]).zipIdx.map fun x => (x.1.capability, o.answer x.2)) =
        thrown (rs.zipIdx.map fun x => (x.1.capability, o.answer x.2)) ++
          thrown [(r.capability, o.answer rs.length)] := by
      rw [List.zipIdx_append, List.map_append, Nat.zero_add]
      exact List.filterMap_append
    rw [happend, List.map_append, ih, thrown_answer, List.length_append, List.length_singleton]
    by_cases ht : o.throwAt = some o.stop
    · rcases Nat.lt_trichotomy rs.length o.stop with hlt | heq | hgt
      · rw [if_neg (by omega), if_neg (by omega), if_neg (by omega)]
        rfl
      · rw [if_neg (by omega), if_pos ⟨ht, heq⟩, if_pos ⟨ht, by omega⟩]
        rfl
      · rw [if_pos ⟨ht, hgt⟩, if_neg (by omega), if_pos ⟨ht, by omega⟩]
        rfl
    · simp [ht]

end Options

/-! ## Running -/

section Running

open Engine Config

variable {e e' : Plain} {a : AsyncGeneratorRef} {g : GeneratorRef} {o : Options}
  {total : List Request → List (PromiseRef × Outcome)} {m bound : Nat}

theorem valueOf_ne_promise (word : String) (q : PromiseRef) : valueOf word ≠ .promise q := by
  unfold valueOf
  split <;> nofun

/-- **The values that are prepared offer those of the words**, whether they are promises or not. -/
theorem prepareValues_offers (e : Plain) (promised : Bool) (words : List String) :
    List.Forall₂ (prepareValues e promised words).2.Offers (prepareValues e promised words).1
        (words.map valueOf) ∧
      e.Conserves (prepareValues e promised words).2 none ∧
      (prepareValues e promised words).2.waitingJobs = e.waitingJobs ∧
      (prepareValues e promised words).2.unhandled = e.unhandled := by
  induction words generalizing e with
  | nil => exact ⟨.nil, .of_eq rfl rfl rfl, rfl, rfl⟩
  | cons word words ih =>
    have hplain := valueOf_ne_promise word
    cases promised with
    | false =>
      obtain ⟨hoffers, hconserves, hjobs, hunhandled⟩ := ih e
      exact ⟨.cons (.itself hplain) hoffers, hconserves, hjobs, hunhandled⟩
    | true =>
      obtain ⟨hstate, hconserves, hsteady, hunhandled⟩ := e.promiseOf_plain hplain
      obtain ⟨hoffers, hconserves', hjobs, hunhandled'⟩ := ih (e.promiseOf (valueOf word)).2
      have hfirst : (e.promiseOf (valueOf word)).2.Offers
          (.promise (e.promiseOf (valueOf word)).1) (valueOf word) := .promised hplain hstate
      exact ⟨.cons (hfirst.lasts hconserves'.lasts) hoffers, hconserves.trans hconserves',
        hjobs.trans hsteady.waitingJobs, hunhandled'.trans hunhandled⟩

theorem completionAt_plain (o : Options) (i : Nat) (q : PromiseRef) :
    (completionAt o i).value ≠ .promise q := by
  unfold completionAt
  split
  · nofun
  · split <;> nofun

/-- A new generator over values has been asked nothing yet. -/
theorem newAsyncGenerator_stands (h : e.Resting) (hunhandled : e.unhandled = [])
    {xs us : List Value} (hxs : List.Forall₂ e.Offers xs us) :
    ∃ g, (e.newAsyncGenerator (.values ⟨xs⟩)).2.Stands (e.newAsyncGenerator (.values ⟨xs⟩)).1 g
      (answersDue (some us)) 0 := by
  have hcalm := Engine.calm_newAsyncGenerator h (.values ⟨xs⟩)
  have hrecords : (e.newAsyncGenerator (.values ⟨xs⟩)).2.Records [] := ⟨nofun, hunhandled, nofun⟩
  exact ⟨_, .ready ⟨hcalm.sits, .fresh (hxs.imp fun _ _ hx => hx.lasts (.of_eq rfl rfl)),
    hcalm.resting.jobs, ⟨hrecords, nofun, .nil, nofun⟩⟩ fun _ => rfl⟩

/-- **All requests are issued**, and the machine answers each time. -/
theorem issueAll_stands (h : e.Stands a g total m) (hbound : 6 ≤ bound) (is : List Nat) :
    ∃ rs m', (issueAll e a bound o is).2.Stands a g (fun later => total (rs ++ later)) m' ∧
      m' ≤ m + is.length ∧ (issueAll e a bound o is).2.settings = e.settings ∧
      rs.map Request.completion = is.map (completionAt o) ∧
      (issueAll e a bound o is).1 = rs.map fun r => (label r.completion, r.capability) := by
  induction is generalizing e total m with
  | nil => exact ⟨[], m, h, le_rfl, rfl, rfl, rfl⟩
  | cons i is ih =>
    obtain ⟨n, m₁, e₁, answer, hticks, hstands, hsettings, hn, hm⟩ :=
      h.request (completionAt_plain o i) .main
    have hissue : issue e a bound (completionAt o i) = (⟨e.promises.size⟩, e₁) := by
      rw [issue, hticks.settle rfl (hn.trans hbound)]
    obtain ⟨rs, m', hstands', hm', hsettings', hcompletions, hissued⟩ := ih hstands
    have hall : issueAll e a bound o (i :: is) =
        ((label (completionAt o i), ⟨e.promises.size⟩) :: (issueAll e₁ a bound o is).1,
          (issueAll e₁ a bound o is).2) := by
      rw [issueAll]
      simp only [hissue]
    rw [hall]
    refine ⟨⟨completionAt o i, ⟨e.promises.size⟩⟩ :: rs, m', hstands', ?_,
      hsettings'.trans hsettings, ?_, ?_⟩
    · rw [List.length_cons]
      omega
    · rw [List.map_cons, List.map_cons, hcompletions]
    · rw [List.map_cons, hissued]

/-- **A drain** answers all requests, and reports what nobody has handled. -/
theorem drain_stands (h : e.Stands a g total m) (hlimit : e.limit = none)
    (hdraining : e.draining = false) (hbound : 6 * m + 1 ≤ bound) :
    ∃ e' j, drain e bound = ⟨e', .host .main (.answered (.drained (.ok j)))⟩ ∧
      (∀ x ∈ total [], e'.Tells x.1 x.2) ∧ e'.reported = e.reported ++
        if e.policy = .ignore then [] else (thrown (total [])).map (·.2) := by
  obtain ⟨n, j, e', hn, hticks, htells, hreported⟩ := (h.setDraining true).drain 0 .main
  have hruns : e.runJobs .main = ⟨{ e with draining := true }, .drain (.loop none 0 .main)⟩ := by
    simp [runJobs, hdraining, hlimit]
  refine ⟨e', j, ?_, htells, hreported⟩
  rw [drain, hruns, hticks.settle rfl (hn.trans hbound)]

/-! ## Printing -/

/-- The text of the value is the same in every engine. -/
def Literal (v : Value) : Prop := ∀ e : Plain, e.text v = ({} : Plain).text v

theorem literal_valueOf (word : String) : Literal (valueOf word) := by
  intro e
  unfold valueOf
  split <;> rfl

theorem literal_answer (o : Options) (i : Nat) : Literal (o.answer i).value := by
  unfold Options.answer
  split
  · exact literal_valueOf _
  · split
    · exact fun _ => rfl
    · split <;> exact fun _ => rfl

/-- What is printed of a promise that has been answered. -/
theorem describe_of_tells {p : PromiseRef} {x : Outcome} (h : e.Tells p x)
    (hx : Literal x.value) : describe e p = shown x := by
  obtain ⟨r, hrenders, hstate⟩ := h
  have hparts : ∀ v done, (Object.iteratorResult v done).iteratorParts = (v, done) := by
    intro v done
    cases done <;> rfl
  cases hrenders with
  | @yielded v _ _ hobject =>
    have hv : e.text v = ({} : Plain).text v := hx e
    simp [describe, hstate, resultState, iteratorParts?, hobject, hparts, shown, hv,
      String.append_assoc]
  | @returned v _ _ hobject =>
    have hv : e.text v = ({} : Plain).text v := hx e
    simp [describe, hstate, resultState, iteratorParts?, hobject, hparts, shown, hv,
      String.append_assoc]
  | threw v =>
    have hv : e.text v = ({} : Plain).text v := hx e
    simp only [describe, hstate, resultState, shown, hv]

namespace Options

variable {rs : List Request}

theorem length_issued
    (hrs : rs.map Request.completion = (List.range o.count).map (completionAt o)) :
    rs.length = o.count := by
  simpa using congrArg List.length hrs

theorem answersDue_issued
    (hrs : rs.map Request.completion = (List.range o.count).map (completionAt o)) :
    answersDue (o.left 0) rs = rs.zipIdx.map fun x => (x.1.capability, o.answer x.2) :=
  answersDue_eq rs 0 (by rw [hrs, length_issued hrs, List.range_eq_range'])

/-- The lines of the requests, when they have been answered. -/
theorem map_requestLine
    (hrs : rs.map Request.completion = (List.range o.count).map (completionAt o))
    (htells : ∀ x ∈ answersDue (o.left 0) rs, e.Tells x.1 x.2) :
    (rs.map fun r => (label r.completion, r.capability)).zipIdx.map (requestLine e) =
      (List.range o.count).map o.line := by
  refine List.ext_getElem (by simp [length_issued hrs]) fun i hi _ => ?_
  have hi : i < rs.length := by simpa using hi
  have hcompletion : (rs.map Request.completion)[i]? = some (completionAt o i) := by
    rw [hrs]
    simp [← length_issued hrs, hi]
  have hcompletion : rs[i].completion = completionAt o i := by
    simpa [hi] using hcompletion
  have htells : e.Tells rs[i].capability (o.answer i) :=
    htells _ (answersDue_issued hrs ▸
      List.mem_map.2 ⟨(rs[i], i), by simp [List.mem_zipIdx_iff_getElem?, hi], rfl⟩)
  simp only [List.getElem_map, List.getElem_zipIdx, List.getElem_range, Nat.zero_add, requestLine,
    line, hcompletion, label_completionAt, describe_of_tells htells (literal_answer o i)]

/-- The lines of the exceptions that nobody has handled. -/
theorem map_rejectionLine
    (hrs : rs.map Request.completion = (List.range o.count).map (completionAt o)) :
    String.join ((if o.unhandled.getD .collect = .ignore then []
        else (thrown (answersDue (o.left 0) rs)).map (·.2)).map (rejectionLine e)) =
      if o.Throws ∧ o.unhandled ≠ some .ignore then "unhandled rejection: injected\n" else "" := by
  have hignore : o.unhandled.getD .collect = .ignore ↔ o.unhandled = some .ignore := by
    cases o.unhandled <;> simp
  rw [answersDue_issued hrs, thrown_eq, length_issued hrs]
  by_cases hi : o.unhandled = some .ignore
  · rw [if_pos (hignore.2 hi), if_neg fun h => h.2 hi]
    rfl
  · rw [if_neg fun h => hi (hignore.1 h)]
    by_cases ht : o.throwAt = some o.stop ∧ o.stop < o.count
    · rw [if_pos ht, if_pos ⟨ht, hi⟩]
      rfl
    · rw [if_neg ht, if_neg fun h => ht h.1]
      rfl

end Options

/-- A generator over the values is prepared, and has been asked nothing yet. -/
theorem prepareValues_stands (o : Options) (hjobs : o.maxJobs = none) :
    ∃ xs e₁ a e₂ g,
      prepareValues { policy := o.unhandled.getD .collect, limit := o.maxJobs } o.promised
        o.values = (xs, e₁) ∧
      xs.length = o.values.length ∧ e₁.newAsyncGenerator (.values ⟨xs⟩) = (a, e₂) ∧
      e₂.Stands a g (answersDue (o.left 0)) 0 ∧
      e₂.settings = (o.unhandled.getD .collect, none, false, []) := by
  let e : Plain := { policy := o.unhandled.getD .collect, limit := o.maxJobs }
  obtain ⟨hoffers, hconserves, hwaiting, hunhandled⟩ := prepareValues_offers e o.promised o.values
  let e₁ := (prepareValues e o.promised o.values).2
  have hsettings : e₁.settings = (o.unhandled.getD .collect, none, false, []) :=
    hconserves.settings.trans (congrArg (o.unhandled.getD .collect, ·, false, []) hjobs)
  have hresting : e₁.Resting := by
    obtain ⟨-, hlimit, hdraining, -⟩ := settings_eq_iff.1 hsettings
    exact ⟨hwaiting, hdraining, by simp [hlimit]⟩
  have hleft : o.left 0 = some (o.values.map valueOf) := if_pos (Nat.zero_le _)
  have hlength : (prepareValues e o.promised o.values).1.length = o.values.length := by
    rw [hoffers.length_eq, List.length_map]
  obtain ⟨g, hstands⟩ := newAsyncGenerator_stands hresting hunhandled hoffers
  rw [← hleft] at hstands
  exact ⟨_, e₁, _, _, g, rfl, hlength, rfl, hstands, hsettings⟩

/-- **The transcript.** -/
theorem run_transcript {o : Options} (hjobs : o.maxJobs = none) (hroom : o.count ≤ capacity) :
    run o = { exitCode := 0, output := o.transcript } := by
  obtain ⟨xs, e₁, a, e₂, g, hprepare, hlength, hnew, hstart, hsettings⟩ :=
    prepareValues_stands o hjobs
  have hcount : o.requests.getD (xs.length + 1) = o.count := by rw [Options.count, hlength]
  have hbound : 6 ≤ tickBound o.count := by
    rw [tickBound]
    omega
  obtain ⟨rs, m, hstands, hm, hsame, hcompletions, hissued⟩ :=
    issueAll_stands (o := o) hstart hbound (List.range o.count)
  rw [List.length_range, Nat.zero_add] at hm
  have hbound' : 6 * m + 1 ≤ tickBound o.count := by
    rw [tickBound]
    omega
  obtain ⟨hpolicy, hlimit, hdraining, hreported⟩ := settings_eq_iff.1 (hsame.trans hsettings)
  obtain ⟨e', j, hdrain, htells, hreports⟩ := drain_stands hstands hlimit hdraining hbound'
  rw [hpolicy, hreported, List.append_nil, List.nil_append] at hreports
  rw [List.append_nil] at htells
  have hrun : run o = ⟨0,
      String.join ((issueAll e₂ a (tickBound o.count) o (List.range o.count)).1.zipIdx.map
        (requestLine e')) ++ String.join (e'.reported.map (rejectionLine e')), ""⟩ := by
    simp only [run, hprepare, hcount, hnew, if_neg (Nat.not_lt_of_le hroom), hdrain]
  rw [hrun, hissued, Options.map_requestLine hcompletions htells, hreports,
    Options.map_rejectionLine hcompletions, Options.transcript]

end Running

/-- **The program prints the transcript** of every command line in which the parser finds options
without a limit on the number of jobs, and no more requests than there can be room for. Requests
before the one that stops the generator ask for the next value. A command line that differs in
whether the values are promises prints the same. -/
theorem runWith_transcript {parse : Parser} {args : List String} {o : Options}
    (hparse : parse args = .ok o) (hjobs : o.maxJobs = none) (hroom : o.count ≤ capacity) :
    runWith parse args = { exitCode := 0, output := o.transcript } ∧
      (∀ i < o.stop, o.method i = "next") ∧
      ∀ args' promised, parse args' = .ok { o with promised } →
        runWith parse args' = runWith parse args := by
  have hruns : ∀ {args : List String} {o : Options}, parse args = .ok o → o.maxJobs = none →
      o.count ≤ capacity → runWith parse args = { exitCode := 0, output := o.transcript } := by
    intro args o hparse hjobs hroom
    rw [runWith, hparse]
    exact run_transcript hjobs hroom
  refine ⟨hruns hparse hjobs hroom, fun i => Options.method_of_lt, fun args' promised hparse' => ?_⟩
  -- nothing in the transcript asks whether the values are promises
  rw [hruns hparse hjobs hroom, hruns hparse' hjobs hroom]
  rfl

theorem runWith_injected :
    let report : Report :=
      { exitCode := 0
        output := "#0 next -> \x7b value: 1, done: false \x7d\n#1 throw -> rejected injected\n" ++
          "#2 next -> \x7b value: undefined, done: true \x7d\nunhandled rejection: injected\n" }
    runWith Options.parse ["1", "a", "--promised", "--throw-at=1"] = report ∧
      runWith Options.parse ["1", "a", "--throw-at=1"] = report := by
  intro report
  let o : Options := { values := ["1", "a"], promised := true, throwAt := some 1 }
  have hparse : Options.parse ["1", "a", "--promised", "--throw-at=1"] = .ok o := by decide +kernel
  have hparse' : Options.parse ["1", "a", "--throw-at=1"] = .ok { o with promised := false } := by
    decide +kernel
  have hreport : { exitCode := 0, output := o.transcript } = report := by decide +kernel
  obtain ⟨hrun, -, hsame⟩ := runWith_transcript hparse rfl (by decide +kernel)
  exact ⟨hrun.trans hreport, (hsame _ false hparse').trans (hrun.trans hreport)⟩

/-- The greatest number of requests that can be written is too large. -/
theorem runWith_overflow :
    let args := ["-n", "18446744073709551615"]
    let o : Options := { requests := some (2 ^ 64 - 1) }
    Options.parse args = .ok o ∧ o.maxJobs = none ∧ (runWith Options.parse args).exitCode = 101 ∧
      runWith Options.parse args ≠ { exitCode := 0, output := o.transcript } := by
  intro args o
  have hparse : Options.parse args = .ok o := by decide +kernel
  have hcode : (runWith Options.parse args).exitCode = 101 := by decide +kernel
  exact ⟨hparse, rfl, hcode, fun heq => by simp [heq] at hcode⟩

end Microtask.Trace
