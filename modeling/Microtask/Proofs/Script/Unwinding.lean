import Microtask.Proofs.Script.Parking

/-!
# Unwinding of script frames

What an abrupt completion does to a suspended frame, whatever its code looks like, as long as
the `finally` blocks that are in its way do nothing but yield. `Progress.Runs` tells the
instructions that are executed under several resumes, with the outcomes.

Main statement: `ScriptFrame.unwinding`. The blocks are run one after the other, the innermost
one first, each with the completion parked, which goes on at the end of the block
(`ScriptFrame.runs_block`, `ScriptFrame.runs_inner`).
-/

namespace Microtask

namespace ScriptFrame

/-! ## Runs under several resumes -/

/-- A frame in progress that is resumed with the completions whenever it stops answers with the
outcomes, and the instructions at the indices are executed on the way. -/
inductive Progress.Runs : Progress → List Completion → List Outcome → List Nat → Progress → Prop where
  | here (p : Progress) : Runs p [] [] [] p
  | step {f : ScriptFrame} {cs : List Completion} {os : List Outcome} {path : List Nat}
      {q : Progress} : Runs f.step cs os path q → Runs (.running f) cs os (f.pc :: path) q
  | resume {f : ScriptFrame} {o : Outcome} {c : Completion} {cs : List Completion}
      {os : List Outcome} {path : List Nat} {q : Progress} :
      Runs (f.enter c) cs os path q → Runs (.stopped o f) (c :: cs) (o :: os) path q

theorem Progress.Runs.trans {p q r : Progress} {cs cs' : List Completion} {os os' : List Outcome}
    {path path' : List Nat} (h : Runs p cs os path q) (h' : Runs q cs' os' path' r) :
    Runs p (cs ++ cs') (os ++ os') (path ++ path') r := by
  induction h with
  | here => exact h'
  | step _ ih => exact .step (ih h')
  | resume _ ih => exact .resume (ih h')

/-- A run that stops is what the frame does with a number of instructions for each resume. -/
theorem Progress.Runs.outcomes {p : Progress} {cs : List Completion} {os : List Outcome}
    {path : List Nat} {o : Outcome} {f : ScriptFrame} (h : Runs p cs os path (.stopped o f)) :
    ∃ n, ∀ i j, n ≤ i → n ≤ j → (advance i p).outcomes j cs = some (os ++ [o]) := by
  generalize hq : Progress.stopped o f = q at h
  induction h with
  | here p =>
    subst hq
    refine ⟨0, fun i j _ _ => ?_⟩
    rw [advance_stopped]
    rfl
  | step _ ih =>
    obtain ⟨n, hn⟩ := ih hq
    refine ⟨n + 1, fun i j hi hj => ?_⟩
    obtain ⟨i, rfl⟩ : ∃ k, i = k + 1 := ⟨i - 1, by omega⟩
    exact hn i j (by omega) (by omega)
  | @resume g o' c cs os path q _ ih =>
    obtain ⟨n, hn⟩ := ih hq
    refine ⟨n, fun i j _ hj => ?_⟩
    rw [advance_stopped, Progress.outcomes, outcomes_cons, hn j j hj hj]
    rfl

/-! ## Blocks that only yield -/

/-- The values that code yields up to the end of the `finally` block that it begins with, if it
does nothing else there. -/
def cleanup? : List Instruction → Option (List Value)
  | .yieldValue v :: rest => (cleanup? rest).map (v :: ·)
  | .endFinally :: _ => some []
  | _ => none

/-- The blocks of the `finally` regions among the handlers, innermost first: where each begins,
and what it yields. -/
def blocks (code : List Instruction) (hs : List Handler) : List (Nat × List Value) :=
  hs.filterMap fun
    | .finalizing target => (cleanup? (code.drop target)).map (target, ·)
    | .catching _ => none

/-- What the blocks yield. -/
def yields (code : List Instruction) (hs : List Handler) : List Value :=
  (blocks code hs).flatMap (·.2)

/-- The indices of the instructions of the blocks, each block once. -/
def trail (code : List Instruction) (hs : List Handler) : List Nat :=
  (blocks code hs).flatMap fun b => List.range' b.1 (b.2.length + 1)

/-- All blocks of the handlers only yield. -/
def Cleanups (code : List Instruction) (hs : List Handler) : Prop :=
  ∀ target, .finalizing target ∈ hs → (cleanup? (code.drop target)).isSome = true

/-- A block begins with the instruction that it ends with, or with one that yields. -/
theorem cleanup?_cases {code : List Instruction} {i : Nat} {ys : List Value}
    (h : cleanup? (code.drop i) = some ys) :
    (ys = [] ∧ code[i]? = some .endFinally) ∨
      ∃ y ys', ys = y :: ys' ∧ code[i]? = some (.yieldValue y) ∧
        cleanup? (code.drop (i + 1)) = some ys' := by
  rw [← List.head?_drop, ← List.tail_drop]
  generalize code.drop i = l at h ⊢
  cases l with
  | nil => cases h
  | cons x l =>
    cases x with
    | yieldValue v =>
      obtain ⟨ys', hys, rfl⟩ := Option.map_eq_some_iff.1 h
      exact .inr ⟨v, ys', rfl, rfl, hys⟩
    | endFinally =>
      cases h
      exact .inl ⟨rfl, rfl⟩
    | _ => cases h

section Unwinding

variable {f : ScriptFrame} {c : Completion}

/-- **A block that only yields** gives its values to the resumes that follow, and then the
completion goes on that it was entered with. -/
theorem runs_block {rest : List (Option Completion)} {ys : List Value} :
    ∀ {f : ScriptFrame} (us : List Value), f.started = true → f.finished = false →
      f.pending = some c :: rest → cleanup? (f.code.drop f.pc) = some ys →
      us.length = ys.length → ∃ pc sent, Progress.Runs (.running f) (us.map .normal)
        (ys.map .yielded) (List.range' f.pc (ys.length + 1))
        ({ f with pc, sent, pending := rest }.unwind c) := by
  induction ys with
  | nil =>
    intro f us hs hf hp hb hu
    obtain rfl := List.length_eq_zero_iff.1 hu
    obtain ⟨-, hend⟩ | ⟨y, ys', hcons, -⟩ := cleanup?_cases hb
    · refine ⟨f.pc + 1, f.sent, .step ?_⟩
      have hstep : f.step = { f with pc := f.pc + 1, pending := rest }.unwind c := by
        simp only [step, hend, execute, endBlock, hp]
      rw [hstep]
      exact .here _
    · cases hcons
  | cons y ys ih =>
    intro f us hs hf hp hb hu
    cases us with
    | nil => cases hu
    | cons u us =>
      obtain ⟨hnil, -⟩ | ⟨y', ys', hcons, hyield, hb'⟩ := cleanup?_cases hb
      · cases hnil
      cases hcons
      obtain ⟨pc, sent, hruns⟩ := ih (f := { f with pc := f.pc + 1, sent := u }) us hs hf hp hb'
        (Nat.succ.inj hu)
      have hstep : f.step = .stopped (.yielded y) { f with pc := f.pc + 1 } := by
        simp only [step, hyield, execute]
      have henter : { f with pc := f.pc + 1 }.enter (.normal u) =
          .running { f with pc := f.pc + 1, sent := u } :=
        enter_suspended (f := { f with pc := f.pc + 1 }) hs hf (.normal u)
      refine ⟨pc, sent, .step ?_⟩
      rw [hstep]
      refine .resume ?_
      rw [henter]
      exact hruns

/-- **The blocks of some handlers are run one after the other**, and then the completion goes on
to the handlers further out. A region with a `catch` is left as if it were not there. -/
theorem runs_inner (outer : List Handler) {inner : List Handler}
    (hcatch : c.kind = .throw → ∀ target, .catching target ∉ inner) :
    ∀ {f : ScriptFrame} (us : List Value), f.started = true → f.finished = false →
      Cleanups f.code inner → us.length = (yields f.code inner).length →
      ∃ pc sent, Progress.Runs (f.unwindThrough c (inner ++ outer)) (us.map .normal)
        ((yields f.code inner).map .yielded) (trail f.code inner)
        ({ f with pc, sent }.unwindThrough c outer) := by
  induction inner with
  | nil =>
    intro f us hs hf hb hu
    obtain rfl := List.length_eq_zero_iff.1 hu
    exact ⟨f.pc, f.sent, .here _⟩
  | cons h inner ih =>
    intro f us hs hf hb hu
    have hcatch' : c.kind = .throw → ∀ target, .catching target ∉ inner :=
      fun hc target hmem => hcatch hc target (List.mem_cons_of_mem _ hmem)
    have hb' : Cleanups f.code inner := fun target hmem => hb target (List.mem_cons_of_mem _ hmem)
    cases h with
    | catching target =>
      have hskip : f.unwindThrough c (.catching target :: inner ++ outer) =
          f.unwindThrough c (inner ++ outer) :=
        if_neg fun hc => hcatch hc target List.mem_cons_self
      rw [hskip]
      exact ih hcatch' us hs hf hb' hu
    | finalizing target =>
      obtain ⟨ys, hys⟩ := Option.isSome_iff_exists.1 (hb target List.mem_cons_self)
      have hblocks : blocks f.code (.finalizing target :: inner) =
          (target, ys) :: blocks f.code inner := by
        simp only [blocks, List.filterMap_cons, hys, Option.map_some]
      have hyields : yields f.code (.finalizing target :: inner) = ys ++ yields f.code inner := by
        rw [yields, hblocks]
        rfl
      have htrail : trail f.code (.finalizing target :: inner) =
          List.range' target (ys.length + 1) ++ trail f.code inner := by
        rw [trail, hblocks]
        rfl
      rw [hyields, List.length_append] at hu
      obtain ⟨pc, sent, hblock⟩ := runs_block (c := c)
        (f := { f with handlers := inner ++ outer, pending := some c :: f.pending, pc := target })
        (us.take ys.length) hs hf rfl hys (List.length_take_of_le (by omega))
      obtain ⟨pc', sent', hinner⟩ := ih hcatch' (f := { f with pc, sent })
        (us.drop ys.length) hs hf hb' (by rw [List.length_drop, hu, Nat.add_sub_cancel_left])
      refine ⟨pc', sent', ?_⟩
      rw [hyields, htrail, List.map_append, ← List.take_append_drop ys.length us, List.map_append]
      refine Progress.Runs.trans hblock ?_
      rw [unwind, unwindThrough_handlers { f with pc, sent }]
      exact hinner

/-- The frame runs the blocks of the handlers that only yield, gives its values to the resumes that
follow, and then stops for good with the outcome. -/
def EndsThrough (f : ScriptFrame) (c : Completion) (us : List Value) (o : Outcome) : Prop :=
  (∃ f', Progress.Runs (f.enter c) (us.map .normal) ((yields f.code f.handlers).map .yielded)
      (trail f.code f.handlers) (.stopped o f') ∧ f'.finished = true) ∧
    ∃ n, f.outcomes n (c :: us.map .normal) =
      some ((yields f.code f.handlers).map .yielded ++ [o])

/-- A completion that no region takes ends the frame. -/
theorem endsThrough (hs : f.started = true) (hf : f.finished = false)
    (hb : Cleanups f.code f.handlers) (hc : c.isAbrupt = true)
    (hcatch : c.kind = .throw → ∀ target, .catching target ∉ f.handlers) {us : List Value}
    (hu : us.length = (yields f.code f.handlers).length) :
    f.EndsThrough c us (.ofCompletion c) := by
  obtain ⟨pc, sent, hruns⟩ := runs_inner [] hcatch us hs hf hb hu
  have henter : f.enter c = f.unwindThrough c (f.handlers ++ []) := by
    rw [enter_suspended hs hf, if_pos hc, List.append_nil]
    rfl
  rw [← henter] at hruns
  refine ⟨⟨_, hruns, rfl⟩, ?_⟩
  obtain ⟨n, hn⟩ := hruns.outcomes
  exact ⟨n, by rw [outcomes_cons]; exact hn n n (Nat.le_refl n) (Nat.le_refl n)⟩

/-- **Unwinding.** In a suspended frame whose open `finally` regions have blocks that only yield, a
return runs all of these, the innermost one first, and ends the frame. So does a throw without a
`catch`. Otherwise a throw runs the blocks inside the innermost `catch`, and goes on there with
the exception, with the handlers outside and the completions that were parked before. -/
theorem unwinding (hs : f.started = true) (hf : f.finished = false)
    (hb : Cleanups f.code f.handlers) :
    (∀ (v : Value) (us : List Value), us.length = (yields f.code f.handlers).length →
      f.EndsThrough (.returning v) us (.returned v)) ∧
    (∀ (e : Value) (inner : List Handler) (target : Nat) (outer : List Handler) (us : List Value),
      f.handlers = inner ++ .catching target :: outer →
      (∀ t, .catching t ∉ inner) → us.length = (yields f.code inner).length →
        Progress.Runs (f.enter (.throwing e)) (us.map .normal)
          ((yields f.code inner).map .yielded) (trail f.code inner)
          (.running { f with pc := target, sent := e, handlers := outer })) ∧
    ∀ (e : Value) (us : List Value), (∀ t, .catching t ∉ f.handlers) →
      us.length = (yields f.code f.handlers).length →
      f.EndsThrough (.throwing e) us (.threw e) := by
  have hreturn (v : Value) : (Completion.returning v).kind ≠ .throw := by simp [Completion.returning]
  refine ⟨fun v us hu => endsThrough hs hf hb rfl (fun hthrow => absurd hthrow (hreturn v)) hu, ?_,
    fun e us hcatch hu => endsThrough hs hf hb rfl (fun _ => hcatch) hu⟩
  intro e inner target outer us hhandlers hcatch hu
  have hb' : Cleanups f.code inner := fun t hmem =>
    hb t (hhandlers ▸ List.mem_append_left _ hmem)
  obtain ⟨pc, sent, hruns⟩ := runs_inner (c := .throwing e) (.catching target :: outer)
    (fun _ => hcatch) us hs hf hb' hu
  have henter : f.enter (.throwing e) =
      f.unwindThrough (.throwing e) (inner ++ .catching target :: outer) := by
    rw [← hhandlers, enter_suspended hs hf]
    rfl
  rw [henter]
  exact hruns

/-- A frame with three open regions, the middle one with a `catch`: its code begins with two
blocks. -/
def nested : ScriptFrame where
  code := [.yieldValue .null, .endFinally, .yieldValue (.boolean true), .yieldSent]
  pc := 4
  handlers := [.finalizing 0, .catching 3, .finalizing 1]
  pending := [none]
  started := true

theorem unwinding_nested :
    nested.EndsThrough (.returning .null) [.undefined] (.returned .null) ∧
      Progress.Runs (nested.enter (.throwing (.boolean false))) [.normal .undefined]
        [.yielded .null] [0, 1]
        (.running { nested with pc := 3, sent := .boolean false, handlers := [.finalizing 1] }) := by
  have hb : Cleanups nested.code nested.handlers := by
    intro target hmem
    obtain rfl | rfl : target = 0 ∨ target = 1 := by simpa [nested] using hmem
    · rfl
    · rfl
  obtain ⟨hreturn, hcatch, -⟩ := unwinding (f := nested) rfl rfl hb
  exact ⟨hreturn .null [.undefined] rfl, hcatch (.boolean false) [.finalizing 0] 3 [.finalizing 1]
    [.undefined] rfl (by simp) rfl⟩

end Unwinding

end ScriptFrame

end Microtask
