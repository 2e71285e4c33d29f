import Microtask.Frame.Values
import Microtask.Proofs.Script.Parking

/-!
# Scripts that only yield

A frame over a list of values against the script that yields these values one after the other.
The first consumes its list and has no other state. The second keeps its code, moves its program
counter, and remembers that it has started and finished. They match (`ValuesFrame.Matches`) as
long as the values that remain are what the code still yields, and once the script has finished,
when nothing remains. Every resume gives the same outcome on both sides and leaves frames that
match (`ValuesFrame.Matches.resume`).

Main statement: `ValuesFrame.script_outcomes`.
-/

namespace Microtask

/-! ## Outcomes -/

/-- The outcomes of a frame over values that is resumed with completions one after the other. -/
def ValuesFrame.outcomes (f : ValuesFrame) : List Completion → List Outcome
  | [] => []
  | c :: cs => (f.resume c).1 :: (f.resume c).2.outcomes cs

/-- The script that yields the values one after the other. -/
def ScriptFrame.ofValues (vs : List Value) : ScriptFrame := .ofCode (vs.map .yieldValue)

namespace ScriptFrame

/-- An abrupt completion ends a frame without open regions. -/
theorem enter_abrupt {f : ScriptFrame} (hf : f.finished = false) (hh : f.handlers = [])
    {c : Completion} (hc : c.isAbrupt = true) :
    f.enter c = { f with started := true }.finish (.ofCompletion c) := by
  cases f with
  | mk code pc handlers pending sent started finished =>
    cases hf
    cases hh
    cases c with
    | mk kind v =>
      cases kind with
      | normal => cases hc
      | throw | «return» => rfl

/-- A normal completion sets a frame going at its program counter. -/
theorem enter_normal {f : ScriptFrame} (hf : f.finished = false) {c : Completion}
    (hc : c.isAbrupt = false) :
    ∃ sent, f.enter c = .running { f with sent, started := true } := by
  cases f with
  | mk code pc handlers pending sent started finished =>
    cases hf
    cases c with
    | mk kind v =>
      cases kind with
      | normal => cases started <;> exact ⟨_, rfl⟩
      | throw | «return» => cases hc

end ScriptFrame

/-! ## Frames that match -/

namespace ValuesFrame

/-- The script still yields the values that remain, or it has finished and none remain. -/
inductive Matches : ValuesFrame → ScriptFrame → Prop where
  | yielding {vs : List Value} {f : ScriptFrame} : f.finished = false → f.handlers = [] →
      f.code.drop f.pc = vs.map .yieldValue → Matches ⟨vs⟩ f
  | finished {f : ScriptFrame} : f.finished = true → Matches ⟨[]⟩ f

theorem matches_ofValues (vs : List Value) : Matches ⟨vs⟩ (.ofValues vs) :=
  .yielding rfl rfl rfl

/-- An abrupt completion is the last outcome, and nothing remains. -/
theorem resume_abrupt (f : ValuesFrame) {c : Completion} (hc : c.isAbrupt = true) :
    f.resume c = (.ofCompletion c, ⟨[]⟩) := by
  cases c with
  | mk kind v =>
    cases kind with
    | normal => cases hc
    | throw | «return» => rfl

theorem resume_nil (c : Completion) : resume ⟨[]⟩ c = (.afterEnd c, ⟨[]⟩) := by
  cases c with
  | mk kind v => cases kind <;> rfl

theorem resume_cons (v : Value) (vs : List Value) {c : Completion} (hc : c.isAbrupt = false) :
    resume ⟨v :: vs⟩ c = (.yielded v, ⟨vs⟩) := by
  cases c with
  | mk kind u =>
    cases kind with
    | normal => rfl
    | throw | «return» => cases hc

namespace Matches

variable {v : Value} {vs : List Value} {f : ScriptFrame}

/-- The next instruction yields the first value that remains. -/
theorem step_cons (hf : f.finished = false) (hh : f.handlers = [])
    (hcode : f.code.drop f.pc = (v :: vs).map .yieldValue) :
    ∃ f', f.step = .stopped (.yielded v) f' ∧ Matches ⟨vs⟩ f' := by
  have hnext : f.code[f.pc]? = some (.yieldValue v) := by
    rw [← List.head?_drop, hcode]
    rfl
  have hrest : f.code.drop (f.pc + 1) = vs.map .yieldValue := by
    rw [← List.tail_drop, hcode]
    rfl
  refine ⟨{ f with pc := f.pc + 1 }, ?_, .yielding hf hh hrest⟩
  simp only [ScriptFrame.step, hnext, ScriptFrame.execute]

/-- When no value remains, the script runs past its end. -/
theorem step_nil (hcode : f.code.drop f.pc = []) :
    ∃ f', f.step = .stopped (.returned .undefined) f' ∧ Matches ⟨[]⟩ f' := by
  have hnext : f.code[f.pc]? = none := by rw [← List.head?_drop, hcode]; rfl
  refine ⟨_, ?_, .finished (f := { f with finished := true, handlers := [], pending := [] }) rfl⟩
  simp only [ScriptFrame.step, hnext, ScriptFrame.finish]

/-- **Frames that match answer every completion alike** and match again. The script takes one
instruction for it at most. -/
theorem resume {g : ValuesFrame} (h : Matches g f) (c : Completion) (n : Nat) :
    ∃ f', f.resumeFor (n + 1) c = .stopped (g.resume c).1 f' ∧ Matches (g.resume c).2 f' := by
  cases h with
  | finished hf =>
    refine ⟨f, ?_, ?_⟩
    · rw [ScriptFrame.resumeFor, ScriptFrame.enter_finished hf, resume_nil]
      rfl
    · rw [resume_nil]
      exact .finished hf
  | @yielding vs _ hf hh hcode =>
    cases hc : c.isAbrupt with
    | true =>
      rw [ScriptFrame.resumeFor, ScriptFrame.enter_abrupt hf hh hc, resume_abrupt _ hc]
      exact ⟨_, rfl, .finished rfl⟩
    | false =>
      obtain ⟨sent, henter⟩ := ScriptFrame.enter_normal hf hc
      rw [ScriptFrame.resumeFor, henter]
      cases vs with
      | cons v vs =>
        obtain ⟨f', hstep, hmatch⟩ := step_cons (f := { f with sent, started := true }) hf hh hcode
        rw [resume_cons v vs hc]
        refine ⟨f', ?_, hmatch⟩
        rw [ScriptFrame.advance, hstep, ScriptFrame.advance_stopped]
      | nil =>
        obtain ⟨f', hstep, hmatch⟩ := step_nil (f := { f with sent, started := true }) hcode
        have hend : Outcome.afterEnd c = .returned .undefined := by
          rw [Outcome.afterEnd, hc]
          rfl
        rw [resume_nil, hend]
        refine ⟨f', ?_, hmatch⟩
        rw [ScriptFrame.advance, hstep, ScriptFrame.advance_stopped]

/-- Frames that match answer all sequences of completions alike. -/
theorem outcomes {g : ValuesFrame} (h : Matches g f) (n : Nat) (cs : List Completion) :
    f.outcomes (n + 1) cs = some (g.outcomes cs) := by
  induction cs generalizing g f with
  | nil => rfl
  | cons c cs ih =>
    obtain ⟨f', hresume, hmatch⟩ := h.resume c n
    simp only [ScriptFrame.outcomes, hresume, ih hmatch, ValuesFrame.outcomes, Option.map_some]

end Matches

/-- **A frame over values and the script that yields them give the same outcomes**, whatever
completions they are resumed with, also if the first one is abrupt, and after they have finished.
No resume takes the script more than one instruction. -/
theorem script_outcomes (vs : List Value) (cs : List Completion) (n : Nat) :
    (ScriptFrame.ofValues vs).outcomes (n + 1) cs = some (outcomes ⟨vs⟩ cs) :=
  (matches_ofValues vs).outcomes n cs

/-- A throw in the middle, and two resumes after the end. -/
example : (ScriptFrame.ofValues [.null, .boolean true]).outcomes 1
    [.normal .undefined, .throwing .null, .returning (.boolean false), .normal .null] =
      some [.yielded .null, .threw .null, .returned (.boolean false), .returned .undefined] := by
  decide

end ValuesFrame

end Microtask
