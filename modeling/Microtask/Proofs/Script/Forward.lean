import Mathlib.Algebra.Ring.Nat
import Microtask.Proofs.Script.Parking

/-!
# Script frames that only move forward

A frame whose code has no target behind the instruction that names it. Control still moves
backwards when a completion is delivered to a region that was opened before, so neither the program
counter nor the number of regions bounds what is left to do. The measure is a sum of weights: of
the place of control, and of the places that the open regions lead to. A place weighs more than
what one instruction there can turn it into, the place behind it and a region further on
(`ScriptFrame.weight_target`), and a completion that is delivered gives the place of control up for
one of the other summands (`ScriptFrame.unwindThrough_within`).

Main statement: `ScriptFrame.forward_ends`. The measure decreases with every instruction
(`ScriptFrame.step_within`) and from each resume to the next (`ScriptFrame.resumeFor_stops`).
-/

namespace Microtask

/-- The target that an instruction names. -/
def Instruction.target? : Instruction → Option Nat
  | .tryCatch target | .tryFinally target | .jump target => some target
  | _ => none

/-- Where control goes when the region is left abruptly. -/
def Handler.target : Handler → Nat
  | .catching target | .finalizing target => target

namespace ScriptFrame

/-- No instruction names its own place or one before it. -/
def Forward (code : List Instruction) : Prop :=
  ∀ i < code.length, ((code[i]?).bind Instruction.target?).all (i < ·)

instance : DecidablePred Forward := fun code =>
  inferInstanceAs (Decidable (∀ i < code.length,
    ((code[i]?).bind Instruction.target?).all (i < ·)))

/-! ## Weights -/

/-- A place weighs three times the next one. -/
def weight (code : List Instruction) (i : Nat) : Nat := 3 ^ (code.length - i)

/-- The weight of the places that regions lead to. -/
def regionWeight (code : List Instruction) (hs : List Handler) : Nat :=
  (hs.map fun h => weight code h.target).sum

/-- The weight of the places where control is or can be sent by a completion. -/
def measure (f : ScriptFrame) : Nat := weight f.code f.pc + regionWeight f.code f.handlers

theorem weight_pos (code : List Instruction) (i : Nat) : 0 < weight code i :=
  Nat.pow_pos (by decide)

theorem weight_succ {code : List Instruction} {i : Nat} (h : i < code.length) :
    weight code i = 3 * weight code (i + 1) := by
  rw [weight, weight, ← Nat.pow_succ', show (code.length - (i + 1)).succ = code.length - i by omega]

theorem weight_anti (code : List Instruction) {i j : Nat} (h : i ≤ j) :
    weight code j ≤ weight code i :=
  Nat.pow_le_pow_right (by decide) (by omega)

/-- A place outweighs the place behind it together with one further on. -/
theorem weight_target {code : List Instruction} {i target : Nat} (h : i < code.length)
    (ht : i < target) : weight code (i + 1) + weight code target < weight code i := by
  have := weight_succ h
  have := weight_anti code (show i + 1 ≤ target from ht)
  have := weight_pos code (i + 1)
  omega

theorem regionWeight_cons (code : List Instruction) (h : Handler) (hs : List Handler) :
    regionWeight code (h :: hs) = weight code h.target + regionWeight code hs := by
  rw [regionWeight, List.map_cons, List.sum_cons]
  rfl

theorem measure_pos (f : ScriptFrame) : 0 < f.measure :=
  Nat.lt_of_lt_of_le (weight_pos f.code f.pc) (Nat.le_add_right _ _)

/-! ## Instructions -/

/-- The frame has the code and a measure of at most `n`, unless it has finished. -/
def Within (code : List Instruction) (n : Nat) (f : ScriptFrame) : Prop :=
  f.code = code ∧ (f.finished = true ∨ f.measure ≤ n)

theorem Within.mono {code : List Instruction} {m n : Nat} {f : ScriptFrame} (h : f.Within code m)
    (hmn : m ≤ n) : f.Within code n :=
  ⟨h.1, h.2.imp id (Nat.le_trans · hmn)⟩

/-- A frame in progress has the code and a measure of at most `n`, unless it has finished. -/
def Progress.Within (code : List Instruction) (n : Nat) : Progress → Prop
  | .running f => f.code = code ∧ f.measure ≤ n
  | .stopped _ f => f.Within code n

theorem Progress.Within.mono {code : List Instruction} {m n : Nat} {p : Progress}
    (h : p.Within code m) (hmn : m ≤ n) : p.Within code n := by
  cases p with
  | running f => exact ⟨h.1, Nat.le_trans h.2 hmn⟩
  | stopped o f => exact ScriptFrame.Within.mono h hmn

variable {f : ScriptFrame}

/-- **A completion that is delivered** leaves a part of the regions' weight. -/
theorem unwindThrough_within (c : Completion) (hs : List Handler) :
    (f.unwindThrough c hs).Within f.code (regionWeight f.code hs) := by
  induction hs with
  | nil => exact ⟨rfl, .inl rfl⟩
  | cons h outer ih =>
    rw [regionWeight_cons]
    cases h with
    | catching target =>
      unfold unwindThrough
      split
      · exact ⟨rfl, Nat.le_refl _⟩
      · exact ih.mono (Nat.le_add_left _ _)
    | finalizing target => exact ⟨rfl, Nat.le_refl _⟩

theorem unwind_within (c : Completion) :
    (f.unwind c).Within f.code (regionWeight f.code f.handlers) :=
  unwindThrough_within c f.handlers

/-- To leave a region is to lose its weight. -/
theorem leaveRegion_measure (f : ScriptFrame) :
    f.leaveRegion.code = f.code ∧ f.leaveRegion.measure ≤ f.measure := by
  obtain ⟨code, pc, handlers, pending, sent, started, finished⟩ := f
  obtain - | ⟨h, outer⟩ := handlers
  · exact ⟨rfl, Nat.le_refl _⟩
  · have := regionWeight_cons code h outer
    cases h <;> refine ⟨rfl, ?_⟩ <;> simp only [leaveRegion, measure] <;> omega

theorem endBlock_within (f : ScriptFrame) : f.endBlock.Within f.code f.measure := by
  have hregions : regionWeight f.code f.handlers ≤ f.measure := Nat.le_add_left _ _
  unfold endBlock
  split
  · exact (unwind_within (f := { f with pending := _ }) _).mono hregions
  · exact ⟨rfl, Nat.le_refl _⟩
  · exact ⟨rfl, Nat.le_refl _⟩

/-- An instruction behind which control stands leaves a smaller measure than the one with which
it was reached, if its target is further on. -/
theorem execute_within {x : Instruction} {i : Nat} (hpc : f.pc = i + 1) (hi : i < f.code.length)
    (hx : ∀ target ∈ x.target?, i < target) :
    (f.execute x).Within f.code (weight f.code i + regionWeight f.code f.handlers - 1) := by
  have hnext : f.measure < weight f.code i + regionWeight f.code f.handlers := by
    have := weight_succ hi
    have := weight_pos f.code (i + 1)
    rw [measure, hpc]
    omega
  have hleft : regionWeight f.code f.handlers <
      weight f.code i + regionWeight f.code f.handlers :=
    Nat.lt_add_of_pos_left (weight_pos f.code i)
  cases x with
  | yieldValue v => exact ⟨rfl, .inr (Nat.le_sub_one_of_lt hnext)⟩
  | yieldSent => exact ⟨rfl, .inr (Nat.le_sub_one_of_lt hnext)⟩
  | awaitValue v => exact ⟨rfl, .inr (Nat.le_sub_one_of_lt hnext)⟩
  | awaitSent => exact ⟨rfl, .inr (Nat.le_sub_one_of_lt hnext)⟩
  | tryCatch target | tryFinally target =>
    have := weight_target hi (hx target rfl)
    refine ⟨rfl, ?_⟩
    simp only [measure, regionWeight_cons, Handler.target, hpc]
    omega
  | popHandler =>
    obtain ⟨hcode, hmeasure⟩ := leaveRegion_measure f
    exact ⟨hcode, Nat.le_sub_one_of_lt (Nat.lt_of_le_of_lt hmeasure hnext)⟩
  | endFinally => exact (endBlock_within f).mono (Nat.le_sub_one_of_lt hnext)
  | jump target =>
    have := weight_target hi (hx target rfl)
    refine ⟨rfl, ?_⟩
    simp only [measure]
    omega
  | returnValue v => exact (unwind_within _).mono (Nat.le_sub_one_of_lt hleft)
  | returnSent => exact (unwind_within _).mono (Nat.le_sub_one_of_lt hleft)
  | throwValue v => exact (unwind_within _).mono (Nat.le_sub_one_of_lt hleft)

/-- **Every instruction makes the measure smaller.** -/
theorem step_within (hf : Forward f.code) : f.step.Within f.code (f.measure - 1) := by
  unfold step
  split
  case h_1 x hx =>
    have hi : f.pc < f.code.length := (List.getElem?_eq_some_iff.1 hx).1
    have hforward := hf f.pc hi
    rw [hx] at hforward
    exact execute_within (f := { f with pc := f.pc + 1 }) rfl hi fun target ht =>
      of_decide_eq_true ((Option.all_eq_true _ _).1 hforward target ht)
  case h_2 => exact ⟨rfl, .inl rfl⟩

/-! ## Resumes -/

/-- As many instructions as the measure are enough to stop. -/
theorem advance_stops {code : List Instruction} (hf : Forward code) {n : Nat} :
    ∀ {m : Nat} {p : Progress}, p.Within code m → m ≤ n →
      ∃ o g, advance n p = .stopped o g ∧ g.Within code m := by
  induction n with
  | zero =>
    intro m p hp hm
    cases p with
    | running f =>
      obtain ⟨-, hm'⟩ := hp
      have := f.measure_pos
      omega
    | stopped o f => exact ⟨o, f, rfl, hp⟩
  | succ n ih =>
    intro m p hp hm
    cases p with
    | running f =>
      obtain ⟨rfl, hm'⟩ := hp
      have hpos := f.measure_pos
      obtain ⟨o, g, hadvance, hg⟩ := ih (step_within hf) (by omega)
      exact ⟨o, g, hadvance, hg.mono (by omega)⟩
    | stopped o f => exact ⟨o, f, rfl, hp⟩

/-- **A resume stops**, and leaves the frame finished or with a smaller measure. -/
theorem resumeFor_stops (hforward : Forward f.code) (hf : f.finished = false) {n : Nat}
    (hn : f.measure ≤ n) (c : Completion) :
    ∃ o g, f.resumeFor n c = .stopped o g ∧ g.Within f.code (f.measure - 1) := by
  have hpos := f.measure_pos
  have habrupt : ({ f with started := true, finished := false }.unwind c).Within f.code
      (f.measure - 1) := by
    refine (unwind_within (f := { f with started := true, finished := false }) c).mono ?_
    have := weight_pos f.code f.pc
    simp only [measure]
    omega
  -- a normal completion leaves control where it is, and one instruction at least is executed
  have hnormal (g : ScriptFrame) (hcode : g.code = f.code) (hg : g.measure = f.measure) :
      ∃ o g', advance n (.running g) = .stopped o g' ∧ g'.Within f.code (f.measure - 1) := by
    obtain ⟨k, rfl⟩ : ∃ k, n = k + 1 := ⟨n - 1, by omega⟩
    have hstep := step_within (f := g) (hcode ▸ hforward)
    rw [hcode, hg] at hstep
    rw [advance]
    exact advance_stops hforward hstep (by omega)
  rw [resumeFor]
  obtain ⟨kind, v⟩ := c
  cases kind with
  | normal =>
    simp only [enter, hf, Bool.false_eq_true, if_false]
    split
    · exact hnormal _ rfl rfl
    · exact hnormal _ rfl rfl
  | throw | «return» =>
    simp only [enter, hf, Bool.false_eq_true, if_false]
    exact advance_stops hforward habrupt (by omega)

/-- The frame after it has been resumed with the completions one after the other, if every resume
stops within the given number of instructions. -/
def after (instructions : Nat) (f : ScriptFrame) : List Completion → Option ScriptFrame
  | [] => some f
  | c :: cs =>
    match f.resumeFor instructions c with
    | .running _ => none
    | .stopped _ g => g.after instructions cs

/-- A frame that has finished stays so. -/
theorem after_finished (hf : f.finished = true) (n : Nat) (cs : List Completion) :
    f.after n cs = some f := by
  induction cs with
  | nil => rfl
  | cons c cs ih =>
    obtain ⟨kind, v⟩ := c
    cases kind <;> simpa [after, resumeFor, enter, hf] using ih

/-- **Any number of resumes stop**, and as many as the measure finish the frame. -/
theorem after_within {n : Nat} : ∀ {f : ScriptFrame} (cs : List Completion), Forward f.code →
    f.measure ≤ n → ∃ g, f.after n cs = some g ∧ (f.measure ≤ cs.length → g.finished = true)
  | f, [], _, _ => ⟨f, rfl, fun h => absurd h (by have := f.measure_pos; simp; omega)⟩
  | f, c :: cs, hforward, hn => by
    cases hf : f.finished with
    | true => exact ⟨f, after_finished hf n _, fun _ => hf⟩
    | false =>
      obtain ⟨o, g, hresume, hcode, hg⟩ := resumeFor_stops hforward hf hn c
      simp only [after, hresume]
      obtain hg | hg := hg
      · exact ⟨g, after_finished hg n cs, fun _ => hg⟩
      · have hpos := f.measure_pos
        obtain ⟨g', hafter, hend⟩ := after_within (n := n) cs (hcode ▸ hforward) (by omega)
        refine ⟨g', hafter, fun hlen => hend ?_⟩
        rw [List.length_cons] at hlen
        omega

/-- **A script that only moves forward ends.** Every resume stops, whatever the completions are,
and the code bounds the number of resumes after which the frame has finished. -/
theorem forward_ends {code : List Instruction} (h : Forward code) (cs : List Completion) :
    ∃ f, (ofCode code).after (3 ^ code.length) cs = some f ∧
      (3 ^ code.length ≤ cs.length → f.finished = true) := by
  have hmeasure : (ofCode code).measure = 3 ^ code.length := rfl
  rw [← hmeasure]
  exact after_within cs h (Nat.le_refl _)

/-- A script whose blocks are entered again by what is raised in them. -/
def knotted : List Instruction :=
  [.tryFinally 2, .tryFinally 2, .yieldSent, .tryFinally 5, .throwValue .null, .endFinally]

theorem knotted_ends :
    ∃ f, (ofCode knotted).after (3 ^ knotted.length)
        (List.replicate (3 ^ knotted.length) (.throwing .null)) = some f ∧ f.finished = true := by
  obtain ⟨f, hafter, hend⟩ := @forward_ends knotted (by decide)
    (List.replicate (3 ^ knotted.length) (.throwing .null))
  exact ⟨f, hafter, hend (Nat.le_of_eq List.length_replicate.symm)⟩

end ScriptFrame

end Microtask
