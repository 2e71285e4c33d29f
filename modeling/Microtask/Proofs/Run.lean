import Microtask.Machine.Op

/-!
# Runs

The machine and the host take turns. A `Move` is a tick of the machine or
something that the host does when it has the floor, a `Step` carries a move out,
and `Steps` chains steps and records them.

No script binds the host. It may do any operation at any time, but it can only
call functions that the engine hands out, and only enqueue callbacks of its own
and jobs that it took off the queue before.
-/

namespace Microtask

variable {H : Type}

/-! ## What the host has -/

/-- Whether the engine hands functions with the code out: those of the host itself,
and the resolving functions of promises. -/
def Code.isPublic : Code H → Bool
  | .host _ | .resolve _ | .reject _ => true
  | _ => false

def Job.isCallback : Job H → Bool
  | .callback _ _ => true
  | _ => false

namespace Op

/-- The functions that an operation calls, or has called later. -/
def functions : Op H → List FunctionRef
  | .call f _ | .construct f => [f]
  | .promiseThen _ f g | .performThen _ f g _ => f.toList ++ g.toList
  | .promiseCatch _ f | .promiseFinally _ f => f.toList
  | .promiseMethod _ _ args => args.filterMap Value.asFunction?
  | _ => []

/-- The job that an operation enqueues. -/
def job? : Op H → Option (Job H)
  | .enqueue j => some j
  | _ => none

/-- The job that an operation takes off the queue. -/
def takes (e : Engine H) : Op H → List (Job H)
  | .popJob => (e.jobs.pop?.map (·.1.2)).toList
  | _ => []

/-- The host has everything that an operation makes use of. Jobs of the engine's own kinds reach the
queue by the engine only, or come back by way of the host (`Step.putBack`): a host that makes such
a job up and enqueues it is not modelled. -/
structure Admissible (e : Engine H) (op : Op H) : Prop where
  functions : ∀ f ∈ op.functions, (e.callable f).code.isPublic = true
  job : ∀ j ∈ op.job?, j.isCallback = true

end Op

/-- A configuration, and the jobs that the host has taken off the queue and still has. -/
structure World (H : Type) where
  config : Config H := ⟨{}, .host .main .outside⟩
  held : List (Job H) := []

/-! ## Steps -/

inductive Move (H : Type) where
  | tick
  | perform (op : Op H)
  | finishCall (result : Except Failure Value)
  | finishFrame (o : Outcome) (code : H)
  | finishJob (result : Except EngineError Unit)
  /-- The host panics. -/
  | abandon

/-- A move carried out. A panic goes through to the outside (`abandon`): all activations are lost
with it. A host that catches one in an inner activation, and lets the activations around it go on,
is not modelled. -/
inductive Step : World H → Move H → World H → Prop where
  | tick (c : Config H) (held : List (Job H)) : Step ⟨c, held⟩ .tick ⟨c.tick, held⟩
  | perform {e : Engine H} {h : Activation H} {prompt : Prompt H} {held : List (Job H)} {op : Op H} :
      op.Admissible e →
      Step ⟨⟨e, .host h prompt⟩, held⟩ (.perform op) ⟨e.perform h op, op.takes e ++ held⟩
  | putBack {e : Engine H} {h : Activation H} {prompt : Prompt H} {before after : List (Job H)}
      {j : Job H} :
      Step ⟨⟨e, .host h prompt⟩, before ++ j :: after⟩ (.perform (.enqueue j))
        ⟨e.perform h (.enqueue j), before ++ after⟩
  | finishCall {e : Engine H} {k : Caller H} {prompt : Prompt H} {held : List (Job H)}
      (result : Except Failure Value) :
      Step ⟨⟨e, .host (.function k) prompt⟩, held⟩ (.finishCall result) ⟨e.finishCall result k, held⟩
  | finishFrame {e : Engine H} {s : Stepper H} {prompt : Prompt H} {held : List (Job H)}
      (o : Outcome) (code : H) :
      Step ⟨⟨e, .host (.frame s) prompt⟩, held⟩ (.finishFrame o code) ⟨e.finishFrame o code s, held⟩
  | finishJob {e : Engine H} {id : Nat} {d : Drain H} {prompt : Prompt H} {held : List (Job H)}
      (result : Except EngineError Unit) :
      Step ⟨⟨e, .host (.job id d) prompt⟩, held⟩ (.finishJob result) ⟨e.finishJob id d result, held⟩
  | abandon {e : Engine H} {h : Activation H} {prompt : Prompt H} {held : List (Job H)} :
      Step ⟨⟨e, .host h prompt⟩, held⟩ .abandon ⟨.abandon e, held⟩

theorem Step.config_tick {w w' : World H} (h : Step w .tick w') : w'.config = w.config.tick := by
  cases h
  rfl

/-- Operations that make use of nothing that the engine has to hand out first are
always possible. -/
theorem Step.perform_free {e : Engine H} {h : Activation H} {prompt : Prompt H} (op : Op H)
    (hf : op.functions = []) (hj : op.job? = none) :
    Step ⟨⟨e, .host h prompt⟩, []⟩ (.perform op) ⟨e.perform h op, op.takes e ++ []⟩ :=
  .perform ⟨by simp [hf], by simp [hj]⟩

/-! ## Chains of steps -/

/-- A step on record: the world before it and the move. -/
structure Event (H : Type) where
  before : World H
  move : Move H

/-- A chain of steps, with the latest event first. -/
inductive Steps (w : World H) : List (Event H) → World H → Prop where
  | refl : Steps w [] w
  | step {es : List (Event H)} {w₁ w₂ : World H} {m : Move H} :
      Steps w es w₁ → Step w₁ m w₂ → Steps w (⟨w₁, m⟩ :: es) w₂

/-- A chain of steps from a fresh engine. -/
abbrev Run (es : List (Event H)) (w : World H) : Prop := Steps {} es w

theorem Steps.trans {w₁ w₂ w₃ : World H} {es es' : List (Event H)} (h : Steps w₁ es w₂)
    (h' : Steps w₂ es' w₃) : Steps w₁ (es' ++ es) w₃ := by
  induction h' with
  | refl => exact h
  | step _ hs ih => exact ih.step hs

/-- A chain of steps passes through the world before each of its events. -/
theorem Steps.split {w w' : World H} {ev : Event H} {later earlier : List (Event H)}
    (h : Steps w (later ++ ev :: earlier) w') :
    ∃ v, Steps w earlier ev.before ∧ Step ev.before ev.move v ∧ Steps v later w' := by
  induction later generalizing w' with
  | nil =>
    cases h with
    | step h hs => exact ⟨w', h, hs, .refl⟩
  | cons last later ih =>
    cases h with
    | step h hs =>
      obtain ⟨v, hearlier, hv, hlater⟩ := ih h
      exact ⟨v, hearlier, hv, hlater.step hs⟩

/-- What every step preserves, chains of steps preserve. -/
theorem Steps.preserve {P : World H → Prop} (hstep : ∀ {w m w'}, Step w m w' → P w → P w')
    {w w' : World H} {es : List (Event H)} (h : Steps w es w') (hw : P w) : P w' := by
  induction h with
  | refl => exact hw
  | step _ hs ih => exact hstep hs ih

/-- A relation that every step from a good world satisfies, chains of steps satisfy. -/
theorem Steps.relate {P : World H → Prop} {R : World H → World H → Prop} (hrefl : ∀ w, R w w)
    (htrans : ∀ {a b c}, R a b → R b c → R a c)
    (hstep : ∀ {w m w'}, Step w m w' → P w → P w' ∧ R w w')
    {w w' : World H} {es : List (Event H)} (h : Steps w es w') (hw : P w) : R w w' := by
  have : P w' ∧ R w w' := by
    induction h with
    | refl => exact ⟨hw, hrefl _⟩
    | step _ hs ih => exact ⟨(hstep hs ih.1).1, htrans ih.2 (hstep hs ih.1).2⟩
  exact this.2

end Microtask
