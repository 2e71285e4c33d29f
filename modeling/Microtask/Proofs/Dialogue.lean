import Microtask.Proofs.Generator.Protocol

/-!
# Dialogues

Main code that only talks to the engine: it does one operation after the other, and waits
for the answer to each. Meanwhile nobody else has a choice. The engine works, and the frames
of the host answer every completion that they are resumed with in a fixed way (`Behaviour`),
like all other frames do. So a dialogue is determined by its operations (`Dialogue.unique`).
-/

namespace Microtask

variable {H : Type}

/-! ## Frames as state machines -/

/-- What the frames of the host do when they are resumed: an outcome, and how they go on. -/
abbrev Behaviour (H : Type) := H → Completion → Outcome × H

/-- What a frame that is resumed with a completion answers, and the frame after that. A
script takes as many instructions for it as it needs. -/
inductive Frame.Answers (β : Behaviour H) : Frame H → Completion → Outcome → Frame H → Prop where
  | values (f : ValuesFrame) (c : Completion) :
      Answers β (.values f) c (f.resume c).1 (.values (f.resume c).2)
  | script {f f' : ScriptFrame} {c : Completion} {n : Nat} {o : Outcome} :
      f.resumeFor n c = .stopped o f' → Answers β (.script f) c o (.script f')
  | host (code : H) (c : Completion) :
      Answers β (.host code) c (β code c).1 (.host (β code c).2)

/-! ## Without a choice -/

/-- The engine works, or a frame of the host that has been resumed answers. -/
inductive Event.Of (β : Behaviour H) : Event H → Prop where
  | engine {w : World H} : w.config.atHost = false → Of β ⟨w, .tick⟩
  | frame {e : Engine H} {s : Stepper H} {code : H} {c : Completion} {held : List (Job H)} :
      Of β ⟨⟨⟨e, .host (.frame s) (.resumed code c)⟩, held⟩,
        .finishFrame (β code c).1 (β code c).2⟩

/-- What happens as long as main code does nothing, with the latest event first. -/
inductive Plays (β : Behaviour H) : World H → List (Event H) → World H → Prop where
  | refl {w : World H} : Plays β w [] w
  | head {w w₁ w₂ : World H} {m : Move H} {es : List (Event H)} :
      Event.Of β ⟨w, m⟩ → Step w m w₁ → Plays β w₁ es w₂ → Plays β w (es ++ [⟨w, m⟩]) w₂

namespace Plays

variable {β : Behaviour H} {w w₁ w₂ : World H} {es es' : List (Event H)}

theorem trans (h : Plays β w es w₁) (h' : Plays β w₁ es' w₂) : Plays β w (es' ++ es) w₂ := by
  induction h with
  | refl => rwa [List.append_nil]
  | head hev hs _ ih =>
    rw [← List.append_assoc]
    exact .head hev hs (ih h')

theorem steps (h : Plays β w es w₁) : Steps w es w₁ := by
  induction h with
  | refl => exact .refl
  | head _ hs _ ih => exact (Steps.refl.step hs).trans ih

/-- The engine does a piece of work. -/
theorem tick {c : Config H} {held : List (Job H)} (h : c.atHost = false) :
    Plays β ⟨c, held⟩ [⟨⟨c, held⟩, .tick⟩] ⟨c.tick, held⟩ :=
  .head (.engine h) (.tick c held) .refl

/-- Only one thing can happen. -/
theorem unique_step {m m' : Move H} (hev : Event.Of β ⟨w, m⟩) (hs : Step w m w₁)
    (hev' : Event.Of β ⟨w, m'⟩) (hs' : Step w m' w₂) : m = m' ∧ w₁ = w₂ := by
  cases hev with
  | engine hat =>
    cases hev' with
    | engine _ =>
      cases hs
      cases hs'
      exact ⟨rfl, rfl⟩
    | frame => cases hat
  | frame =>
    cases hev' with
    | engine hat => cases hat
    | frame =>
      cases hs
      cases hs'
      exact ⟨rfl, rfl⟩

/-- While main code has the floor, nothing happens. -/
theorem not_of_main {m : Move H} {prompt : Prompt H} (h : w.config.control = .host .main prompt) :
    ¬ Event.Of β ⟨w, m⟩ := by
  intro hev
  cases hev with
  | engine hat =>
    rw [Config.atHost, h] at hat
    cases hat
  | frame => cases h

theorem unique {prompt prompt' : Prompt H} (h : Plays β w es w₁)
    (h₁ : w₁.config.control = .host .main prompt) (h' : Plays β w es' w₂)
    (h₂ : w₂.config.control = .host .main prompt') : es = es' ∧ w₁ = w₂ := by
  induction h generalizing es' w₂ with
  | refl =>
    cases h' with
    | refl => exact ⟨rfl, rfl⟩
    | head hev => exact absurd hev (not_of_main h₁)
  | head hev hs _ ih =>
    cases h' with
    | refl => exact absurd hev (not_of_main h₂)
    | head hev' hs' h' =>
      obtain ⟨rfl, rfl⟩ := unique_step hev hs hev' hs'
      obtain ⟨rfl, rfl⟩ := ih h₁ h' h₂
      exact ⟨rfl, rfl⟩

end Plays

/-! ## Dialogues -/

/-- An operation of main code, and the answer to it. -/
structure Exchange (H : Type) where
  before : World H
  op : Op H
  answer : Answer H

/-- Main code does an operation, and gets the floor back with the answer. -/
structure Exchange.Happens (β : Behaviour H) (x : Exchange H) (es : List (Event H))
    (w : World H) : Prop where
  asks : ∃ prompt, x.before.config.control = .host .main prompt
  plays : ∃ w₁ es', Step x.before (.perform x.op) w₁ ∧ Plays β w₁ es' w ∧
    es = es' ++ [⟨x.before, .perform x.op⟩]
  answered : w.config.control = .host .main (.answered x.answer)

/-- Main code does operations one after the other. -/
inductive Dialogue (β : Behaviour H) :
    World H → List (Exchange H) → List (Event H) → World H → Prop where
  | nil {w : World H} : Dialogue β w [] [] w
  | cons {x : Exchange H} {xs : List (Exchange H)} {es es' : List (Event H)} {w₁ w₂ : World H} :
      x.Happens β es w₁ → Dialogue β w₁ xs es' w₂ → Dialogue β x.before (x :: xs) (es' ++ es) w₂

section Unique

variable {β : Behaviour H} {w w₁ w₂ : World H} {es es' : List (Event H)}

/-- What the engine answers is determined by the operation. -/
theorem Exchange.Happens.unique {x y : Exchange H} (h : x.Happens β es w₁)
    (h' : y.Happens β es' w₂) (hbefore : x.before = y.before) (hop : x.op = y.op)
    (hjob : x.op.job? = none) : x = y ∧ es = es' ∧ w₁ = w₂ := by
  obtain ⟨before, op, a⟩ := x
  obtain ⟨_, _, a'⟩ := y
  obtain rfl : before = _ := hbefore
  obtain rfl : op = _ := hop
  obtain ⟨-, ⟨v, es₁, hs, hplays, rfl⟩, ha⟩ := h
  obtain ⟨-, ⟨v', es₂, hs', hplays', rfl⟩, ha'⟩ := h'
  obtain rfl : v = v' := by
    cases hs with
    | perform =>
      cases hs' with
      | perform => rfl
      | putBack => cases hjob
    | putBack => cases hjob
  obtain ⟨rfl, rfl⟩ := hplays.unique ha hplays' ha'
  have hanswer : a = a' := by
    have heq := ha.symm.trans ha'
    injection heq with _ heq
    injection heq
  rw [hanswer]
  exact ⟨rfl, rfl, rfl⟩

/-- **A dialogue is determined by its operations**, if it puts no jobs into the queue. -/
theorem Dialogue.unique {xs ys : List (Exchange H)} (h : Dialogue β w xs es w₁)
    (h' : Dialogue β w ys es' w₂) (hops : xs.map Exchange.op = ys.map Exchange.op)
    (hjob : ∀ x ∈ xs, x.op.job? = none) : xs = ys ∧ es = es' ∧ w₁ = w₂ := by
  induction h generalizing ys es' with
  | nil =>
    cases h' with
    | nil => exact ⟨rfl, rfl, rfl⟩
    | cons => cases hops
  | cons hx _ ih =>
    generalize hw : Exchange.before _ = v at h'
    cases h' with
    | nil => cases hops
    | cons hy h' =>
      obtain ⟨hop, hrest⟩ := List.cons.inj hops
      obtain ⟨hxjob, hjob⟩ := List.forall_mem_cons.1 hjob
      obtain ⟨rfl, rfl, rfl⟩ := hx.unique hy hw hop hxjob
      obtain ⟨rfl, rfl, rfl⟩ := ih h' hrest hjob
      exact ⟨rfl, rfl, rfl⟩

end Unique

end Microtask
