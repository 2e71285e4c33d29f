import Microtask.Proofs.Run

/-!
# Playing moves

A list of moves, in the order in which they are made, is played from a world on as far as
they are possible (`World.play?`). What is played is a chain of steps (`Steps.of_play`), so
that a particular run is given by its moves.
-/

namespace Microtask

variable {H : Type}

instance (e : Engine H) (op : Op H) : Decidable (op.Admissible e) :=
  decidable_of_iff ((∀ f ∈ op.functions, (e.callable f).code.isPublic = true) ∧
      ∀ j ∈ op.job?, j.isCallback = true)
    ⟨fun h => ⟨h.1, h.2⟩, fun h => ⟨h.1, h.2⟩⟩

namespace World

/-- The world after a move, if the move is possible. Jobs that the host has taken off the
queue are not put back. -/
def next? (w : World H) : Move H → Option (World H)
  | .tick => some ⟨w.config.tick, w.held⟩
  | .perform op =>
    match w.config.control with
    | .host h _ =>
      if op.Admissible w.config.engine then
        some ⟨w.config.engine.perform h op, op.takes w.config.engine ++ w.held⟩
      else none
    | _ => none
  | .finishCall result =>
    match w.config.control with
    | .host (.function k) _ => some ⟨w.config.engine.finishCall result k, w.held⟩
    | _ => none
  | .finishFrame o code =>
    match w.config.control with
    | .host (.frame s) _ => some ⟨w.config.engine.finishFrame o code s, w.held⟩
    | _ => none
  | .finishJob result =>
    match w.config.control with
    | .host (.job id d) _ => some ⟨w.config.engine.finishJob id d result, w.held⟩
    | _ => none
  | .abandon =>
    match w.config.control with
    | .host _ _ => some ⟨.abandon w.config.engine, w.held⟩
    | _ => none

/-- The world after some moves, and the events, with the latest one first. -/
def play? (w : World H) : List (Move H) → List (Event H) → Option (World H × List (Event H))
  | [], es => some (w, es)
  | m :: ms, es => (w.next? m).bind fun w' => w'.play? ms (⟨w, m⟩ :: es)

/-- The world after some moves that are possible. -/
def after (w : World H) (ms : List (Move H)) : World H := ((w.play? ms []).map (·.1)).getD w

/-- What happens with some moves that are possible. -/
def events (w : World H) (ms : List (Move H)) : List (Event H) :=
  ((w.play? ms []).map (·.2)).getD []

end World

theorem Step.of_next {w w' : World H} {m : Move H} (h : w.next? m = some w') : Step w m w' := by
  obtain ⟨⟨e, control⟩, held⟩ := w
  cases m with
  | tick =>
    cases h
    exact .tick _ _
  | perform op =>
    cases control with
    | host a prompt =>
      simp only [World.next?] at h
      split at h
      · next hop =>
        cases h
        exact .perform hop
      · cases h
    | _ => cases h
  | finishCall result =>
    cases control with
    | host a prompt =>
      cases a with
      | function k =>
        cases h
        exact .finishCall result
      | _ => cases h
    | _ => cases h
  | finishFrame o code =>
    cases control with
    | host a prompt =>
      cases a with
      | frame s =>
        cases h
        exact .finishFrame o code
      | _ => cases h
    | _ => cases h
  | finishJob result =>
    cases control with
    | host a prompt =>
      cases a with
      | job id d =>
        cases h
        exact .finishJob result
      | _ => cases h
    | _ => cases h
  | abandon =>
    cases control with
    | host a prompt =>
      cases h
      exact .abandon
    | _ => cases h

theorem Steps.of_play {w₀ w w' : World H} {ms : List (Move H)} {es es' : List (Event H)}
    (h : Steps w₀ es w) (hplay : w.play? ms es = some (w', es')) : Steps w₀ es' w' := by
  induction ms generalizing w es with
  | nil =>
    cases hplay
    exact h
  | cons m ms ih =>
    obtain ⟨w₁, hnext, hplay⟩ := Option.bind_eq_some_iff.1 hplay
    exact ih (h.step (.of_next hnext)) hplay

/-- **Moves that are possible make a chain of steps.** -/
theorem World.steps_after {w : World H} {ms : List (Move H)}
    (h : (w.play? ms []).isSome = true) : Steps w (w.events ms) (w.after ms) := by
  obtain ⟨⟨w', es⟩, hplay⟩ := Option.isSome_iff_exists.1 h
  rw [World.events, World.after, hplay]
  exact Steps.refl.of_play hplay

/-- A move that is possible makes a step. -/
theorem World.step_after {w : World H} {m : Move H} (h : (w.next? m).isSome = true) :
    Step w m (w.after [m]) := by
  obtain ⟨w', hw⟩ := Option.isSome_iff_exists.1 h
  have hafter : w.after [m] = w' := by
    simp only [World.after, World.play?, hw, Option.bind_some, Option.map_some, Option.getD_some]
  exact hafter ▸ .of_next hw

end Microtask
