import Microtask.Proofs.Script.Parking

/-!
# Outcomes of structured scripts

The reading with one stack of parked completions against the structured reading.
They agree until a `finally` block ends with completions on the stack that blocks
inside it left behind (`Statement.agrees_exec`). That needs a throw out of a
`finally` block that is caught inside another one; `Statement.tame` says of the
text of a script that there is no room for it.

Main statement: `Statement.frame_outcomes`.
-/

namespace Microtask

/-! ## The reading with one stack against the structured reading -/

/-- Two activities are alike up to the marked places of the first one. -/
inductive Activity.Agrees : Activity → Activity → Prop where
  | ends (o : Outcome) : Agrees (.ends o) (.ends o)
  | pauses {o : Outcome} {r r' : Completion → Activity} :
      (∀ c, Agrees (r c) (r' c)) → Agrees (.pauses o r) (.pauses o r')
  | overrun (a b : Activity) : Agrees (.overrun a) b

theorem Activity.Agrees.outcomes {a b : Activity} (h : a.Agrees b) :
    ∀ cs, a.Straight cs → a.outcomes cs = b.outcomes cs := by
  induction h with
  | ends o => intro cs _; rfl
  | pauses _ ih =>
    intro cs hs
    cases cs with
    | nil => rfl
    | cons c cs => simp only [Activity.outcomes, ih c cs hs]
  | overrun a b => intro cs hs; exact hs.elim

/-- The stack that a statement finds stays below what it parks. -/
theorem Statement.agrees_exec (s : Statement) :
    ∀ {k : Option Completion → Parking → Activity} {k' : Option Completion → Value → Activity}
      (p : Parking),
      (∀ left q, p.parked <:+ q.parked → (k left q).Agrees (k' left q.sent)) →
      (s.execShared k p).Agrees (s.exec k' p.sent) := by
  induction s with
  | skip => intro k k' p h; exact h none p List.suffix_rfl
  | yieldOf x | awaitOf x =>
    intro k k' p h
    refine .pauses fun c => ?_
    split
    · exact h _ p List.suffix_rfl
    · exact h none { p with sent := c.value } List.suffix_rfl
  | returnOf x | throwOf x => intro k k' p h; exact h _ p List.suffix_rfl
  | seq s t hs ht =>
    intro k k' p h
    refine hs p fun left q hq => ?_
    cases left with
    | none => exact ht q fun left r hr => h left r (hq.trans hr)
    | some c => exact h _ q hq
  | tryCatch b c hb hc =>
    intro k k' p h
    refine hb p fun left q hq => ?_
    cases left with
    | none => exact h none q hq
    | some x =>
      dsimp only
      split
      · exact hc { q with sent := x.value } fun left r hr => h left r (hq.trans hr)
      · exact h _ q hq
  | tryFinally b c hb hc =>
    intro k k' p h
    refine hb p fun entered before hbefore => ?_
    refine hc { before with parked := entered :: before.parked } fun left after hafter => ?_
    have hsuffix : p.parked <:+ after.parked :=
      (hbefore.trans (List.suffix_cons _ _)).trans hafter
    cases left with
    | some x => exact h _ after hsuffix
    | none =>
      obtain ⟨sent, parked⟩ := after
      cases parked with
      | nil => simp at hafter
      | cons top rest =>
        by_cases hlen : rest.length = before.parked.length
        · -- a stack of the old height is the old stack
          have heq := hafter.eq_of_length (by simp [hlen])
          simp only [List.cons.injEq] at heq
          obtain ⟨rfl, rfl⟩ := heq
          simpa [Activity.overrunIf] using h entered ⟨sent, before.parked⟩ hbefore
        · simpa [Activity.overrunIf, hlen] using Activity.Agrees.overrun _ _

/-! ## Scripts that keep the stack straight -/

theorem Activity.straight_pauses (o : Outcome) {resume : Completion → Activity}
    (h : ∀ c cs, (resume c).Straight cs) (cs : List Completion) :
    (pauses o resume).Straight cs := by
  cases cs with
  | nil => trivial
  | cons c cs => exact h c cs

namespace Statement

/-- Whether there is no `finally` in a statement. -/
def finallyFree : Statement → Bool
  | skip | yieldOf _ | awaitOf _ | returnOf _ | throwOf _ => true
  | seq s t => s.finallyFree && t.finallyFree
  | tryCatch body handler => body.finallyFree && handler.finallyFree
  | tryFinally _ _ => false

/-- Whether no `catch` in a statement is around a `finally`. -/
def shallow : Statement → Bool
  | skip | yieldOf _ | awaitOf _ | returnOf _ | throwOf _ => true
  | seq s t => s.shallow && t.shallow
  | tryCatch body handler => body.finallyFree && handler.shallow
  | tryFinally body cleanup => body.shallow && cleanup.shallow

/-- Whether no `catch` in a `finally` block is around another `finally`. -/
def tame : Statement → Bool
  | skip | yieldOf _ | awaitOf _ | returnOf _ | throwOf _ => true
  | seq s t => s.tame && t.tame
  | tryCatch body handler => body.tame && handler.tame
  | tryFinally body cleanup => body.tame && cleanup.shallow

/-- Without `finally` nothing is parked. -/
theorem straight_of_finallyFree (s : Statement) (hs : s.finallyFree = true) :
    ∀ {k : Option Completion → Parking → Activity} (p : Parking),
      (∀ left q, q.parked = p.parked → ∀ cs, (k left q).Straight cs) →
      ∀ cs, (s.execShared k p).Straight cs := by
  induction s with
  | skip => intro k p h; exact h none p rfl
  | yieldOf x | awaitOf x =>
    intro k p h
    refine Activity.straight_pauses _ fun c => ?_
    split
    · exact h _ p rfl
    · exact h none { p with sent := c.value } rfl
  | returnOf x | throwOf x => intro k p h; exact h _ p rfl
  | seq s t hs' ht =>
    intro k p h
    simp only [finallyFree, Bool.and_eq_true] at hs
    refine hs' hs.1 p fun left q hq => ?_
    cases left with
    | none => exact ht hs.2 q fun left r hr => h left r (hr.trans hq)
    | some c => exact h _ q hq
  | tryCatch b c hb hc =>
    intro k p h
    simp only [finallyFree, Bool.and_eq_true] at hs
    refine hb hs.1 p fun left q hq => ?_
    cases left with
    | none => exact h none q hq
    | some x =>
      dsimp only
      split
      · exact hc hs.2 { q with sent := x.value } fun left r hr => h left r (hr.trans hq)
      · exact h _ q hq
  | tryFinally => simp [finallyFree] at hs

/-- A shallow statement that is left normally has taken everything off again that
it parked. -/
theorem straight_of_shallow (s : Statement) (hs : s.shallow = true) :
    ∀ {k : Option Completion → Parking → Activity} (p : Parking),
      (∀ left q, (left = none → q.parked = p.parked) → p.parked <:+ q.parked →
        ∀ cs, (k left q).Straight cs) →
      ∀ cs, (s.execShared k p).Straight cs := by
  induction s with
  | skip => intro k p h; exact h none p (fun _ => rfl) List.suffix_rfl
  | yieldOf x | awaitOf x =>
    intro k p h
    refine Activity.straight_pauses _ fun c => ?_
    split
    · exact h _ p (fun _ => rfl) List.suffix_rfl
    · exact h none { p with sent := c.value } (fun _ => rfl) List.suffix_rfl
  | returnOf x | throwOf x => intro k p h; exact h _ p (fun _ => rfl) List.suffix_rfl
  | seq s t hs' ht =>
    intro k p h
    simp only [shallow, Bool.and_eq_true] at hs
    refine hs' hs.1 p fun left q hn hq => ?_
    cases left with
    | none =>
      refine ht hs.2 q fun left r hr hqr => ?_
      exact h left r (fun hl => (hr hl).trans (hn rfl)) (hq.trans hqr)
    | some c => exact h _ q (by simp) hq
  | tryCatch b c hb hc =>
    intro k p h
    simp only [shallow, Bool.and_eq_true] at hs
    -- whatever is caught was thrown with the stack as it is here
    refine straight_of_finallyFree b hs.1 p fun left q hq => ?_
    cases left with
    | none => exact h none q (fun _ => hq) (hq ▸ List.suffix_rfl)
    | some x =>
      dsimp only
      split
      · refine hc hs.2 { q with sent := x.value } fun left r hr hqr => ?_
        exact h left r (fun hl => (hr hl).trans hq) (hq ▸ hqr)
      · exact h _ q (by simp) (hq ▸ List.suffix_rfl)
  | tryFinally b c hb hc =>
    intro k p h
    simp only [shallow, Bool.and_eq_true] at hs
    refine hb hs.1 p fun entered before hn hbefore => ?_
    refine hc hs.2 { before with parked := entered :: before.parked } fun left after he hafter => ?_
    cases left with
    | some x => exact h _ after (by simp) ((hbefore.trans (List.suffix_cons _ _)).trans hafter)
    | none =>
      simp only [he rfl, Activity.overrunIf, ne_eq, not_true_eq_false, if_false]
      exact h entered { after with parked := before.parked } hn hbefore

theorem straight_of_tame (s : Statement) (hs : s.tame = true) :
    ∀ {k : Option Completion → Parking → Activity} (p : Parking),
      (∀ left q, ∀ cs, (k left q).Straight cs) → ∀ cs, (s.execShared k p).Straight cs := by
  induction s with
  | skip => intro k p h; exact h none p
  | yieldOf x | awaitOf x =>
    intro k p h
    refine Activity.straight_pauses _ fun c => ?_
    split
    · exact h _ p
    · exact h none { p with sent := c.value }
  | returnOf x | throwOf x => intro k p h; exact h _ p
  | seq s t hs' ht =>
    intro k p h
    simp only [tame, Bool.and_eq_true] at hs
    refine hs' hs.1 p fun left q => ?_
    cases left with
    | none => exact ht hs.2 q h
    | some c => exact h _ q
  | tryCatch b c hb hc =>
    intro k p h
    simp only [tame, Bool.and_eq_true] at hs
    refine hb hs.1 p fun left q => ?_
    cases left with
    | none => exact h none q
    | some x =>
      dsimp only
      split
      · exact hc hs.2 { q with sent := x.value } h
      · exact h _ q
  | tryFinally b c hb hc =>
    intro k p h
    simp only [tame, Bool.and_eq_true] at hs
    refine hb hs.1 p fun entered before => ?_
    refine straight_of_shallow c hs.2 { before with parked := entered :: before.parked }
      fun left after he _ => ?_
    cases left with
    | some x => exact h _ after
    | none =>
      simp only [he rfl, Activity.overrunIf, ne_eq, not_true_eq_false, if_false]
      exact h entered { after with parked := before.parked }

theorem straight_leave (left : Option Completion) (cs : List Completion) :
    (Activity.leave left).Straight cs := by
  cases left <;> trivial

/-! ## Outcomes -/

/-- **The outcomes of a structured script.** Its frame always follows the reading
with one stack of parked completions, every resume within a number of
instructions. That is the structured reading as long as no `finally` block ends
with completions on the stack that blocks inside it left behind, and a script in
which no `catch` in a `finally` block is around another `finally` never leaves
any there. -/
theorem frame_outcomes (s : Statement) (cs : List Completion) :
    (∃ n, s.frame.outcomes n cs = some (Activity.fromStart s.sharedActivity cs)) ∧
    (s.Straight cs → ∃ n, s.frame.outcomes n cs = some (s.outcomes cs)) ∧
    (s.tame = true → s.Straight cs) := by
  have hframe : ∃ n, s.frame.outcomes n cs = some (Activity.fromStart s.sharedActivity cs) := by
    cases cs with
    | nil => exact ⟨0, rfl⟩
    | cons c cs =>
      obtain ⟨n, hn⟩ := (ScriptFrame.shows_frame s c).outcomes cs
      exact ⟨n, by rw [ScriptFrame.outcomes_cons]; exact hn n n (Nat.le_refl n) (Nat.le_refl n)⟩
  refine ⟨hframe, fun hs => ?_, fun ht => ?_⟩
  · obtain ⟨n, hn⟩ := hframe
    refine ⟨n, hn.trans (congrArg some ?_)⟩
    cases cs with
    | nil => rfl
    | cons c cs =>
      by_cases hc : c.isAbrupt = true
      · simp only [outcomes, Activity.fromStart, hc, if_true]
      · simp only [outcomes, Activity.fromStart, hc]
        refine (s.agrees_exec ⟨.undefined, []⟩ fun left q _ => ?_).outcomes cs (hs.resolve_left hc)
        cases left <;> exact .ends _
  · cases cs with
    | nil => trivial
    | cons c cs => exact .inr (straight_of_tame s ht _ (fun left _ cs => straight_leave left cs) cs)

/-- A `finally` block that pauses and whose region is left by a throw. -/
theorem frame_outcomes_cleanup :
    ∃ n, (tryFinally (yieldOf (.value .null)) (yieldOf .sent)).frame.outcomes n
        [.normal .undefined, .throwing (.boolean true), .normal (.boolean false)] =
      some [.yielded .null, .yielded .undefined, .threw (.boolean true)] :=
  (frame_outcomes _ _).2.1 ((frame_outcomes _ _).2.2 rfl)

/-- A `finally` block in which the throw of another one is caught. It is entered
with the throw of `null` but ends with the throw of `true`, which the other block
had interrupted. -/
def confused : Statement :=
  tryFinally (throwOf .null)
    (tryCatch (tryFinally (throwOf (.boolean true)) (throwOf (.boolean false))) (yieldOf .sent))

theorem confused_outcomes :
    confused.frame.outcomes 20 [.normal .undefined, .normal .undefined] =
        some [.yielded (.boolean false), .threw (.boolean true)] ∧
      confused.outcomes [.normal .undefined, .normal .undefined] =
        [.yielded (.boolean false), .threw .null] := by
  decide

end Statement

end Microtask
