import Microtask.Proofs.Script.Structured

/-!
# Parked completions of script frames

A script frame keeps the completions of all its `finally` blocks on one stack.
`Statement.execShared` is the reading of a statement with such a stack: a block
that ends takes the completion on top. If the block was left abruptly, its own
completion stays, and an enclosing block that ends later finds it on top of its
own; that place is marked as `overrun`.

Main statement: `ScriptFrame.shows_frame`. The frame of a statement does what the
reading with one stack says, now and under all resumes.
-/

namespace Microtask

/-! ## The reading with one stack -/

/-- What a running script carries along. -/
structure Parking where
  sent : Value
  parked : List (Option Completion)

namespace Activity

/-- Mark an activity if a condition holds. -/
def overrunIf (p : Prop) [Decidable p] (a : Activity) : Activity := if p then .overrun a else a

end Activity

namespace Statement

/-- Run a statement with one stack for the completions that `finally` blocks
interrupt. The mark says that the stack is higher at the end of a block than it
was at its beginning. -/
def execShared : Statement → (Option Completion → Parking → Activity) → Parking → Activity
  | skip, k, p => k none p
  | yieldOf x, k, p =>
    .pauses (.yielded (x.get p.sent)) fun c =>
      if c.isAbrupt then k (some c) p else k none { p with sent := c.value }
  | awaitOf x, k, p =>
    .pauses (.awaiting (x.get p.sent)) fun c =>
      if c.isAbrupt then k (some c) p else k none { p with sent := c.value }
  | returnOf x, k, p => k (some (.returning (x.get p.sent))) p
  | throwOf v, k, p => k (some (.throwing v)) p
  | seq s t, k, p =>
    s.execShared (fun left p =>
      match left with
      | none => t.execShared k p
      | some c => k (some c) p) p
  | tryCatch body handler, k, p =>
    body.execShared (fun left p =>
      match left with
      | none => k none p
      | some c =>
        if c.kind = .throw then handler.execShared k { p with sent := c.value }
        else k (some c) p) p
  | tryFinally body cleanup, k, p =>
    body.execShared (fun entered before =>
      cleanup.execShared (fun left after =>
        match left, after.parked with
        | none, top :: rest =>
          .overrunIf (rest.length ≠ before.parked.length) (k top { after with parked := rest })
        | none, [] => k none after
        | some c, _ => k (some c) after)
        { before with parked := entered :: before.parked }) p

/-- The reading of a script with one stack. -/
def sharedActivity (s : Statement) : Activity :=
  s.execShared (fun left _ => .leave left) ⟨.undefined, []⟩

/-- No `finally` block ends with completions on the stack that blocks inside it
have left behind. -/
def Straight (s : Statement) : List Completion → Prop
  | [] => True
  | c :: cs => c.isAbrupt ∨ s.sharedActivity.Straight cs

end Statement

/-! ## Frames against activities -/

namespace ScriptFrame

/-- A frame in progress does what an activity says, now and under all resumes. -/
inductive Shows : Progress → Activity → Prop where
  | ends {o : Outcome} {f : ScriptFrame} : f.finished = true → Shows (.stopped o f) (.ends o)
  | pauses {o : Outcome} {f : ScriptFrame} {resume : Completion → Activity} :
      f.finished = false → (∀ c, Shows (f.enter c) (resume c)) →
      Shows (.stopped o f) (.pauses o resume)
  | step {f : ScriptFrame} {a : Activity} : Shows f.step a → Shows (.running f) a
  | overrun {p : Progress} {a : Activity} : Shows p a → Shows p (.overrun a)

theorem Shows.overrunIf {p : Progress} {a : Activity} (c : Prop) [Decidable c] (h : Shows p a) :
    Shows p (.overrunIf c a) := by
  unfold Activity.overrunIf
  split
  · exact .overrun h
  · exact h

/-! ### Single instructions -/

/-- The instructions at an index. -/
def Placed (code : List Instruction) (i : Nat) (segment : List Instruction) : Prop :=
  segment <+: code.drop i

theorem Placed.left {code : List Instruction} {i : Nat} {s t : List Instruction}
    (h : Placed code i (s ++ t)) : Placed code i s :=
  (List.prefix_append s t).trans h

theorem Placed.right {code : List Instruction} {i : Nat} {s t : List Instruction}
    (h : Placed code i (s ++ t)) : Placed code (i + s.length) t := by
  obtain ⟨rest, h⟩ := h
  refine ⟨rest, ?_⟩
  rw [← List.drop_drop, ← h, List.append_assoc, List.drop_left]

theorem Placed.tail {code : List Instruction} {i : Nat} {x : Instruction} {s : List Instruction}
    (h : Placed code i (x :: s)) : Placed code (i + 1) s :=
  Placed.right (s := [x]) h

theorem Placed.head {code : List Instruction} {i : Nat} {x : Instruction} {s : List Instruction}
    (h : Placed code i (x :: s)) : code[i]? = some x := by
  obtain ⟨rest, h⟩ := h
  have := congrArg (·[0]?) h
  simpa using this.symm

/-- Execute the instruction under the program counter. -/
theorem Shows.instruction {f : ScriptFrame} {x : Instruction} {s : List Instruction} {a : Activity}
    (hp : Placed f.code f.pc (x :: s)) (h : Shows ({ f with pc := f.pc + 1 }.execute x) a) :
    Shows (.running f) a := by
  refine .step ?_
  rw [ScriptFrame.step, hp.head]
  exact h

/-! ### Statements -/

/-- What a statement that is left hands to its surroundings: control at an index,
or an abrupt completion to the open regions, wherever it was raised. -/
structure Exits (f : ScriptFrame) (next : Nat) (k : Option Completion → Parking → Activity) :
    Prop where
  normal : ∀ p, Shows (.running { f with pc := next, sent := p.sent, pending := p.parked }) (k none p)
  abrupt : ∀ c pc p,
    Shows ({ f with pc, sent := p.sent, pending := p.parked }.unwindThrough c f.handlers) (k (some c) p)

/-- Only the regions that a completion is delivered to matter. -/
theorem unwindThrough_handlers (f : ScriptFrame) (c : Completion) (hs own : List Handler) :
    { f with handlers := own }.unwindThrough c hs = f.unwindThrough c hs := by
  induction hs with
  | nil => rfl
  | cons h outer ih =>
    cases h with
    | catching target => simp only [unwindThrough, ih]
    | finalizing target => rfl

theorem enter_suspended {f : ScriptFrame} (hs : f.started = true) (hf : f.finished = false)
    (c : Completion) :
    f.enter c = if c.isAbrupt then f.unwind c else .running { f with sent := c.value } := by
  obtain ⟨code, pc, handlers, pending, sent, started, finished⟩ := f
  obtain ⟨kind, v⟩ := c
  cases hs
  cases hf
  cases kind <;> rfl

/-- A frame that has paused goes on behind its instruction or is left there. -/
theorem shows_pauses {f : ScriptFrame} {k : Option Completion → Parking → Activity} (o : Outcome)
    (hs : f.started = true) (hf : f.finished = false) (hk : Exits f f.pc k) :
    Shows (.stopped o f) (.pauses o fun c =>
      if c.isAbrupt then k (some c) ⟨f.sent, f.pending⟩ else k none ⟨c.value, f.pending⟩) := by
  refine .pauses hf fun c => ?_
  rw [enter_suspended hs hf]
  split
  · exact hk.abrupt c f.pc ⟨f.sent, f.pending⟩
  · exact hk.normal ⟨c.value, f.pending⟩

/-- A frame that stands at the statement does what the reading with one stack says. -/
def Follows (s : Statement) : Prop :=
  ∀ {f : ScriptFrame} {k : Option Completion → Parking → Activity},
    Placed f.code f.pc (s.code f.pc) → f.started = true → f.finished = false →
    Exits f (f.pc + s.size) k → Shows (.running f) (s.execShared k ⟨f.sent, f.pending⟩)

theorem follows_seq {s t : Statement} (hs : Follows s) (ht : Follows t) : Follows (.seq s t) := by
  intro f k hp hst hf hk
  refine hs hp.left hst hf ⟨fun p => ?_, hk.abrupt⟩
  have ht' := hp.right
  rw [Statement.length_code] at ht'
  have hk' : Exits f (f.pc + s.size + t.size) k := by
    rw [Nat.add_assoc]
    exact hk
  exact ht (f := { f with pc := f.pc + s.size, sent := p.sent, pending := p.parked }) ht' hst hf
    ⟨hk'.normal, hk'.abrupt⟩

theorem follows_tryCatch {b h : Statement} (hb : Follows b) (hh : Follows h) :
    Follows (.tryCatch b h) := by
  intro f k hp hst hf hk
  have hbody : Placed f.code (f.pc + 1) (b.code (f.pc + 1)) := hp.tail.left
  have hrest := hp.tail.right
  rw [Statement.length_code, show f.pc + 1 + b.size = f.pc + b.size + 1 by omega] at hrest
  have hhandler : Placed f.code (f.pc + b.size + 3) (h.code (f.pc + b.size + 3)) := hrest.tail.tail
  have hnext : Exits f (f.pc + b.size + 3 + h.size) k := by
    rw [show f.pc + b.size + 3 + h.size = f.pc + (Statement.tryCatch b h).size by
      simp only [Statement.size]; omega]
    exact hk
  refine .instruction hp ?_
  refine hb (f := { f with
    pc := f.pc + 1, handlers := .catching (f.pc + b.size + 3) :: f.handlers }) hbody hst hf
    ⟨fun p => ?_, fun c pc p => ?_⟩
  · -- the region is left normally: its handler goes, and the `catch` block is jumped over
    rw [show f.pc + 1 + b.size = f.pc + b.size + 1 by omega]
    refine .instruction hrest ?_
    refine .instruction (f := { f with
      pc := f.pc + b.size + 2, sent := p.sent, pending := p.parked }) hrest.tail ?_
    exact hnext.normal p
  · simp only [unwindThrough]
    split
    · exact hh (f := { f with
        pc := f.pc + b.size + 3, sent := c.value, pending := p.parked }) hhandler hst hf
        ⟨hnext.normal, hnext.abrupt⟩
    · rw [unwindThrough_handlers { f with pc, sent := p.sent, pending := p.parked }]
      exact hk.abrupt c pc p

/-- A `finally` block with the instruction behind it, whatever it is entered with. -/
theorem shows_cleanup {c : Statement} (hc : Follows c) {f : ScriptFrame}
    {k : Option Completion → Parking → Activity} {i : Nat}
    (hp : Placed f.code i (c.code i ++ [.endFinally])) (hst : f.started = true)
    (hf : f.finished = false) (hk : Exits f (i + c.size + 1) k) (entered : Option Completion)
    (p : Parking) :
    Shows (.running { f with pc := i, sent := p.sent, pending := entered :: p.parked })
      (c.execShared (fun left after =>
        match left, after.parked with
        | none, top :: rest =>
          .overrunIf (rest.length ≠ p.parked.length) (k top { after with parked := rest })
        | none, [] => k none after
        | some c, _ => k (some c) after) { p with parked := entered :: p.parked }) := by
  have hend := hp.right
  rw [Statement.length_code] at hend
  refine hc (f := { f with pc := i, sent := p.sent, pending := entered :: p.parked }) hp.left hst hf
    ⟨fun q => ?_, fun d pc q => ?_⟩
  · refine .instruction hend ?_
    obtain ⟨sent, parked⟩ := q
    cases parked with
    | nil => exact hk.normal ⟨sent, []⟩
    | cons top rest =>
      refine Shows.overrunIf _ ?_
      cases top with
      | none => exact hk.normal ⟨sent, rest⟩
      | some d => exact hk.abrupt d _ ⟨sent, rest⟩
  · exact hk.abrupt d pc q

theorem follows_tryFinally {b c : Statement} (hb : Follows b) (hc : Follows c) :
    Follows (.tryFinally b c) := by
  intro f k hp hst hf hk
  have hbody : Placed f.code (f.pc + 1) (b.code (f.pc + 1)) := hp.tail.left
  have hrest := hp.tail.right
  rw [Statement.length_code, show f.pc + 1 + b.size = f.pc + b.size + 1 by omega] at hrest
  have hnext : Exits f (f.pc + b.size + 2 + c.size + 1) k := by
    rw [show f.pc + b.size + 2 + c.size + 1 = f.pc + (Statement.tryFinally b c).size by
      simp only [Statement.size]; omega]
    exact hk
  refine .instruction hp ?_
  refine hb (f := { f with
    pc := f.pc + 1, handlers := .finalizing (f.pc + b.size + 2) :: f.handlers }) hbody hst hf
    ⟨fun p => ?_, fun d pc p => ?_⟩
  · rw [show f.pc + 1 + b.size = f.pc + b.size + 1 by omega]
    exact .instruction hrest (shows_cleanup hc hrest.tail hst hf hnext none p)
  · exact shows_cleanup hc hrest.tail hst hf hnext (some d) p

/-- **Every statement is followed.** -/
theorem follows (s : Statement) : Follows s := by
  induction s with
  | skip => intro f k _ _ _ hk; exact hk.normal ⟨f.sent, f.pending⟩
  | yieldOf x =>
    intro f k hp hs hf hk
    cases x <;> refine .instruction hp ?_ <;>
      exact shows_pauses (f := { f with pc := f.pc + 1 }) _ hs hf ⟨hk.normal, hk.abrupt⟩
  | awaitOf x =>
    intro f k hp hs hf hk
    cases x <;> refine .instruction hp ?_ <;>
      exact shows_pauses (f := { f with pc := f.pc + 1 }) _ hs hf ⟨hk.normal, hk.abrupt⟩
  | returnOf x =>
    intro f k hp _ _ hk
    cases x <;> refine .instruction hp ?_ <;>
      exact hk.abrupt _ _ ⟨f.sent, f.pending⟩
  | throwOf v =>
    intro f k hp _ _ hk
    exact .instruction hp (hk.abrupt _ _ ⟨f.sent, f.pending⟩)
  | seq s t hs ht => exact follows_seq hs ht
  | tryCatch b h hb hh => exact follows_tryCatch hb hh
  | tryFinally b c hb hc => exact follows_tryFinally hb hc

/-! ### Whole scripts -/

/-- The outcomes of a frame in progress, now and under the resumes that follow. -/
def Progress.outcomes (instructions : Nat) (cs : List Completion) : Progress → Option (List Outcome)
  | .running _ => none
  | .stopped o f => (f.outcomes instructions cs).map (o :: ·)

theorem outcomes_cons (n : Nat) (f : ScriptFrame) (c : Completion) (cs : List Completion) :
    f.outcomes n (c :: cs) = (advance n (f.enter c)).outcomes n cs := by
  simp only [outcomes, resumeFor]
  cases advance n (f.enter c) <;> rfl

@[simp] theorem advance_stopped (n : Nat) (o : Outcome) (f : ScriptFrame) :
    advance n (.stopped o f) = .stopped o f := by
  cases n <;> rfl

/-- A frame that has finished answers every completion and stays as it is. -/
theorem enter_finished {f : ScriptFrame} (hf : f.finished = true) (c : Completion) :
    f.enter c = .stopped (.afterEnd c) f := by
  obtain ⟨kind, v⟩ := c
  cases kind <;> simp [enter, hf, Outcome.afterEnd, Completion.isAbrupt]

theorem outcomes_finished {f : ScriptFrame} (hf : f.finished = true) (n : Nat)
    (cs : List Completion) : f.outcomes n cs = some (cs.map .afterEnd) := by
  induction cs with
  | nil => rfl
  | cons c cs ih =>
    rw [outcomes_cons, enter_finished hf, advance_stopped]
    simp only [Progress.outcomes, ih]
    rfl

/-- A frame that does what an activity says has its outcomes, within some number
of instructions for each resume. The bounds on this resume and on the later ones
are kept apart for the induction. -/
theorem Shows.outcomes {p : Progress} {a : Activity} (h : Shows p a) :
    ∀ cs, ∃ n, ∀ i j, n ≤ i → n ≤ j → (advance i p).outcomes j cs = some (a.outcomes cs) := by
  induction h with
  | ends hf =>
    intro cs
    refine ⟨0, fun i j _ _ => ?_⟩
    rw [advance_stopped]
    simp only [Progress.outcomes, outcomes_finished hf]
    rfl
  | @pauses o f resume _ _ ih =>
    intro cs
    cases cs with
    | nil => exact ⟨0, fun i j _ _ => by rw [advance_stopped]; rfl⟩
    | cons c cs =>
      obtain ⟨n, hn⟩ := ih c cs
      refine ⟨n, fun i j _ hj => ?_⟩
      rw [advance_stopped, Progress.outcomes, outcomes_cons, hn j j hj hj]
      rfl
  | step _ ih =>
    intro cs
    obtain ⟨n, hn⟩ := ih cs
    refine ⟨n + 1, fun i j hi hj => ?_⟩
    obtain ⟨i, rfl⟩ : ∃ k, i = k + 1 := ⟨i - 1, by omega⟩
    exact hn i j (by omega) (by omega)
  | overrun _ ih => exact ih

theorem shows_frame (s : Statement) (c : Completion) :
    Shows (s.frame.enter c) (if c.isAbrupt then .ends (.ofCompletion c) else s.sharedActivity) := by
  obtain ⟨kind, v⟩ := c
  cases kind with
  | normal =>
    refine follows s (f := { s.frame with started := true }) ?_ rfl rfl
      ⟨fun p => .step ?_, fun c pc p => .ends rfl⟩
    · simp [Placed, Statement.frame, ofCode]
    · have : (s.code 0)[0 + s.size]? = none := by simp [Statement.length_code]
      simp only [Statement.frame, ofCode, step, this]
      exact .ends rfl
  | throw | «return» => exact .ends rfl

end ScriptFrame

end Microtask
