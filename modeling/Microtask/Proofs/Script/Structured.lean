import Microtask.Frame.Script

/-!
# Structured scripts

`Statement` is the syntax of scripts with nested `try` statements, and
`Statement.code` lays a statement out as the instructions of a script frame.
`Statement.outcomes` is the structured reading: what the statement answers when
it is resumed again and again. In it a `finally` block that ends goes on with the
completion with which it was entered, and one that is left abruptly forgets it.

How a statement is left is an `Option Completion`: nothing if control goes on
behind it, else the throw or return that leaves it.
-/

namespace Microtask

/-! ## Syntax -/

/-- What an instruction works on: a value, or what the latest resume delivered. -/
inductive Operand where
  | value (v : Value)
  | sent
  deriving DecidableEq, Repr, Inhabited

def Operand.get : Operand → Value → Value
  | value v, _ => v
  | sent, s => s

inductive Statement where
  | skip
  | yieldOf (x : Operand)
  | awaitOf (x : Operand)
  | returnOf (x : Operand)
  | throwOf (v : Value)
  | seq (s t : Statement)
  | tryCatch (body handler : Statement)
  | tryFinally (body cleanup : Statement)
  deriving DecidableEq, Repr, Inhabited

namespace Statement

/-! ## Layout -/

/-- The number of instructions of a statement. -/
def size : Statement → Nat
  | skip => 0
  | yieldOf _ | awaitOf _ | returnOf _ | throwOf _ => 1
  | seq s t => s.size + t.size
  | tryCatch body handler => body.size + handler.size + 3
  | tryFinally body cleanup => body.size + cleanup.size + 3

/-- The instructions of a statement that is placed at an index. A `catch` block
comes behind its region and is jumped over; a `finally` block is run into. -/
def code : Statement → Nat → List Instruction
  | skip, _ => []
  | yieldOf (.value v), _ => [.yieldValue v]
  | yieldOf .sent, _ => [.yieldSent]
  | awaitOf (.value v), _ => [.awaitValue v]
  | awaitOf .sent, _ => [.awaitSent]
  | returnOf (.value v), _ => [.returnValue v]
  | returnOf .sent, _ => [.returnSent]
  | throwOf v, _ => [.throwValue v]
  | seq s t, i => s.code i ++ t.code (i + s.size)
  | tryCatch body handler, i =>
    let target := i + body.size + 3
    .tryCatch target :: body.code (i + 1) ++
      (.popHandler :: .jump (target + handler.size) :: handler.code target)
  | tryFinally body cleanup, i =>
    let target := i + body.size + 2
    .tryFinally target :: body.code (i + 1) ++
      (.popHandler :: cleanup.code target ++ [.endFinally])

theorem length_code (s : Statement) (i : Nat) : (s.code i).length = s.size := by
  induction s generalizing i with
  | skip => rfl
  | yieldOf x | awaitOf x | returnOf x => cases x <;> rfl
  | throwOf => rfl
  | seq s t hs ht => simp [code, size, hs, ht]
  | tryCatch b h hb hh => simp [code, size, hb, hh]; omega
  | tryFinally b c hb hc => simp [code, size, hb, hc]; omega

/-- The frame of a statement before its first resume. -/
def frame (s : Statement) : ScriptFrame := .ofCode (s.code 0)

end Statement

/-! ## Activities -/

/-- What a script that has the control does next: it ends, or it pauses until the
next resume. `overrun` marks a place on the way; nothing shows of it. -/
inductive Activity where
  | ends (o : Outcome)
  | pauses (o : Outcome) (resume : Completion → Activity)
  | overrun (rest : Activity)

/-- What a script that has ended answers. -/
def Outcome.afterEnd (c : Completion) : Outcome :=
  if c.isAbrupt then .ofCompletion c else .returned .undefined

namespace Activity

/-- The outcome of an activity, and those of the resumes that follow. -/
def outcomes : Activity → List Completion → List Outcome
  | ends o, cs => o :: cs.map .afterEnd
  | pauses o _, [] => [o]
  | pauses o resume, c :: cs => o :: (resume c).outcomes cs
  | overrun rest, cs => rest.outcomes cs

/-- No marked place is passed under the resumes that follow. -/
def Straight : Activity → List Completion → Prop
  | ends _, _ => True
  | pauses _ _, [] => True
  | pauses _ resume, c :: cs => (resume c).Straight cs
  | overrun _, _ => False

/-- The end of a script that is left in some way: nothing is there to intercept. -/
def leave : Option Completion → Activity
  | none => ends (.returned .undefined)
  | some c => ends (.ofCompletion c)

/-- The resumes of a script that has not started: only a normal completion starts it. -/
def fromStart (start : Activity) : List Completion → List Outcome
  | [] => []
  | c :: cs => (if c.isAbrupt then ends (.ofCompletion c) else start).outcomes cs

end Activity

/-! ## Structured reading -/

namespace Statement

/-- Run a statement under the value sent last, and go on as `k` says, which is
told how the statement was left. -/
def exec : Statement → (Option Completion → Value → Activity) → Value → Activity
  | skip, k, sent => k none sent
  | yieldOf x, k, sent =>
    .pauses (.yielded (x.get sent)) fun c =>
      if c.isAbrupt then k (some c) sent else k none c.value
  | awaitOf x, k, sent =>
    .pauses (.awaiting (x.get sent)) fun c =>
      if c.isAbrupt then k (some c) sent else k none c.value
  | returnOf x, k, sent => k (some (.returning (x.get sent))) sent
  | throwOf v, k, sent => k (some (.throwing v)) sent
  | seq s t, k, sent =>
    s.exec (fun left sent =>
      match left with
      | none => t.exec k sent
      | some c => k (some c) sent) sent
  | tryCatch body handler, k, sent =>
    body.exec (fun left sent =>
      match left with
      | none => k none sent
      | some c => if c.kind = .throw then handler.exec k c.value else k (some c) sent) sent
  | tryFinally body cleanup, k, sent =>
    body.exec (fun entered sent =>
      cleanup.exec (fun left sent =>
        match left with
        | none => k entered sent
        | some c => k (some c) sent) sent) sent

/-- The structured reading of a script. -/
def outcomes (s : Statement) : List Completion → List Outcome :=
  Activity.fromStart (s.exec (fun left _ => .leave left) .undefined)

end Statement

/-! ## Outcomes of frames -/

namespace ScriptFrame

/-- The outcomes of a frame that is resumed with completions one after the other,
if every resume stops within the given number of instructions. -/
def outcomes (instructions : Nat) (f : ScriptFrame) : List Completion → Option (List Outcome)
  | [] => some []
  | c :: cs =>
    match f.resumeFor instructions c with
    | .running _ => none
    | .stopped o f => (f.outcomes instructions cs).map (o :: ·)

end ScriptFrame

end Microtask
