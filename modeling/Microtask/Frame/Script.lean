import Microtask.Completion

/-!
# Script frames

A frame over a flat list of instructions with a program counter. `handlers` is
the stack of open try regions, innermost first. `pending` is the stack of
interrupted completions, one entry for each finally block that is being run:
the completion that the block interrupts, or nothing when the region before it
was left normally.

A resume enters the frame (`enter`) and then executes one instruction after the
other (`step`) until the frame stops. `resumeFor` bounds the number of
instructions, because a program may jump backwards for ever.
-/

namespace Microtask

/-- Jump targets are instruction indices. "Sent" is the value that the latest
resume delivered. -/
inductive Instruction where
  | yieldValue (v : Value)
  | yieldSent
  | awaitValue (v : Value)
  | awaitSent
  /-- Open a region whose exceptions go to the target. -/
  | tryCatch (target : Nat)
  /-- Open a region that every exit leaves through the block at the target. -/
  | tryFinally (target : Nat)
  /-- Leave the innermost region normally. -/
  | popHandler
  /-- End a finally block: the completion that it interrupted goes on. -/
  | endFinally
  | jump (target : Nat)
  | returnValue (v : Value)
  | returnSent
  | throwValue (v : Value)
  deriving DecidableEq, Repr, Inhabited

/-- An open try region and where control goes when it is left abruptly. -/
inductive Handler where
  | catching (target : Nat)
  | finalizing (target : Nat)
  deriving DecidableEq, Repr, Inhabited

structure ScriptFrame where
  code : List Instruction
  pc : Nat := 0
  handlers : List Handler := []
  pending : List (Option Completion) := []
  sent : Value := .undefined
  started : Bool := false
  finished : Bool := false
  deriving DecidableEq, Repr, Inhabited

namespace ScriptFrame

/-- The frame before its first resume. -/
def ofCode (code : List Instruction) : ScriptFrame := { code }

/-- What executing for a while leads to. -/
inductive Progress where
  | running (f : ScriptFrame)
  | stopped (o : Outcome) (f : ScriptFrame)
  deriving DecidableEq, Repr, Inhabited

/-- The frame after its last outcome. -/
def finish (f : ScriptFrame) (o : Outcome) : Progress :=
  .stopped o { f with finished := true, handlers := [], pending := [] }

/-- Deliver an abrupt completion to the open regions, innermost first. A catch
region takes a throw and becomes the place of control with the exception as the
sent value; a finally region parks the completion and runs its block. If no
region takes it, the completion ends the frame. -/
def unwindThrough (f : ScriptFrame) (c : Completion) : List Handler → Progress
  | [] => f.finish (.ofCompletion c)
  | .catching target :: outer =>
    if c.kind = .throw then .running { f with handlers := outer, sent := c.value, pc := target }
    else f.unwindThrough c outer
  | .finalizing target :: outer =>
    .running { f with handlers := outer, pending := some c :: f.pending, pc := target }

/-- Deliver an abrupt completion to all the open regions. -/
def unwind (f : ScriptFrame) (c : Completion) : Progress := f.unwindThrough c f.handlers

/-- Leave the innermost region normally. Leaving a finally region enters its
block with nothing interrupted. -/
def leaveRegion (f : ScriptFrame) : ScriptFrame :=
  match f.handlers with
  | .finalizing _ :: outer => { f with handlers := outer, pending := none :: f.pending }
  | .catching _ :: outer => { f with handlers := outer }
  | [] => f

/-- End the innermost finally block. -/
def endBlock (f : ScriptFrame) : Progress :=
  match f.pending with
  | some c :: outer => { f with pending := outer }.unwind c
  | none :: outer => .running { f with pending := outer }
  | [] => .running f

/-- Execute an instruction, the program counter being already past it. -/
def execute (f : ScriptFrame) : Instruction → Progress
  | .yieldValue v => .stopped (.yielded v) f
  | .yieldSent => .stopped (.yielded f.sent) f
  | .awaitValue v => .stopped (.awaiting v) f
  | .awaitSent => .stopped (.awaiting f.sent) f
  | .tryCatch target => .running { f with handlers := .catching target :: f.handlers }
  | .tryFinally target => .running { f with handlers := .finalizing target :: f.handlers }
  | .popHandler => .running f.leaveRegion
  | .endFinally => f.endBlock
  | .jump target => .running { f with pc := target }
  | .returnValue v => f.unwind (.returning v)
  | .returnSent => f.unwind (.returning f.sent)
  | .throwValue v => f.unwind (.throwing v)

/-- Execute the next instruction. Past the last one the frame returns undefined. -/
def step (f : ScriptFrame) : Progress :=
  match f.code[f.pc]? with
  | some i => { f with pc := f.pc + 1 }.execute i
  | none => f.finish (.returned .undefined)

/-- Receive a completion. The first one, if normal, only starts the frame and is
not kept as the sent value. An abrupt one goes to the open regions. -/
def enter (f : ScriptFrame) (c : Completion) : Progress :=
  if f.finished then
    match c.kind with
    | .normal => .stopped (.returned .undefined) f
    | .throw | .return => .stopped (.ofCompletion c) f
  else
    match c.kind with
    | .normal =>
      if f.started then .running { f with sent := c.value } else .running { f with started := true }
    | .throw | .return => { f with started := true }.unwind c

/-- Execute at most the given number of instructions. -/
def advance : Nat → Progress → Progress
  | 0, p => p
  | _ + 1, .stopped o f => .stopped o f
  | n + 1, .running f => advance n f.step

/-- Resume with at most the given number of instructions. -/
def resumeFor (instructions : Nat) (f : ScriptFrame) (c : Completion) : Progress :=
  advance instructions (f.enter c)

end ScriptFrame

end Microtask
