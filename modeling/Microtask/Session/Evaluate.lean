import Microtask.Session.Rendering

/-!
# Evaluating expressions

The value of an expression in a scope. Evaluation may put new objects and
functions into the engine, and has no other effect.
-/

namespace Microtask.Session

/-- What expressions may refer to. -/
structure Scope where
  bindings : Variables
  /-- The arguments of the innermost function that is running. -/
  args : List Value := []
  /-- What the innermost frame that is running was resumed with. -/
  sent : Value := .undefined

/-- An engine whose host code is that of sessions. -/
abbrev Host := Engine Snippet

mutual

def Expr.eval (scope : Scope) (e : Host) : Expr → Value × Host
  | .undefined => (.undefined, e)
  | .null => (.null, e)
  | .boolean b => (.boolean b, e)
  | .number n => (.number n, e)
  | .string s => (.string s, e)
  | .variable name => ((scope.bindings.get? name).getD .undefined, e)
  | .argument i => (Value.argument scope.args i, e)
  | .sent => (scope.sent, e)
  | .array items =>
    let (vs, e) := evalList scope e items
    e.newObject (.ofList vs)
  | .object properties =>
    let (ps, e) := evalProperties scope e properties
    e.newObject (.ofProperties ps)
  | .error name message => e.newError name message
  | .iteratorResult v done =>
    let (v, e) := v.eval scope e
    e.newObject (.iteratorResult v done)
  | .property of key =>
    let (v, e) := of.eval scope e
    ((e.property? v key).getD .undefined, e)
  | .sum a b =>
    let (v, e) := a.eval scope e
    let (w, e) := b.eval scope e
    (v.add w, e)
  | .function name body once quiet =>
    let usage := if once then .once else .repeatable
    let (f, e) := e.newFunction ⟨name, usage, .host (.function name body quiet)⟩
    (.function f, e)

def evalList (scope : Scope) (e : Host) : List Expr → List Value × Host
  | [] => ([], e)
  | x :: rest =>
    let (v, e) := x.eval scope e
    let (vs, e) := evalList scope e rest
    (v :: vs, e)

def evalProperties (scope : Scope) (e : Host) :
    List (String × Expr) → List (String × Value) × Host
  | [] => ([], e)
  | (key, x) :: rest =>
    let (v, e) := x.eval scope e
    let (ps, e) := evalProperties scope e rest
    ((key, v) :: ps, e)

end

def ErrorExpr.eval (scope : Scope) (e : Host) : ErrorExpr → EngineError × Host
  | .plain error => (error, e)
  | .thrown v =>
    let (v, e) := v.eval scope e
    (.thrown v, e)

def InstructionExpr.eval (scope : Scope) (e : Host) : InstructionExpr → Instruction × Host
  | .plain i => (i, e)
  | .yieldValue v =>
    let (v, e) := v.eval scope e
    (.yieldValue v, e)
  | .awaitValue v =>
    let (v, e) := v.eval scope e
    (.awaitValue v, e)
  | .returnValue v =>
    let (v, e) := v.eval scope e
    (.returnValue v, e)
  | .throwValue v =>
    let (v, e) := v.eval scope e
    (.throwValue v, e)

def evalCode (scope : Scope) (e : Host) : List InstructionExpr → List Instruction × Host
  | [] => ([], e)
  | x :: rest =>
    let (i, e) := x.eval scope e
    let (code, e) := evalCode scope e rest
    (i :: code, e)

/-- A new frame. The operands of its instructions are evaluated now. -/
def FrameExpr.eval (scope : Scope) (e : Host) : FrameExpr → Frame Snippet × Host
  | .values items =>
    let (vs, e) := evalList scope e items
    (.values ⟨vs⟩, e)
  | .script code =>
    let (code, e) := evalCode scope e code
    (.script (.ofCode code), e)
  | .turns ts forward => (.host (.turns ts forward), e)

end Microtask.Session
