import Microtask.Session.Syntax

/-!
# Renderings

What a session shows of a value: a finite tree in which everything reachable is
written out, except that what is held by a variable is shown by the variable's
name, and an object or promise inside itself as a cycle. Every NaN looks the same.
-/

namespace Microtask.Session

inductive ObjectKind where
  | plain
  | array
  | error
  deriving DecidableEq, Repr, Inhabited

inductive Rendering where
  | undefined
  | null
  | boolean (b : Bool)
  | number (n : Number)
  | string (s : String)
  | variable (name : String)
  | cycle
  | object (kind : ObjectKind) (properties : List (String × Rendering))
  | function (name : String)
  | pendingPromise
  | settledPromise (kind : Settling) (v : Rendering)
  | generator (state : GeneratorState)
  | asyncGenerator (state : AsyncGeneratorState) (queued : Nat)
  deriving Inhabited

mutual

/-- Whether two renderings are the same. -/
def Rendering.same : Rendering → Rendering → Bool
  | .undefined, .undefined => true
  | .null, .null => true
  | .boolean a, .boolean b => a == b
  | .number m, .number n => m == n
  | .string s, .string t => s == t
  | .variable a, .variable b => a == b
  | .cycle, .cycle => true
  | .object k ps, .object l qs => decide (k = l) && sameProperties ps qs
  | .function a, .function b => a == b
  | .pendingPromise, .pendingPromise => true
  | .settledPromise k v, .settledPromise l w => decide (k = l) && v.same w
  | .generator s, .generator t => decide (s = t)
  | .asyncGenerator s m, .asyncGenerator t n => decide (s = t) && m == n
  | _, _ => false

/-- Whether two lists of rendered properties are the same. -/
def sameProperties : List (String × Rendering) → List (String × Rendering) → Bool
  | [], [] => true
  | (k, v) :: ps, (l, w) :: qs => k == l && v.same w && sameProperties ps qs
  | _, _ => false

end

/-- The variables in the order in which they were first bound. -/
abbrev Variables := List (String × Value)

/-- The value of a variable. -/
def Variables.get? (vars : Variables) (name : String) : Option Value := vars.lookup name

/-- Bind a variable. A name that is bound again keeps its place. -/
def Variables.bind (vars : Variables) (name : String) (v : Value) : Variables :=
  Object.setProperty name v vars

/-- The first variable that holds the value. -/
def Variables.nameOf? (vars : Variables) (v : Value) : Option String :=
  (vars.find? fun (_, w) => w.same v).map (·.1)

/-- Whether a value is identified by a reference into the engine. -/
def isReference : Value → Bool
  | .object _ | .function _ | .promise _ | .generator _ | .asyncGenerator _ => true
  | .undefined | .null | .boolean _ | .number _ | .string _ => false

variable {H : Type}

/-- Render a value that occurs inside the values of `path`. A name is used for a
variable only where `named` allows it. The first argument bounds the depth. -/
def renderWithin (e : Engine H) (vars : Variables) :
    Nat → List Value → Bool → Value → Rendering
  | 0, _, _, _ => .cycle
  | depth + 1, path, named, v =>
    let inside := renderWithin e vars depth (v :: path) true
    match if named && isReference v then vars.nameOf? v else none with
    | some name => .variable name
    | none =>
      if path.contains v && isReference v then .cycle
      else
        match v with
        | .undefined => .undefined
        | .null => .null
        | .boolean b => .boolean b
        | .number n => .number n.canonical
        | .string s => .string s
        | .object o =>
          let object := e.object o
          let kind := if object.isArray then .array else if object.isError then .error else .plain
          .object kind (object.properties.map fun (key, w) => (key, inside w))
        | .function f => .function (e.callable f).name
        | .promise p =>
          match (e.promise p).state with
          | .pending => .pendingPromise
          | .fulfilled w => .settledPromise .fulfill (inside w)
          | .rejected w => .settledPromise .reject (inside w)
        | .generator g => .generator (e.generator g).state
        | .asyncGenerator g =>
          let record := e.asyncGenerator g
          .asyncGenerator record.state record.queue.length

/-- More than the number of objects and promises that can be inside each other. -/
def renderDepth (e : Engine H) : Nat := e.objects.size + e.promises.size + 2

/-- Render a value that is part of something. -/
def Rendering.ofPart (e : Engine H) (vars : Variables) (v : Value) : Rendering :=
  renderWithin e vars (renderDepth e) [] true v

/-- Render a value with itself written out even if a variable holds it. -/
def Rendering.ofWhole (e : Engine H) (vars : Variables) (v : Value) : Rendering :=
  renderWithin e vars (renderDepth e) [] false v

end Microtask.Session
