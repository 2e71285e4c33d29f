import Microtask.Engine
import Microtask.Number.Text
import Microtask.Text.Quoted

/-!
# The text of a value

Two renderings of values. `text` is what scripts get when they use a value as a
string: arrays join the texts of their elements with commas, errors show name and
message. `debugText` is meant for people: strings are quoted, and promises show
what is inside.

Both follow references into the stores, an array or an error into its properties
and a promise into its settled value. What does not contain itself is at most as
deep as the store is large, so that size bounds the recursion. The text of
anything deeper would never end, so there is none (`text?`, `debugText?`). An
empty text stands for it where a text is written in passing, as in a warning.
-/

namespace Microtask.Engine

variable {H : Type}

/-- The text of a value, unless there are nested objects below the given depth. -/
def textWithin? (e : Engine H) : Nat → Value → Option String
  | _, .undefined => some "undefined"
  | _, .null => some "null"
  | _, .boolean b => some (if b then "true" else "false")
  | _, .number n => some n.text
  | _, .string s => some s
  | _, .function f => some ("function " ++ (e.callable f).name ++ "() \x7b [native code] \x7d")
  | _, .promise _ => some "[object Promise]"
  | _, .generator _ => some "[object Generator]"
  | _, .asyncGenerator _ => some "[object AsyncGenerator]"
  | 0, .object _ => none
  | depth + 1, .object o =>
    let object := e.object o
    if object.isArray then
      let texts := (object.properties.filter fun (key, _) => key ≠ "length").mapM fun (_, v) =>
        match v with
        | .undefined | .null => some ""
        | v => e.textWithin? depth v
      texts.map fun texts => ",".intercalate texts
    else if object.isError then
      let name := (object.get? "name").elim (some "Error") (e.textWithin? depth)
      let message := (object.get? "message").elim (some "") (e.textWithin? depth)
      match name, message with
      | some name, some message =>
        some (if message.isEmpty then name else name ++ ": " ++ message)
      | _, _ => none
    else some "[object Object]"

/-- The value as a string, if that comes to an end. -/
def text? (e : Engine H) (v : Value) : Option String := e.textWithin? (e.objects.size + 1) v

/-- The value as a string. -/
def text (e : Engine H) (v : Value) : String := (e.text? v).getD ""

/-- The debugging text of a value, unless there are nested promises below the given depth. -/
def debugTextWithin? (e : Engine H) : Nat → Value → Option String
  | _, .string s => some (Text.quote s)
  | _, .function f => some ("[Function: " ++ (e.callable f).name ++ "]")
  | 0, .promise _ => none
  | depth + 1, .promise p =>
    let promise := e.promise p
    let state := match promise.state with
      | .pending => some "Pending"
      | .fulfilled v => (e.debugTextWithin? depth v).map fun text => "Fulfilled(" ++ text ++ ")"
      | .rejected v => (e.debugTextWithin? depth v).map fun text => "Rejected(" ++ text ++ ")"
    state.map fun state =>
      "JSPromise \x7b id: " ++ toString promise.id ++ ", state: " ++ state ++
        ", on_fulfilled: " ++ toString promise.onFulfilled.length ++
        ", on_rejected: " ++ toString promise.onRejected.length ++ " \x7d"
  | _, v => e.text? v

/-- The value as people see it, if that comes to an end. -/
def debugText? (e : Engine H) (v : Value) : Option String :=
  e.debugTextWithin? (e.promises.size + 1) v

/-- The value as people see it in warnings. -/
def debugText (e : Engine H) (v : Value) : String := (e.debugText? v).getD ""

/-- The name of an error object. -/
def errorName? (e : Engine H) (v : Value) : Option String :=
  if e.isError v then (e.property? v "name").map e.text else none

end Microtask.Engine
