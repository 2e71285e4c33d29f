import Microtask.Value

/-!
# Objects

An object is a list of properties in the order in which their keys first
appeared, with a mark for arrays and one for errors. Arrays keep their elements
under the decimal texts of the indices and their length under `length`. Iterator
results, settlement records and errors are objects with fixed keys.
-/

namespace Microtask

structure Object where
  properties : List (String × Value) := []
  isArray : Bool := false
  isError : Bool := false
  deriving DecidableEq, Repr, Inhabited

namespace Object

/-! ## Properties -/

/-- Set a key in a property list: in place if the key is there, else at the end. -/
def setProperty (key : String) (v : Value) : List (String × Value) → List (String × Value)
  | [] => [(key, v)]
  | (k, w) :: rest => if k = key then (k, v) :: rest else (k, w) :: setProperty key v rest

def get? (o : Object) (key : String) : Option Value := o.properties.lookup key

def set (o : Object) (key : String) (v : Value) : Object :=
  { o with properties := setProperty key v o.properties }

/-- A plain object with the properties set one after the other. -/
def ofProperties (properties : List (String × Value)) : Object :=
  properties.foldl (fun o (key, v) => o.set key v) {}

/-! ## Errors -/

/-- The error object with the given constructor name and message. -/
def error (name message : String) : Object where
  properties := [("name", .string name), ("message", .string message),
    ("stack", .string (name ++ ": " ++ message))]
  isError := true

/-! ## Iterator results -/

def iteratorResult (v : Value) (done : Bool) : Object where
  properties := [("value", v), ("done", .boolean done)]

/-- The value of an iterator result, and whether it is the last. -/
def iteratorParts (o : Object) : Value × Bool :=
  ((o.get? "value").getD .undefined, o.get? "done" == some (.boolean true))

/-! ## Settlement records -/

/-- The record of how an element settled: its status, then its value or reason
under the given key. -/
def settlementRecord (status key : String) (v : Value) : Object where
  properties := [("status", .string status), (key, v)]

/-! ## Arrays -/

def ofList (items : List Value) : Object where
  properties := items.zipIdx.map (fun (v, i) => (toString i, v)) ++
    [("length", .number (.ofNat items.length))]
  isArray := true

/-- The number of elements that an array reports. -/
def length (o : Object) : Nat :=
  match o.get? "length" with
  | some (.number n) => n.toCount
  | _ => 0

/-- The elements of an array, with undefined for missing ones. -/
def elements? (o : Object) : Option (List Value) :=
  if o.isArray then
    some ((List.range o.length).map fun i => (o.get? (toString i)).getD .undefined)
  else none

end Object

end Microtask
