import Microtask.Engine

/-!
# Options of the trace program

The options (`Options`), and a reader that finds them in the words of a command
line (`Options.read?`). What the program does depends on the options only, so
another reader may stand in its place.

The command line is read word by word. Options may stand anywhere before `--`,
each at most once; every other word is a value. A word with a leading dash is
never a value before `--`, except the dash alone. Counts are decimal, with an
optional plus sign, and fit into 64 bits. The words that ask for help or for the
version are not among the options here, and are refused like any other.
-/

namespace Microtask.Trace

structure Options where
  values : List String := []
  /-- The number of requests; without it one more than there are values. -/
  requests : Option Nat := none
  /-- Whether the values are yielded as promises. -/
  promised : Bool := false
  /-- The request that throws. -/
  throwAt : Option Nat := none
  /-- The request that returns. -/
  returnAt : Option Nat := none
  /-- The greatest number of jobs. -/
  maxJobs : Option Nat := none
  unhandled : Option RejectionPolicy := none
  deriving DecidableEq, Repr, Inhabited

namespace Options

/-! ## Operands -/

/-- A count that fits into 64 bits. -/
def readCount? (word : String) : Option Nat :=
  let digits := match word.toList with
    | '+' :: rest => rest
    | all => all
  if !digits.isEmpty && digits.all Char.isDigit then
    let n := digits.foldl (fun n c => 10 * n + (c.toNat - '0'.toNat)) 0
    if n < Nat.pow 2 64 then some n else none
  else none

def readPolicy? : String → Option RejectionPolicy
  | "ignore" => some .ignore
  | "warn" => some .warn
  | "collect" => some .collect
  | _ => none

/-! ## Options with an operand -/

/-- The options that take an operand. -/
inductive Key where
  | requests
  | throwAt
  | returnAt
  | maxJobs
  | unhandled
  deriving DecidableEq, Repr

def Key.ofLongName? : String → Option Key
  | "requests" => some .requests
  | "throw-at" => some .throwAt
  | "return-at" => some .returnAt
  | "max-jobs" => some .maxJobs
  | "unhandled" => some .unhandled
  | _ => none

/-- Fill a field that is still empty. -/
def fill? {α : Type} (field : Option α) (operand : Option α) : Option (Option α) :=
  match field, operand with
  | none, some a => some (some a)
  | _, _ => none

/-- Set an option from its operand. It must not have been set before. -/
def set? (o : Options) (key : Key) (operand : String) : Option Options :=
  match key with
  | .requests => (fill? o.requests (readCount? operand)).map fun requests => { o with requests }
  | .throwAt => (fill? o.throwAt (readCount? operand)).map fun throwAt => { o with throwAt }
  | .returnAt => (fill? o.returnAt (readCount? operand)).map fun returnAt => { o with returnAt }
  | .maxJobs => (fill? o.maxJobs (readCount? operand)).map fun maxJobs => { o with maxJobs }
  | .unhandled => (fill? o.unhandled (readPolicy? operand)).map fun unhandled => { o with unhandled }

/-! ## Words -/

/-- How a word begins. -/
inductive Word where
  | value (text : String)
  | promised
  /-- An option with its operand, or with the next word as operand. -/
  | option (key : Key) (operand : Option String)
  | endOfOptions
  | invalid

/-- Split the text of a long option at the first equals sign. -/
def splitOperand (text : List Char) : String × Option String :=
  let name := String.ofList (text.takeWhile (· ≠ '='))
  match text.dropWhile (· ≠ '=') with
  | _ :: operand => (name, some (String.ofList operand))
  | [] => (name, none)

def Word.ofString (text : String) : Word :=
  match text.toList with
  | ['-', '-'] => .endOfOptions
  | '-' :: '-' :: long =>
    match splitOperand long with
    | ("promised", none) => .promised
    | (name, operand) =>
      match Key.ofLongName? name with
      | some key => .option key operand
      | none => .invalid
  | ['-', 'n'] => .option .requests none
  | '-' :: 'n' :: '=' :: operand => .option .requests (some (String.ofList operand))
  | '-' :: 'n' :: operand => .option .requests (some (String.ofList operand))
  | '-' :: _ :: _ => .invalid
  | _ => .value text

/-- Read the words of a command line. -/
def readFrom (o : Options) : List String → Option Options
  | [] => some o
  | text :: rest =>
    match Word.ofString text with
    | .value v => { o with values := o.values ++ [v] }.readFrom rest
    | .promised => if o.promised then none else { o with promised := true }.readFrom rest
    | .option key (some operand) =>
      match o.set? key operand with
      | some o => o.readFrom rest
      | none => none
    | .option key none =>
      match rest with
      | operand :: rest =>
        match o.set? key operand with
        | some o => o.readFrom rest
        | none => none
      | [] => none
    | .endOfOptions => some { o with values := o.values ++ rest }
    | .invalid => none

/-- The options of a command line, if it is a proper one. -/
def read? (args : List String) : Option Options := ({} : Options).readFrom args

end Options

end Microtask.Trace
