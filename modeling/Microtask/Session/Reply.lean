import Microtask.Session.Rendering

/-!
# Replies and events

What a session shows: a `Reply` to every action, and an `Event` for everything of
the host that runs meanwhile. Values are shown as renderings, texts as they are at
that moment.
-/

namespace Microtask.Session

/-- The reaction bookkeeping of a promise. -/
structure Inspection where
  id : Nat
  resolved : Bool
  handled : Bool
  onFulfilled : Nat
  onRejected : Nat
  following : Option Nat

/-- What an engine error looks like from the outside. -/
structure ErrorDescription where
  display : String
  message : String
  name : String
  value : Rendering

/-- What a failure looks like from the outside. -/
structure FailureDescription where
  message : String
  thrown : Option Rendering
  value : Rendering
  /-- The failure as an engine error. -/
  error : EngineError
  errorMessage : String
  display : String
  name : String

inductive Reply where
  | ok
  | value (r : Rendering)
  | missing
  | text (s : String)
  | truth (b : Bool)
  | count (n : Nat)
  | limit (n : Option Nat)
  | list (rs : Option (List Rendering))
  | iteratorParts (parts : Option (Rendering × Bool))
  | errorInfo (isError : Bool) (name : Option String)
  | error (error : EngineError) (message : String)
  | thrown (v : Rendering)
  | panicked (text : String)
  | errorDescription (d : ErrorDescription)
  | failureDescription (d : FailureDescription)
  | completion (c : Completion) (v : Rendering)
  /-- How a step stopped; for a script also whether it is finished. -/
  | outcome (o : Outcome) (v : Rendering) (scriptFinished : Option Bool)
  | inspection (i : Inspection)
  | policy (p : RejectionPolicy)
  | queueState (length total : Nat)
  | job (j : Option (Nat × String))
  | failed (n : Nat)

inductive Event where
  | called (name : String) (args : List Rendering)
  | started (label : String)
  | resumed (kind : CompletionKind) (v : Rendering)
  | did (word : String) (reply : Reply)

/-- What an action came to. -/
structure Result where
  reply : Reply
  failure : Option Failure := none

end Microtask.Session
