import Microtask.Promise.Basic

/-!
# Jobs and job queues

A job is a deferred piece of work. A job queue is first in, first out, and
numbers the jobs in the order in which they were enqueued.
-/

namespace Microtask

inductive Job (H : Type) where
  /-- Run a reaction with the settled value. -/
  | reaction (r : Reaction) (argument : Value)
  /-- Make a promise follow the settlement of another one. -/
  | adoption (p thenable : PromiseRef)
  /-- Run code of the host. -/
  | callback (label : String) (code : H)

/-- The numbered jobs that wait, and the number of the next one. -/
structure JobQueue (J : Type) where
  waiting : List (Nat × J) := []
  nextId : Nat := 0
  deriving Inhabited

namespace JobQueue

variable {J : Type}

/-- Append a job; it gets the next number. -/
def enqueue (q : JobQueue J) (job : J) : JobQueue J :=
  { waiting := q.waiting ++ [(q.nextId, job)], nextId := q.nextId + 1 }

/-- Append jobs one after the other. -/
def enqueueAll (q : JobQueue J) (jobs : List J) : JobQueue J := jobs.foldl enqueue q

/-- Take the first job off. -/
def pop? (q : JobQueue J) : Option ((Nat × J) × JobQueue J) :=
  match q.waiting with
  | [] => none
  | first :: rest => some (first, { q with waiting := rest })

/-- Drop all jobs that wait. The numbering goes on. -/
def clear (q : JobQueue J) : JobQueue J := { q with waiting := [] }

def length (q : JobQueue J) : Nat := q.waiting.length

def isEmpty (q : JobQueue J) : Bool := q.waiting.isEmpty

/-- The number of jobs ever enqueued. -/
def total (q : JobQueue J) : Nat := q.nextId

end JobQueue

end Microtask
