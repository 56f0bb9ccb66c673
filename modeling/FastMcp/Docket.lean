import FastMcp.OrderedMaps
import Mathlib.Algebra.Ring.Int.Defs
import Mathlib.Algebra.Ring.Nat

/-! # The in-memory task queue

Workers claim tasks from a queue, report success or failure, and lose a claim
they hold for too long. The backend keeps every task in one map and the
identifiers of waiting tasks in a separate queue. Each operation below is what
one of the backend's methods does while it holds its locks.

The map has no order of its own, so the operation that walks over it takes the
order of its walk as an argument. Timestamps are texts that an outside library
writes and reads.
-/

namespace FastMcp.Docket

abbrev TaskId := String

inductive TaskStatus where
  | pending
  | running
  | completed
  | failed
  | cancelled
deriving DecidableEq, Repr

def TaskStatus.isTerminal : TaskStatus → Bool
  | .completed => true
  | .failed => true
  | .cancelled => true
  | _ => false

/-- The name of a status in error messages. -/
def TaskStatus.name : TaskStatus → String
  | .pending => "Pending"
  | .running => "Running"
  | .completed => "Completed"
  | .failed => "Failed"
  | .cancelled => "Cancelled"

/-- A task with its priority, its retries and its state. -/
structure DocketTask (Value : Type) where
  id : TaskId
  taskType : String
  params : Value
  priority : Int
  retryCount : Nat
  maxRetries : Nat
  createdAt : String
  claimedAt : Option String
  status : TaskStatus
  error : Option String
  result : Option Value
deriving DecidableEq, Repr

inductive DocketError where
  | notFound (message : String)
  | backend (message : String)
deriving DecidableEq, Repr

abbrev DocketResult := Except DocketError

/-- The state behind the two locks. -/
structure MemoryDocketBackend (Value : Type) where
  tasks : Std.ExtTreeMap TaskId (DocketTask Value) compare
  pending : List TaskId

/-- What the outside time library provides, and the configured timeout in nanoseconds. -/
structure Timing where
  parseFromRfc3339 : String → Option Int
  visibilityTimeout : Nat

/-- The longest duration that the time library can represent. -/
def longestDuration : Nat := (2 ^ 63 - 1) * 10 ^ 6

def Timing.timeout (timing : Timing) : Int :=
  if timing.visibilityTimeout ≤ longestDuration then timing.visibilityTimeout else 30 * 10 ^ 9

variable {Value : Type}

/-- The backend before its first operation. -/
def MemoryDocketBackend.new (Value : Type) : MemoryDocketBackend Value :=
  ⟨∅, []⟩

namespace MemoryDocketBackend

/-! ## Enqueueing -/

/-- The first half of enqueueing: the task enters the map. -/
def insertTask (task : DocketTask Value) (backend : MemoryDocketBackend Value) :
    MemoryDocketBackend Value :=
  { backend with tasks := backend.tasks.insert task.id task }

/-- The second half: the identifier enters the queue before the first entry of a lower
priority. -/
def insertPending (taskId : TaskId) (priority : Int) (backend : MemoryDocketBackend Value) :
    MemoryDocketBackend Value :=
  let position := (backend.pending.findIdx? fun id =>
    match backend.tasks[id]? with
    | none => true
    | some task => task.priority < priority).getD backend.pending.length
  { backend with pending := backend.pending.insertIdx position taskId }

def enqueue (task : DocketTask Value) (backend : MemoryDocketBackend Value) :
    MemoryDocketBackend Value :=
  (backend.insertTask task).insertPending task.id task.priority

/-! ## Claiming and reporting -/

/-- A queue entry that a worker with these subscriptions may claim. -/
def isClaimable (backend : MemoryDocketBackend Value) (taskTypes : List String)
    (id : TaskId) : Bool :=
  match backend.tasks[id]? with
  | some task => task.status = .pending && taskTypes.contains task.taskType
  | none => false

def claimed (task : DocketTask Value) (claimedAt : String) : DocketTask Value :=
  { task with status := .running, claimedAt := some claimedAt }

def dequeue (taskTypes : List String) (claimedAt : String)
    (backend : MemoryDocketBackend Value) :
    Option (DocketTask Value) × MemoryDocketBackend Value :=
  match backend.pending.findIdx? (backend.isClaimable taskTypes) with
  | none => (none, backend)
  | some position =>
    match backend.pending[position]? with
    | none => (none, backend)
    | some taskId =>
      let pending := backend.pending.eraseIdx position
      match backend.tasks[taskId]? with
      | none => (none, { backend with pending })
      | some task =>
        (some (claimed task claimedAt),
          ⟨backend.tasks.insert taskId (claimed task claimedAt), pending⟩)

def acknowledged (task : DocketTask Value) (result : Value) : DocketTask Value :=
  { task with status := .completed, result := some result }

def ack (taskId : TaskId) (result : Value) (backend : MemoryDocketBackend Value) :
    DocketResult Unit × MemoryDocketBackend Value :=
  match backend.tasks[taskId]? with
  | none => (.error (.notFound taskId), backend)
  | some task =>
    (.ok (), { backend with tasks := backend.tasks.insert taskId (acknowledged task result) })

/-- The number of attempts is a 32-bit counter. -/
def nextRetryCount (task : DocketTask Value) : Nat :=
  (task.retryCount + 1) % 2 ^ 32

/-- A task that failed for the last time. -/
def rejected (task : DocketTask Value) (error : String) : DocketTask Value :=
  { task with retryCount := nextRetryCount task, error := some error, status := .failed }

/-- A task that failed and waits for another attempt. -/
def retried (task : DocketTask Value) (error : String) : DocketTask Value :=
  { task with
    retryCount := nextRetryCount task
    error := some error
    status := .pending
    claimedAt := none }

def nack (taskId : TaskId) (error : String) (backend : MemoryDocketBackend Value) :
    DocketResult Unit × MemoryDocketBackend Value :=
  match backend.tasks[taskId]? with
  | none => (.error (.notFound taskId), backend)
  | some task =>
    if nextRetryCount task ≥ task.maxRetries then
      (.ok (), { backend with tasks := backend.tasks.insert taskId (rejected task error) })
    else
      (.ok (), ⟨backend.tasks.insert taskId (retried task error), backend.pending ++ [taskId]⟩)

def cancel (taskId : TaskId) (reason : Option String) (backend : MemoryDocketBackend Value) :
    DocketResult Unit × MemoryDocketBackend Value :=
  match backend.tasks[taskId]? with
  | none => (.error (.notFound taskId), backend)
  | some task =>
    if task.status.isTerminal then
      (.error (.backend ("Cannot cancel task in terminal state: " ++ task.status.name)), backend)
    else
      (.ok (), ⟨backend.tasks.insert taskId { task with status := .cancelled, error := reason },
        backend.pending.filter fun id => id ≠ taskId⟩)

/-! ## Claims that were held for too long -/

def isStale (timing : Timing) (now : Int) (task : DocketTask Value) : Bool :=
  task.status = .running &&
    match task.claimedAt.bind timing.parseFromRfc3339 with
    | some claimed => now - claimed > timing.timeout
    | none => false

/-- A task whose claim was held for too long and that has attempts left. -/
def requeued (task : DocketTask Value) : DocketTask Value :=
  { task with status := .pending, claimedAt := none, retryCount := nextRetryCount task }

/-- A task whose claim was held for too long for the last time. -/
def timedOut (task : DocketTask Value) : DocketTask Value :=
  { requeued task with status := .failed, error := some "Exceeded visibility timeout" }

/-- What the walk over the map does at one task, with the number of requeued tasks. -/
def requeueTask (timing : Timing) (now : Int)
    (walked : Nat × MemoryDocketBackend Value) (taskId : TaskId) :
    Nat × MemoryDocketBackend Value :=
  match walked.2.tasks[taskId]? with
  | none => walked
  | some task =>
    if isStale timing now task then
      if nextRetryCount task ≥ task.maxRetries then
        (walked.1, { walked.2 with tasks := walked.2.tasks.insert taskId (timedOut task) })
      else
        (walked.1 + 1, ⟨walked.2.tasks.insert taskId (requeued task),
          walked.2.pending ++ [task.id]⟩)
    else walked

def requeueStale (timing : Timing) (now : Int) (order : List TaskId)
    (backend : MemoryDocketBackend Value) : Nat × MemoryDocketBackend Value :=
  order.foldl (requeueTask timing now) (0, backend)

end MemoryDocketBackend

end FastMcp.Docket
