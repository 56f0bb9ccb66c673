import FastMcp.LockSchedules

/-! # The locks of the in-memory task queue

The backend keeps its tasks and its queue behind two locks. Each method is the
sequence in which it acquires and releases them, with the guards dropped in the
reverse order of their declaration.
-/

namespace FastMcp.Docket

open LockSchedules TransitionRuns

inductive BackendLock where
  | tasks
  | pending
deriving DecidableEq, Repr

/-- The methods of the backend, without their arguments. -/
inductive Method where
  | enqueue
  | dequeue
  | ack
  | nack
  | cancel
  | requeueStale
  | stats
deriving DecidableEq, Repr

def Method.locking : Method → List (Action BackendLock)
  | enqueue =>
    -- the map is written in a block of its own before the queue is locked
    [.acquire .tasks .write, .release .tasks,
      .acquire .pending .write, .acquire .tasks .read, .release .tasks, .release .pending]
  | dequeue =>
    [.acquire .pending .write, .acquire .tasks .write, .release .tasks, .release .pending]
  | ack => [.acquire .tasks .write, .release .tasks]
  | nack =>
    [.acquire .tasks .write, .acquire .pending .write, .release .pending, .release .tasks]
  | cancel =>
    [.acquire .tasks .write, .acquire .pending .write, .release .pending, .release .tasks]
  | requeueStale =>
    [.acquire .tasks .write, .acquire .pending .write, .release .pending, .release .tasks]
  | stats => [.acquire .tasks .read, .release .tasks]

/-- The method asks for the map while it holds the queue. -/
def Method.locksQueueFirst : Method → Bool
  | enqueue => true
  | dequeue => true
  | _ => false

/-- The method asks for the queue while it holds the map. -/
def Method.locksMapFirst : Method → Bool
  | nack => true
  | cancel => true
  | requeueStale => true
  | _ => false

/-- Threads that call only these methods. -/
abbrev Calls {Name : Type} [DecidableEq Name] (called : Method → Prop) :
    (Name → Thread BackendLock) → (Name → Thread BackendLock) → Prop :=
  Step fun program => ∃ method, called method ∧ program = method.locking

/-! ## One order of the locks -/

def mapFirst : BackendLock → Nat
  | .tasks => 0
  | .pending => 1

def queueFirst : BackendLock → Nat
  | .pending => 0
  | .tasks => 1

theorem mapFirst_lt (lock : BackendLock) : mapFirst lock < 2 := by
  cases lock <;> decide

theorem queueFirst_lt (lock : BackendLock) : queueFirst lock < 2 := by
  cases lock <;> decide

theorem ascending_mapFirst {method : Method} (order : method.locksQueueFirst = false) :
    Ascending mapFirst [] method.locking := by
  cases method <;> first | decide | cases order

theorem ascending_queueFirst {method : Method} (order : method.locksMapFirst = false) :
    Ascending queueFirst [] method.locking := by
  cases method <;> first | decide | cases order

/-! ## Both orders of the locks -/

section Both

variable {called : Method → Prop}

/-- Nobody is inside a method. -/
def allIdle {Name : Type} : Name → Thread BackendLock := fun _ => Thread.idle

/-- A thread alone comes to hold the queue and asks for the map. -/
theorem reaches_queueFirst {method : Method} (order : method.locksQueueFirst = true)
    (call : called method) :
    ∃ mode rest, Reachable (Calls called) allIdle
      (Function.update allIdle (0 : Fin 2)
        ⟨[(.pending, .write)], .acquire .tasks mode :: rest⟩) := by
  have first : Calls called allIdle
      (Function.update allIdle (0 : Fin 2) ⟨[], method.locking⟩) :=
    .start_update ⟨method, call, rfl⟩ rfl
  have begun := Reachable.start.extend first
  have free : ∀ (lock : BackendLock) (other : Fin 2), other ≠ 0 → ∀ taken,
      (lock, taken) ∉ (allIdle other).held := by simp [allIdle, Thread.idle]
  cases method <;> try cases order
  case enqueue =>
    exact ⟨_, _, ((begun.extend (.acquire_update (free _))).extend .release_update).extend
      (.acquire_update (free _))⟩
  case dequeue => exact ⟨_, _, begun.extend (.acquire_update (free _))⟩

/-- Another thread then comes to hold the map and asks for the queue. -/
theorem reaches_mapFirst {method : Method} (order : method.locksMapFirst = true)
    (call : called method) {mode : Mode} {rest : List (Action BackendLock)}
    (reached : Reachable (Calls called) allIdle
      (Function.update allIdle (0 : Fin 2)
        ⟨[(.pending, .write)], .acquire .tasks mode :: rest⟩)) :
    ∃ later, Reachable (Calls called) allIdle
      (Function.update (Function.update allIdle (0 : Fin 2)
          ⟨[(.pending, .write)], .acquire .tasks mode :: rest⟩) 1
        ⟨[(.tasks, .write)], .acquire .pending .write :: later⟩) := by
  have second := reached.extend (Step.start_update ⟨method, call, rfl⟩
    (Function.update_of_ne (by decide : (1 : Fin 2) ≠ 0) _ _))
  have free : ∀ other : Fin 2, other ≠ 1 → ∀ taken, (BackendLock.tasks, taken) ∉
      (Function.update allIdle (0 : Fin 2)
        ⟨[(.pending, .write)], .acquire .tasks mode :: rest⟩ other).held := by
    intro other different taken
    have zero : other = 0 := by omega
    subst zero
    simp
  cases method <;> try cases order
  case nack => exact ⟨_, second.extend (.acquire_update free)⟩
  case cancel => exact ⟨_, second.extend (.acquire_update free)⟩
  case requeueStale => exact ⟨_, second.extend (.acquire_update free)⟩

/-- Each of the two threads holds the lock that the other one asks for. -/
theorem crossed_deadlocked (mode : Mode) (rest later : List (Action BackendLock)) :
    Deadlocked (Function.update (Function.update allIdle (0 : Fin 2)
        ⟨[(.pending, .write)], .acquire .tasks mode :: rest⟩) 1
      ⟨[(.tasks, .write)], .acquire .pending .write :: later⟩) := by
  refine ⟨⟨1, by simp⟩, fun name inside => ?_⟩
  obtain rfl | rfl : name = 0 ∨ name = 1 := by omega
  · refine ⟨.tasks, mode, rest, by simp, 1, by decide, .write, by simp, ?_⟩
    cases mode <;> rfl
  · exact ⟨.pending, .write, later, by simp, 0, by decide, .write, by simp, rfl⟩

end Both

/-- Whatever their number, threads that call these methods never deadlock exactly if no two of
the methods take the locks in opposite orders. -/
theorem deadlock_free_iff (called : Method → Prop) :
    (∀ (count : Nat) (threads : Fin count → Thread BackendLock),
      Reachable (Calls called) allIdle threads → ¬ Deadlocked threads) ↔
    ¬ ((∃ method, called method ∧ method.locksQueueFirst = true) ∧
      ∃ method, called method ∧ method.locksMapFirst = true) := by
  constructor
  · rintro free ⟨⟨queueMethod, queueCall, queueOrder⟩, mapMethod, mapCall, mapOrder⟩
    obtain ⟨mode, rest, waiting⟩ := reaches_queueFirst queueOrder queueCall
    obtain ⟨later, both⟩ := reaches_mapFirst mapOrder mapCall waiting
    exact free 2 _ both (crossed_deadlocked mode rest later)
  · intro oneOrder count threads reached
    by_cases queued : ∃ method, called method ∧ method.locksQueueFirst = true
    · refine ascending_not_deadlocked queueFirst_lt ?_ reached
      rintro _ ⟨method, call, rfl⟩
      refine ascending_queueFirst (Bool.eq_false_iff.mpr fun order => ?_)
      exact oneOrder ⟨queued, method, call, order⟩
    · refine ascending_not_deadlocked mapFirst_lt ?_ reached
      rintro _ ⟨method, call, rfl⟩
      exact ascending_mapFirst (Bool.eq_false_iff.mpr fun order => queued ⟨method, call, order⟩)

/-- A worker asks for a task while another one reports a failure: each holds the lock that the
other one needs. -/
theorem dequeue_nack_deadlock :
    ∃ threads : Fin 2 → Thread BackendLock,
      Reachable (Calls fun method => method = .dequeue ∨ method = .nack) allIdle threads ∧
        Deadlocked threads := by
  obtain ⟨mode, rest, waiting⟩ :=
    @reaches_queueFirst (fun method => method = .dequeue ∨ method = .nack) .dequeue rfl (.inl rfl)
  obtain ⟨later, both⟩ := @reaches_mapFirst _ .nack rfl (.inr rfl) _ _ waiting
  exact ⟨_, both, crossed_deadlocked mode rest later⟩

end FastMcp.Docket
