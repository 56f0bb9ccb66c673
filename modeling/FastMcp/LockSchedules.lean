import FastMcp.TransitionRuns
import Mathlib.Logic.Function.Basic

/-! # Threads that take locks

Threads run programs that acquire and release shared locks. A lock may be held
for reading by several threads or for writing by one. Threads whose programs
acquire locks in the order of a rank never all wait for each other.
-/

namespace FastMcp.LockSchedules

open TransitionRuns

inductive Mode where
  | read
  | write
deriving DecidableEq, Repr

/-- Two threads cannot hold one lock in these modes at the same time. -/
def Mode.conflicts : Mode → Mode → Bool
  | .read, .read => false
  | _, _ => true

inductive Action (Lock : Type) where
  | acquire (lock : Lock) (mode : Mode)
  | release (lock : Lock)
deriving DecidableEq, Repr

/-- A thread with the rest of its program. A thread with nothing left is idle. -/
structure Thread (Lock : Type) where
  held : List (Lock × Mode)
  remaining : List (Action Lock)

def Thread.idle {Lock : Type} : Thread Lock := ⟨[], []⟩

variable {Lock Name : Type} [DecidableEq Lock] [DecidableEq Name]

/-- The thread `other` holds a lock in a mode that excludes this one. -/
def HeldAgainst (threads : Name → Thread Lock) (lock : Lock) (mode : Mode) (other : Name) :
    Prop :=
  ∃ taken, (lock, taken) ∈ (threads other).held ∧ mode.conflicts taken = true

/-- One thread starts an offered program, acquires a lock that nobody holds against it, or
releases a lock. -/
inductive Step (offered : List (Action Lock) → Prop) :
    (Name → Thread Lock) → (Name → Thread Lock) → Prop where
  | start {threads : Name → Thread Lock} {name : Name} {program : List (Action Lock)}
      (idle : (threads name).remaining = []) (offer : offered program) :
      Step offered threads (Function.update threads name ⟨(threads name).held, program⟩)
  | acquire {threads : Name → Thread Lock} {name : Name} {lock : Lock} {mode : Mode}
      {rest : List (Action Lock)} (next : (threads name).remaining = .acquire lock mode :: rest)
      (free : ∀ other, other ≠ name → ¬ HeldAgainst threads lock mode other) :
      Step offered threads
        (Function.update threads name ⟨(lock, mode) :: (threads name).held, rest⟩)
  | release {threads : Name → Thread Lock} {name : Name} {lock : Lock}
      {rest : List (Action Lock)} (next : (threads name).remaining = .release lock :: rest) :
      Step offered threads
        (Function.update threads name
          ⟨(threads name).held.filter fun taken => taken.1 ≠ lock, rest⟩)

section Update

variable {offered : List (Action Lock) → Prop} {threads : Name → Thread Lock} {name : Name}
  {held : List (Lock × Mode)} {lock : Lock} {mode : Mode} {rest program : List (Action Lock)}

theorem Step.start_update (offer : offered program) (idle : threads name = Thread.idle) :
    Step offered threads (Function.update threads name ⟨[], program⟩) := by
  have step := Step.start (by rw [idle]; rfl : (threads name).remaining = []) offer
  rwa [idle] at step

theorem Step.acquire_update
    (free : ∀ other, other ≠ name → ∀ taken, (lock, taken) ∉ (threads other).held) :
    Step offered (Function.update threads name ⟨held, .acquire lock mode :: rest⟩)
      (Function.update threads name ⟨(lock, mode) :: held, rest⟩) := by
  have step := @Step.acquire _ _ _ _ offered
    (Function.update threads name ⟨held, .acquire lock mode :: rest⟩) name lock mode rest
    (by rw [Function.update_self]) ?_
  · simpa using step
  · rintro other different ⟨taken, holds, -⟩
    rw [Function.update_of_ne different] at holds
    exact free other different taken holds

theorem Step.release_update :
    Step offered (Function.update threads name ⟨held, .release lock :: rest⟩)
      (Function.update threads name ⟨held.filter fun taken => taken.1 ≠ lock, rest⟩) := by
  have step := @Step.release _ _ _ _ offered
    (Function.update threads name ⟨held, .release lock :: rest⟩) name lock rest
    (by rw [Function.update_self])
  simpa using step

end Update

/-- The thread is about to acquire a lock that another one holds against it. -/
def Waits (threads : Name → Thread Lock) (name : Name) : Prop :=
  ∃ lock mode rest, (threads name).remaining = .acquire lock mode :: rest ∧
    ∃ other, other ≠ name ∧ HeldAgainst threads lock mode other

/-- Some thread is inside a program, and every such thread waits. -/
def Deadlocked (threads : Name → Thread Lock) : Prop :=
  (∃ name, (threads name).remaining ≠ []) ∧
    ∀ name, (threads name).remaining ≠ [] → Waits threads name

/-! ## Ranked acquisition -/

/-- From these held locks on, the program acquires only locks of a rank above all it holds,
and it ends with none. -/
def Ascending (rank : Lock → Nat) : List (Lock × Mode) → List (Action Lock) → Prop
  | held, [] => held = []
  | held, .acquire lock mode :: rest =>
    (∀ taken ∈ held, rank taken.1 < rank lock) ∧ Ascending rank ((lock, mode) :: held) rest
  | held, .release lock :: rest =>
    Ascending rank (held.filter fun taken => taken.1 ≠ lock) rest

instance (rank : Lock → Nat) : ∀ held program, Decidable (Ascending rank held program)
  | held, [] => inferInstanceAs (Decidable (held = []))
  | held, .acquire lock mode :: rest =>
    have := instDecidableAscending rank ((lock, mode) :: held) rest
    inferInstanceAs (Decidable (_ ∧ _))
  | held, .release lock :: rest =>
    instDecidableAscending rank (held.filter fun taken => taken.1 ≠ lock) rest

/-- Every thread goes on in ascending order. -/
def Disciplined (rank : Lock → Nat) (threads : Name → Thread Lock) : Prop :=
  ∀ name, Ascending rank (threads name).held (threads name).remaining

variable {rank : Lock → Nat} {offered : List (Action Lock) → Prop}
  {threads next : Name → Thread Lock}

theorem Disciplined.update (disciplined : Disciplined rank threads) {name : Name}
    {thread : Thread Lock} (ascending : Ascending rank thread.held thread.remaining) :
    Disciplined rank (Function.update threads name thread) := by
  intro other
  by_cases same : other = name
  · subst same
    rw [Function.update_self]
    exact ascending
  · rw [Function.update_of_ne same]
    exact disciplined other

theorem Disciplined.step (ascending : ∀ program, offered program → Ascending rank [] program)
    (disciplined : Disciplined rank threads) (step : Step offered threads next) :
    Disciplined rank next := by
  cases step with
  | @start name program idle offer =>
    have current := disciplined name
    rw [idle] at current
    refine disciplined.update ?_
    rw [show (threads name).held = [] from current]
    exact ascending program offer
  | @acquire name lock mode rest upcoming free =>
    have current := disciplined name
    rw [upcoming] at current
    exact disciplined.update current.2
  | @release name lock rest upcoming =>
    have current := disciplined name
    rw [upcoming] at current
    exact disciplined.update current

omit [DecidableEq Name] in
/-- A thread that holds a lock is inside its program. -/
theorem Disciplined.busy (disciplined : Disciplined rank threads) {name : Name}
    {taken : Lock × Mode} (holds : taken ∈ (threads name).held) :
    (threads name).remaining ≠ [] := by
  intro done
  have current := disciplined name
  rw [done] at current
  rw [show (threads name).held = [] from current] at holds
  cases holds

omit [DecidableEq Name] in
/-- Whoever waits for a lock waits for a holder that itself waits for a lock of higher rank,
so the ranks bound how long such a chain can be. -/
theorem Disciplined.not_deadlocked {bound : Nat} (bounded : ∀ lock, rank lock < bound)
    (disciplined : Disciplined rank threads) : ¬ Deadlocked threads := by
  rintro ⟨⟨name, inside⟩, allWait⟩
  have unawaited : ∀ distance name lock mode rest, bound - rank lock = distance →
      (threads name).remaining ≠ .acquire lock mode :: rest := by
    intro distance
    induction distance using Nat.strongRecOn with
    | ind distance ih =>
      intro name lock mode rest measured upcoming
      obtain ⟨lock', mode', rest', same, other, -, taken, holds, -⟩ :=
        allWait name (by rw [upcoming]; simp)
      rw [upcoming] at same
      cases same
      obtain ⟨higher, highMode, after, blocked, -⟩ := allWait other (disciplined.busy holds)
      have current := disciplined other
      rw [blocked] at current
      have above : rank lock < rank higher := current.1 _ holds
      have below := bounded higher
      exact ih (bound - rank higher) (by omega) other higher highMode after rfl blocked
  obtain ⟨lock, mode, rest, upcoming, -⟩ := allWait name inside
  exact unawaited _ name lock mode rest rfl upcoming

/-- Threads that only run ranked programs never deadlock. -/
theorem ascending_not_deadlocked {bound : Nat} (bounded : ∀ lock, rank lock < bound)
    (ascending : ∀ program, offered program → Ascending rank [] program)
    (reached : Reachable (Step offered) (fun _ => Thread.idle) threads) :
    ¬ Deadlocked threads := by
  have disciplined : Disciplined rank threads :=
    reached.invariant (fun _ => rfl) fun _ _ disciplined step => disciplined.step ascending step
  exact disciplined.not_deadlocked bounded

end FastMcp.LockSchedules
