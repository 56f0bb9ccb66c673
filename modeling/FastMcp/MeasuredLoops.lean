import Mathlib.Init

/-! # Loops that a measure bounds

A loop is given by what one turn does: it ends with a result, or it goes on from
a state with a smaller measure. It therefore always has a result, and what it
does is known from its turns.
-/

namespace FastMcp.MeasuredLoops

inductive Turn (State Result : Type) where
  | done (result : Result)
  | again (state : State)

/-- A loop body with a measure that each further turn decreases. -/
structure Loop (State Result : Type) where
  turn : State → Turn State Result
  measure : State → Nat
  decreases : ∀ {state next : State}, turn state = .again next → measure next < measure state

namespace Loop

variable {State Result : Type}

def run (loop : Loop State Result) (state : State) : Result :=
  match _taken : loop.turn state with
  | .done result => result
  | .again next => loop.run next
termination_by loop.measure state
decreasing_by exact loop.decreases _taken

variable {loop : Loop State Result}

theorem run_of_done {state : State} {result : Result} (taken : loop.turn state = .done result) :
    loop.run state = result := by
  rw [run]
  split
  · rename_i other done
    exact Turn.done.inj (done.symm.trans taken)
  · rename_i next again
    exact nomatch again.symm.trans taken

theorem run_of_again {state next : State} (taken : loop.turn state = .again next) :
    loop.run state = loop.run next := by
  rw [run]
  split
  · rename_i other done
    exact nomatch done.symm.trans taken
  · rename_i other again
    rw [Turn.again.inj (again.symm.trans taken)]

/-- What holds of a state whenever it holds after a turn that goes on holds of every state. -/
theorem induct {holds : State → Prop}
    (turn : ∀ state, (∀ next, loop.turn state = .again next → holds next) → holds state)
    (state : State) : holds state := by
  induction size : loop.measure state using Nat.strongRecOn generalizing state with
  | ind bound ih =>
    refine turn state fun next taken => ih _ ?_ next rfl
    rw [← size]
    exact loop.decreases taken

end Loop

end FastMcp.MeasuredLoops
