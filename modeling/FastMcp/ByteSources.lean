import FastMcp.ByteText

/-! # Byte sources that deliver as they please

A source holds the bytes that are still to come and a plan of its answers. It
answers a read by an interruption or by some of the bytes, at least one unless
the stream is at its end. Once the plan is used up it delivers as much as it is
asked for.
-/

namespace FastMcp.ByteSources

open ByteText

inductive Delivery where
  | interrupted
  /-- At most one byte more than the given number. -/
  | upTo (more : Nat)
deriving DecidableEq, Repr

/-- The bytes that are still to come, and how the coming reads hand them over. -/
structure ByteSource where
  remaining : Bytes
  plan : List Delivery
deriving DecidableEq, Repr

namespace ByteSource

/-- One read into a buffer of the given capacity. An interrupted read has no
result. -/
def read (source : ByteSource) (capacity : Nat) : Option Bytes × ByteSource :=
  match source.plan with
  | [] => (some (source.remaining.take capacity), ⟨source.remaining.drop capacity, []⟩)
  | .interrupted :: plan => (none, ⟨source.remaining, plan⟩)
  | .upTo more :: plan =>
    (some (source.remaining.take (min capacity (more + 1))),
      ⟨source.remaining.drop (min capacity (more + 1)), plan⟩)

/-- A read that is not interrupted takes bytes off the front of the stream: at
most as many as asked for, and some unless the stream is at its end. -/
theorem read_eq_some {source next : ByteSource} {capacity : Nat} {result : Bytes}
    (answered : source.read capacity = (some result, next)) :
    source.remaining = result ++ next.remaining ∧ result.length ≤ capacity ∧
      (0 < capacity → (result = [] ↔ source.remaining = [])) := by
  have taken (count : Nat) (most : count ≤ capacity) (counts : 0 < capacity → 0 < count) :
      source.remaining = source.remaining.take count ++ source.remaining.drop count ∧
        (source.remaining.take count).length ≤ capacity ∧
          (0 < capacity → (source.remaining.take count = [] ↔ source.remaining = [])) := by
    refine ⟨(List.take_append_drop _ _).symm, ?_, fun positive => ?_⟩
    · rw [List.length_take]
      omega
    · rw [List.take_eq_nil_iff]
      have counted := counts positive
      constructor
      · rintro (zero | empty)
        · omega
        · exact empty
      · exact .inr
  unfold read at answered
  split at answered
  · simp only [Prod.mk.injEq, Option.some.injEq] at answered
    obtain ⟨rfl, rfl⟩ := answered
    exact taken capacity (Nat.le_refl _) id
  · simp at answered
  · simp only [Prod.mk.injEq, Option.some.injEq] at answered
    obtain ⟨rfl, rfl⟩ := answered
    exact taken _ (by omega) (by omega)

theorem plan_read_le (source : ByteSource) (capacity : Nat) :
    (source.read capacity).2.plan.length ≤ source.plan.length := by
  unfold read
  split
  · simp
  all_goals
    rename_i plan
    simp [plan]

end ByteSource

end FastMcp.ByteSources
