import Mathlib.Data.List.Basic

/-! # Sliding windows over event times

A limiter remembers the times of recent events and forgets a time once it lies
more than the width of the window in the past. Among times in order, what it
remembers is then exactly what the window holds.
-/

namespace FastMcp.SlidingWindows

/-- How many of the times lie in the closed interval of the width that ends here. -/
def within (width stop : Nat) (times : List Nat) : Nat :=
  times.countP fun time => stop ≤ time + width ∧ time ≤ stop

/-- The times that are at most the width in the past. -/
def recent (width now : Nat) (times : List Nat) : List Nat :=
  times.filter fun time => now ≤ time + width

/-- Forgets the times before the window that ends now. -/
def expire (width now : Nat) (kept : List Nat) : List Nat :=
  if width ≤ now then kept.dropWhile fun time => time < now - width else kept

variable {width now later : Nat} {times kept : List Nat}

theorem within_eq_length_recent (past : ∀ time ∈ times, time ≤ now) :
    within width now times = (recent width now times).length := by
  rw [within, recent, ← List.countP_eq_length_filter]
  apply List.countP_congr
  intro time listed
  simp [past time listed]

theorem recent_recent (after : now ≤ later) :
    recent width later (recent width now times) = recent width later times := by
  rw [recent, recent, recent, List.filter_filter]
  apply List.filter_congr
  intro time _
  rw [← Bool.decide_and, decide_eq_decide]
  omega

theorem expire_eq_recent (sorted : kept.Pairwise (· ≤ ·)) :
    expire width now kept = recent width now kept := by
  unfold expire recent
  split
  · rename_i wide
    induction kept with
    | nil => rfl
    | cons time kept ih =>
      obtain ⟨first, sorted⟩ := List.pairwise_cons.mp sorted
      by_cases old : time < now - width
      · rw [List.dropWhile_cons_of_pos (by simpa using old), ih sorted,
          List.filter_cons_of_neg (by simp; omega)]
      · rw [List.dropWhile_cons_of_neg (by simpa using old), eq_comm, List.filter_eq_self]
        intro other listed
        have notBefore : time ≤ other := by
          rcases List.mem_cons.mp listed with rfl | listed
          · exact Nat.le_refl _
          · exact first other listed
        simp only [decide_eq_true_eq]
        omega
  · rw [eq_comm, List.filter_eq_self]
    intro time listed
    simp only [decide_eq_true_eq]
    omega

/-- Once the oldest of the remembered times is out of the window, the window holds fewer. -/
theorem length_recent_lt {oldest : Nat} (isOldest : kept.head? = some oldest)
    (old : oldest + width < later) : (recent width later kept).length < kept.length := by
  cases kept with
  | nil => contradiction
  | cons first rest =>
    cases isOldest
    rw [recent, List.filter_cons_of_neg (by simpa using old)]
    exact Nat.lt_succ_of_le (List.length_filter_le _ rest)

end FastMcp.SlidingWindows
