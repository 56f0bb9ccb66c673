import Mathlib.Data.List.Perm.Basic

/-! # Contests with a unique winner

Entrants come one after another, each with a rank. A contest keeps the first
entrant of the highest rank so far and notes when another one reaches the same
rank. In the end there is a winner without a tie exactly if one entrant ranks
strictly above all others, in whatever order they came.
-/

namespace FastMcp.StrictMaxima

variable {Item Key Value : Type}

/-- The best entrant so far, and the rank at which it is tied. -/
structure Contest (Value : Type) where
  selected : Option (Nat × Value) := none
  tied : Option Nat := none

def Contest.enter (contest : Contest Value) (rank : Nat) (value : Value) : Contest Value :=
  match contest.selected with
  | none => ⟨some (rank, value), none⟩
  | some (best, _) =>
    if rank > best then ⟨some (rank, value), none⟩
    else if rank = best then { contest with tied := some rank }
    else contest

/-- One entrant ranks above all others. -/
def StrictMaximum (entrants : List (Nat × Value)) (best : Nat × Value) : Prop :=
  ∃ others, entrants.Perm (best :: others) ∧ ∀ other ∈ others, other.1 < best.1

/-- What a contest says about those who entered. -/
def Contest.Reports (contest : Contest Value) (entrants : List (Nat × Value)) : Prop :=
  match contest.selected with
  | none => entrants = []
  | some best => ∃ others, entrants.Perm (best :: others) ∧
      (∀ other ∈ others, other.1 ≤ best.1) ∧
        (contest.tied.isSome = true ↔ ∃ other ∈ others, other.1 = best.1)

theorem Contest.reports_nothing : Contest.Reports ({} : Contest Value) [] := rfl

variable {contest : Contest Value} {entrants : List (Nat × Value)}

theorem Contest.Reports.enter (reports : contest.Reports entrants) (rank : Nat) (value : Value) :
    (contest.enter rank value).Reports (entrants ++ [(rank, value)]) := by
  unfold Contest.Reports at reports
  unfold Contest.enter
  cases isSelected : contest.selected with
  | none =>
    rw [isSelected] at reports
    exact ⟨[], by simp [reports], by simp⟩
  | some best =>
    rw [isSelected] at reports
    obtain ⟨others, entered, below, ties⟩ := reports
    have appended : (entrants ++ [(rank, value)]).Perm ((rank, value) :: best :: others) :=
      (List.perm_append_singleton _ _).trans (entered.cons _)
    simp only
    split
    · rename_i higher
      refine ⟨best :: others, appended, ?_, ?_⟩
      · simp only [List.forall_mem_cons]
        refine ⟨Nat.le_of_lt higher, fun other listed => ?_⟩
        exact Nat.le_trans (below other listed) (Nat.le_of_lt higher)
      · simp only [Option.isSome_none, Bool.false_eq_true, List.mem_cons, exists_eq_or_imp,
          false_iff, not_or, not_exists, not_and]
        refine ⟨Nat.ne_of_lt higher, fun other listed => ?_⟩
        exact Nat.ne_of_lt (Nat.lt_of_le_of_lt (below other listed) higher)
    · rename_i notHigher
      have swapped := appended.trans (List.Perm.swap best (rank, value) others)
      split
      · rename_i same
        unfold Contest.Reports
        simp only
        refine ⟨(rank, value) :: others, swapped, ?_, ?_⟩
        · simp only [List.forall_mem_cons]
          exact ⟨Nat.le_of_eq same, below⟩
        · simp [same]
      · rename_i different
        unfold Contest.Reports
        simp only [isSelected]
        refine ⟨(rank, value) :: others, swapped, ?_, ?_⟩
        · simp only [List.forall_mem_cons]
          exact ⟨Nat.le_of_not_lt notHigher, below⟩
        · simpa [different] using ties

/-- The winner of a contest without a tie ranks strictly above all others. -/
theorem Contest.Reports.winner (reports : contest.Reports entrants) {best : Nat × Value} :
    contest.selected = some best ∧ contest.tied = none ↔ StrictMaximum entrants best := by
  unfold Contest.Reports at reports
  cases isSelected : contest.selected with
  | none =>
    rw [isSelected] at reports
    constructor
    · rintro ⟨impossible, -⟩
      contradiction
    · rintro ⟨others, entered, -⟩
      rw [reports] at entered
      exact absurd entered.symm (by simp)
  | some found =>
    rw [isSelected] at reports
    obtain ⟨others, entered, below, ties⟩ := reports
    constructor
    · rintro ⟨isBest, untied⟩
      cases isBest
      refine ⟨others, entered, fun other listed => ?_⟩
      apply Nat.lt_of_le_of_ne (below other listed)
      intro same
      have tied := ties.mpr ⟨other, listed, same⟩
      simp [untied] at tied
    · rintro ⟨losers, enteredToo, losing⟩
      -- Neither of the two can rank above the other.
      have same : found = best := by
        by_contra different
        have foundLoses : found ∈ best :: losers :=
          (entered.symm.trans enteredToo).subset List.mem_cons_self
        have bestFollows : best ∈ found :: others :=
          (enteredToo.symm.trans entered).subset List.mem_cons_self
        have lower := losing found
          ((List.mem_cons.mp foundLoses).resolve_left different)
        have higher := below best
          ((List.mem_cons.mp bestFollows).resolve_left (Ne.symm different))
        omega
      subst same
      have sameOthers : others.Perm losers := (entered.symm.trans enteredToo).cons_inv
      refine ⟨rfl, ?_⟩
      rw [← Option.not_isSome_iff_eq_none, ties]
      rintro ⟨other, listed, tie⟩
      exact Nat.ne_of_lt (losing other (sameOthers.subset listed)) tie

/-- The strict maximum of items that are told apart by a key. -/
theorem strictMaximum_map {items : List Item} {key : Item → Key} {rank : Item → Nat}
    {value : Item → Value} (distinct : (items.map key).Nodup) {best : Nat × Value} :
    StrictMaximum (items.map fun item => (rank item, value item)) best ↔
      ∃ item ∈ items, best = (rank item, value item) ∧
        ∀ other ∈ items, key other ≠ key item → rank other < rank item := by
  constructor
  · rintro ⟨others, entered, losing⟩
    obtain ⟨item, listed, isBest⟩ := List.mem_map.mp (entered.symm.subset List.mem_cons_self)
    obtain ⟨before, after, rfl⟩ := List.append_of_mem listed
    refine ⟨item, listed, isBest.symm, fun other otherListed different => ?_⟩
    have middle : (before ++ item :: after).Perm (item :: (before ++ after)) := List.perm_middle
    have moved := middle.map fun item => (rank item, value item)
    rw [List.map_cons, isBest] at moved
    have sameOthers := (moved.symm.trans entered).cons_inv
    have remaining : other ∈ before ++ after := by
      rcases List.mem_cons.mp (List.perm_middle.subset otherListed) with rfl | remaining
      · exact absurd rfl different
      · exact remaining
    have lost := losing _ (sameOthers.subset (List.mem_map_of_mem remaining))
    rwa [← isBest] at lost
  · rintro ⟨item, listed, rfl, above⟩
    obtain ⟨before, after, rfl⟩ := List.append_of_mem listed
    refine ⟨(before ++ after).map fun item => (rank item, value item), ?_, ?_⟩
    · exact List.perm_middle.map fun item => (rank item, value item)
    · intro entrant entered
      obtain ⟨other, remaining, rfl⟩ := List.mem_map.mp entered
      have different : key other ≠ key item := by
        have moved := (List.perm_middle.map key).nodup_iff.mp distinct
        rw [List.map_cons, List.nodup_cons] at moved
        intro same
        exact moved.1 (same ▸ List.mem_map_of_mem remaining)
      exact above other (List.perm_middle.symm.subset (List.mem_cons_of_mem _ remaining)) different

end FastMcp.StrictMaxima
