import Mathlib.Data.List.Basic

/-! # Cutting texts into pieces

Splitting a text at its first separator, and finding the place of that separator.
-/

namespace FastMcp.TextCutting

variable {Symbol : Type} [DecidableEq Symbol]

/-- The text before and after the first separator. -/
def splitOnce (separator : Symbol) : List Symbol → Option (List Symbol × List Symbol)
  | [] => none
  | first :: rest =>
    if first = separator then some ([], rest)
    else (splitOnce separator rest).map fun pieces => (first :: pieces.1, pieces.2)

theorem splitOnce_eq_some {separator : Symbol} {text before after : List Symbol} :
    splitOnce separator text = some (before, after) ↔
      text = before ++ separator :: after ∧ separator ∉ before := by
  induction text generalizing before with
  | nil => simp [splitOnce]
  | cons first rest ih =>
    rw [splitOnce]
    split
    · rename_i same
      subst same
      cases before with
      | nil => simp [eq_comm]
      | cons other before =>
        simp only [Option.some.injEq, Prod.mk.injEq, reduceCtorEq, false_and, List.cons_append,
          List.cons.injEq, List.mem_cons, not_or, false_iff, not_and]
        rintro ⟨rfl, -⟩ other
        exact absurd rfl other
    · rename_i other
      cases before with
      | nil => simp [other]
      | cons symbol before =>
        have step := @ih before
        simp only [Option.map_eq_some_iff, Prod.exists, Prod.mk.injEq, List.cons.injEq,
          List.cons_append, List.mem_cons, not_or]
        constructor
        · rintro ⟨front, back, found, ⟨rfl, rfl⟩, rfl⟩
          obtain ⟨rfl, absent⟩ := step.mp found
          exact ⟨⟨rfl, rfl⟩, fun same => other same.symm, absent⟩
        · rintro ⟨⟨rfl, equal⟩, -, absent⟩
          exact ⟨before, after, step.mpr ⟨equal, absent⟩, ⟨rfl, rfl⟩, rfl⟩

theorem splitOnce_eq_none {separator : Symbol} {text : List Symbol} :
    splitOnce separator text = none ↔ separator ∉ text := by
  induction text with
  | nil => simp [splitOnce]
  | cons first rest ih =>
    rw [splitOnce]
    split
    · rename_i same
      simp [same]
    · rename_i other
      rw [Option.map_eq_none_iff, ih, List.mem_cons, not_or]
      exact (and_iff_right (Ne.symm other)).symm

/-- A text is cut at its first separator in one way only. -/
theorem cut_injective {separator : Symbol} {before after otherBefore otherAfter : List Symbol}
    (absent : separator ∉ before) (otherAbsent : separator ∉ otherBefore)
    (same : before ++ separator :: after = otherBefore ++ separator :: otherAfter) :
    before = otherBefore ∧ after = otherAfter := by
  have cut : splitOnce separator (before ++ separator :: after) = some (before, after) :=
    splitOnce_eq_some.mpr ⟨rfl, absent⟩
  rw [same, splitOnce_eq_some.mpr ⟨rfl, otherAbsent⟩, Option.some.injEq, Prod.mk.injEq] at cut
  exact ⟨cut.1.symm, cut.2.symm⟩

/-- The place of the first separator. -/
def find (separator : Symbol) (text : List Symbol) : Option Nat :=
  (splitOnce separator text).map fun pieces => pieces.1.length

theorem find_eq_none {separator : Symbol} {text : List Symbol} :
    find separator text = none ↔ separator ∉ text := by
  rw [find, Option.map_eq_none_iff, splitOnce_eq_none]

theorem find_append {separator : Symbol} {before : List Symbol} (absent : separator ∉ before)
    (after : List Symbol) : find separator (before ++ separator :: after) = some before.length := by
  rw [find, splitOnce_eq_some.mpr ⟨rfl, absent⟩]
  rfl

theorem exists_of_find {separator : Symbol} {text : List Symbol} {place : Nat}
    (found : find separator text = some place) :
    ∃ before after, text = before ++ separator :: after ∧ separator ∉ before ∧
      before.length = place := by
  obtain ⟨⟨before, after⟩, split, isPlace⟩ := Option.map_eq_some_iff.mp found
  obtain ⟨isText, absent⟩ := splitOnce_eq_some.mp split
  exact ⟨before, after, isText, absent, isPlace⟩

end FastMcp.TextCutting
