import Mathlib.Algebra.Order.BigOperators.Group.List
import Mathlib.Algebra.Ring.Nat
import Mathlib.Data.List.AList

/-! # Totals over association lists

The total weight of the values of an association list, and how it and the number
of entries change with the list.
-/

namespace FastMcp.EntryTotals

variable {Key Value : Type} {weight : Value → Nat}

/-- The sum of the weights of all values. -/
def total (weight : Value → Nat) (entries : AList fun _ : Key => Value) : Nat :=
  (entries.entries.map fun entry => weight entry.2).sum

/-- Keeps the entries that satisfy a test. -/
def retain (keep : Key → Value → Bool) (entries : AList fun _ : Key => Value) :
    AList fun _ : Key => Value where
  entries := entries.entries.filter fun entry => keep entry.1 entry.2
  nodupKeys := entries.nodupKeys.sublist List.filter_sublist

theorem total_perm {entries other : AList fun _ : Key => Value}
    (reordered : entries.entries.Perm other.entries) : total weight entries = total weight other :=
  (reordered.map _).sum_eq

/-- What is kept and what is dropped add up. -/
theorem total_retain (keep : Key → Value → Bool) (entries : AList fun _ : Key => Value) :
    total weight (retain keep entries) +
      total weight (retain (fun key value => !keep key value) entries) = total weight entries := by
  simp only [total, retain]
  induction entries.entries with
  | nil => rfl
  | cons entry rest ih =>
    by_cases kept : keep entry.1 entry.2 = true <;> simp [kept] <;> omega

theorem length_retain_le (keep : Key → Value → Bool) (entries : AList fun _ : Key => Value) :
    (retain keep entries).entries.length ≤ entries.entries.length :=
  List.length_filter_le _ _

variable [DecidableEq Key] {entries : AList fun _ : Key => Value} {key other : Key} {value : Value}

/-- An entry is found where it is not dropped. -/
theorem lookup_retain {keep : Key → Value → Bool} :
    (retain keep entries).lookup key = some value ↔
      entries.lookup key = some value ∧ keep key value = true := by
  rw [← Option.mem_def, ← Option.mem_def, AList.mem_lookup_iff, AList.mem_lookup_iff, retain,
    List.mem_filter]

theorem lookup_retain_eq_filter (keep : Key → Value → Bool) (key : Key) :
    (retain keep entries).lookup key = (entries.lookup key).filter (keep key) := by
  ext value
  rw [lookup_retain, Option.filter_eq_some_iff]

/-- The weight at one key. -/
def weightAt (weight : Value → Nat) (entries : AList fun _ : Key => Value) (key : Key) : Nat :=
  ((entries.lookup key).map weight).getD 0

/-- A list that names every key once. -/
theorem perm_keys {order : List Key} (once : order.Nodup)
    (listed : ∀ key, key ∈ order ↔ (entries.lookup key).isSome) : order.Perm entries.keys := by
  refine (List.perm_ext_iff_of_nodup once entries.keys_nodup).mpr fun key => ?_
  rw [listed key, AList.lookup_isSome, AList.mem_keys]

/-- The total over a list that names every key once. -/
theorem total_eq_sum {order : List Key} (once : order.Nodup)
    (listed : ∀ key, key ∈ order ↔ (entries.lookup key).isSome) :
    total weight entries = (order.map (weightAt weight entries)).sum := by
  rw [((perm_keys once listed).map _).sum_eq, AList.keys, List.keys, List.map_map, total]
  refine congrArg List.sum (List.map_congr_left fun entry isEntry => ?_)
  have found : entries.lookup entry.1 = some entry.2 := AList.mem_lookup_iff.mpr isEntry
  simp [weightAt, found]

theorem length_eq {order : List Key} (once : order.Nodup)
    (listed : ∀ key, key ∈ order ↔ (entries.lookup key).isSome) :
    entries.entries.length = order.length := by
  rw [(perm_keys once listed).length_eq, AList.keys, List.keys, List.length_map]

theorem total_erase (found : entries.lookup key = some value) :
    total weight (entries.erase key) + weight value = total weight entries ∧
      (entries.erase key).entries.length + 1 = entries.entries.length := by
  have listed : key ∈ entries.entries.keys := AList.lookup_isSome.mp (Option.isSome_of_eq_some found)
  obtain ⟨other, before, after, unlisted, split, erased⟩ := List.exists_of_kerase listed
  have same : other = value := by
    rw [AList.lookup, split, List.dlookup_append, List.dlookup_eq_none.mpr unlisted,
      Option.none_or, List.dlookup_cons_eq] at found
    exact Option.some.inj found
  have isErased : (entries.erase key).entries = before ++ after := erased
  rw [total, total, isErased, split, same]
  simp only [List.map_append, List.map_cons, List.sum_append, List.sum_cons, List.length_append,
    List.length_cons]
  omega

theorem total_insert (absent : entries.lookup key = none) (value : Value) :
    total weight (entries.insert key value) = weight value + total weight entries ∧
      (entries.insert key value).entries.length = entries.entries.length + 1 := by
  rw [total, AList.entries_insert_of_notMem (AList.lookup_eq_none.mp absent)]
  simp [total]

end FastMcp.EntryTotals
