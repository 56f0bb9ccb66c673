import FastMcp.OrderedMaps
import Mathlib.Algebra.BigOperators.Group.Finset.Basic
import Mathlib.Algebra.Order.BigOperators.Group.Finset
import Mathlib.Algebra.Ring.Nat

/-! # Totals over maps

The total weight of the values of a map, and how it changes with the map. The
total is a sum over any finite set of keys that covers the map, so two maps are
compared key by key.
-/

namespace FastMcp.MapTotals

open OrderedMaps

variable {Key Value : Type} {cmp : Key → Key → Ordering} [Std.TransCmp cmp]

/-- The sum of the weights of all values. -/
def total (weight : Value → Nat) (map : Std.ExtTreeMap Key Value cmp) : Nat :=
  (map.toList.map fun entry => weight entry.2).sum

@[simp]
theorem total_empty (weight : Value → Nat) :
    total weight (∅ : Std.ExtTreeMap Key Value cmp) = 0 := by
  have empty : (∅ : Std.ExtTreeMap Key Value cmp).toList = [] := by
    rw [← List.length_eq_zero_iff, Std.ExtTreeMap.length_toList, Std.ExtTreeMap.size_empty]
  rw [total, empty]
  rfl

variable [DecidableEq Key] [Std.LawfulEqCmp cmp]

/-- The weight at one key. -/
def weightAt (weight : Value → Nat) (map : Std.ExtTreeMap Key Value cmp) (key : Key) : Nat :=
  match map[key]? with
  | some value => weight value
  | none => 0

/-- A total is a sum over any keys that cover the map. -/
theorem total_eq_sum (weight : Value → Nat) (map : Std.ExtTreeMap Key Value cmp)
    {keys : Finset Key} (covers : ∀ key value, map[key]? = some value → key ∈ keys) :
    total weight map = ∑ key ∈ keys, weightAt weight map key := by
  have own : total weight map = ∑ key ∈ map.keys.toFinset, weightAt weight map key := by
    rw [List.sum_toFinset _ Std.ExtTreeMap.nodup_keys, ← Std.ExtTreeMap.map_fst_toList_eq_keys,
      List.map_map, total]
    refine congrArg List.sum (List.map_congr_left fun entry listed => ?_)
    have found := Std.ExtTreeMap.mem_toList_iff_getElem?_eq_some.mp listed
    simp [weightAt, found]
  rw [own]
  refine Finset.sum_subset ?_ ?_
  · intro key listed
    rw [List.mem_toFinset, Std.ExtTreeMap.mem_keys, Std.ExtTreeMap.mem_iff_isSome_getElem?] at listed
    obtain ⟨value, found⟩ := Option.isSome_iff_exists.mp listed
    exact covers key value found
  · intro key _ outside
    rw [List.mem_toFinset, Std.ExtTreeMap.mem_keys, Std.ExtTreeMap.mem_iff_isSome_getElem?,
      Option.not_isSome_iff_eq_none] at outside
    simp [weightAt, outside]

theorem exists_cover (first second : Std.ExtTreeMap Key Value cmp) :
    ∃ keys : Finset Key, (∀ key value, first[key]? = some value → key ∈ keys) ∧
      ∀ key value, second[key]? = some value → key ∈ keys := by
  refine ⟨(first.keys ++ second.keys).toFinset, fun key value found => ?_,
    fun key value found => ?_⟩ <;>
    rw [List.mem_toFinset, List.mem_append, Std.ExtTreeMap.mem_keys, Std.ExtTreeMap.mem_keys]
  · exact .inl (Std.ExtTreeMap.mem_iff_isSome_getElem?.mpr (by simp [found]))
  · exact .inr (Std.ExtTreeMap.mem_iff_isSome_getElem?.mpr (by simp [found]))

/-- A map that weighs no more at any key weighs no more. -/
theorem total_le {weight : Value → Nat} {first second : Std.ExtTreeMap Key Value cmp}
    (lighter : ∀ key, weightAt weight first key ≤ weightAt weight second key) :
    total weight first ≤ total weight second := by
  obtain ⟨keys, coversFirst, coversSecond⟩ := exists_cover first second
  rw [total_eq_sum weight first coversFirst, total_eq_sum weight second coversSecond]
  exact Finset.sum_le_sum fun key _ => lighter key

/-- One key weighs no more than the map. -/
theorem weightAt_le_total (weight : Value → Nat) (map : Std.ExtTreeMap Key Value cmp)
    (key : Key) : weightAt weight map key ≤ total weight map := by
  cases found : map[key]? with
  | none => simp [weightAt, found]
  | some value =>
    obtain ⟨keys, covers, -⟩ := exists_cover map map
    rw [total_eq_sum weight map covers]
    exact Finset.single_le_sum (fun _ _ => Nat.zero_le _) (covers key value found)

/-- Two maps that differ at one key only. -/
theorem total_add (weight : Value → Nat) (first second : Std.ExtTreeMap Key Value cmp) {key : Key}
    (same : ∀ other, other ≠ key → second[other]? = first[other]?) :
    total weight second + weightAt weight first key =
      total weight first + weightAt weight second key := by
  obtain ⟨keys, coversFirst, coversSecond⟩ := exists_cover first second
  have wide : ∀ (map : Std.ExtTreeMap Key Value cmp),
      (∀ key value, map[key]? = some value → key ∈ keys) →
        ∀ other value, map[other]? = some value → other ∈ insert key keys :=
    fun _ covers other value found => Finset.mem_insert_of_mem (covers other value found)
  rw [total_eq_sum weight first (wide first coversFirst),
    total_eq_sum weight second (wide second coversSecond),
    ← Finset.add_sum_erase _ _ (Finset.mem_insert_self key keys),
    ← Finset.add_sum_erase _ _ (Finset.mem_insert_self key keys)]
  have rest : ∑ other ∈ (insert key keys).erase key, weightAt weight second other =
      ∑ other ∈ (insert key keys).erase key, weightAt weight first other := by
    refine Finset.sum_congr rfl fun other listed => ?_
    rw [weightAt, weightAt, same other (Finset.ne_of_mem_erase listed)]
  rw [rest]
  omega

theorem total_insert (weight : Value → Nat) (map : Std.ExtTreeMap Key Value cmp) (key : Key)
    (value : Value) :
    total weight (map.insert key value) + weightAt weight map key =
      total weight map + weight value := by
  have added := total_add weight map (map.insert key value)
    fun other different => getElem?_insert_ne map value different
  rwa [show weightAt weight (map.insert key value) key = weight value by simp [weightAt]] at added

theorem total_erase (weight : Value → Nat) (map : Std.ExtTreeMap Key Value cmp) (key : Key) :
    total weight (map.erase key) + weightAt weight map key = total weight map := by
  have added := total_add weight map (map.erase key)
    fun other different => getElem?_erase_ne map different
  rwa [show weightAt weight (map.erase key) key = 0 by simp [weightAt], Nat.add_zero] at added

end FastMcp.MapTotals
