import Std.Data.ExtTreeMap
import Std.Data.ExtTreeSet

/-! # Maps and sets ordered by a lawful comparison

Updating a map or a set at one key leaves the other keys alone.
-/

namespace FastMcp.OrderedMaps

variable {Key Value : Type} {cmp : Key → Key → Ordering} [Std.TransCmp cmp] [Std.LawfulEqCmp cmp]
  {key other : Key}

@[simp]
theorem getElem?_insert_ne (map : Std.ExtTreeMap Key Value cmp) (value : Value)
    (different : other ≠ key) : (map.insert key value)[other]? = map[other]? := by
  rw [Std.ExtTreeMap.getElem?_insert, if_neg]
  simpa using different.symm

@[simp]
theorem getElem?_erase_ne (map : Std.ExtTreeMap Key Value cmp) (different : other ≠ key) :
    (map.erase key)[other]? = map[other]? := by
  rw [Std.ExtTreeMap.getElem?_erase, if_neg]
  simpa using different.symm

variable {map : Std.ExtTreeMap Key Value cmp} {found : Value}

theorem getElem?_insert_eq_some {value : Value} :
    (map.insert key value)[other]? = some found ↔
      other = key ∧ found = value ∨ other ≠ key ∧ map[other]? = some found := by
  by_cases same : other = key
  · subst same
    simp [eq_comm]
  · simp [getElem?_insert_ne map value same, same]

theorem getElem?_erase_eq_some :
    (map.erase key)[other]? = some found ↔ other ≠ key ∧ map[other]? = some found := by
  by_cases same : other = key
  · subst same
    simp
  · simp [getElem?_erase_ne map same, same]

theorem getElem?_filter_eq_some {keep : Key → Value → Bool} :
    (map.filter keep)[key]? = some found ↔ map[key]? = some found ∧ keep key found = true := by
  rw [Std.ExtTreeMap.getElem?_filter', Option.filter_eq_some_iff]

omit [Std.LawfulEqCmp cmp] in
theorem size_erase_add_one (present : map[key]? = some found) :
    (map.erase key).size + 1 = map.size := by
  have member : key ∈ map := Std.ExtTreeMap.mem_iff_isSome_getElem?.mpr (by simp [present])
  have positive : map.size ≠ 0 := by
    intro zero
    rw [Std.ExtTreeMap.eq_empty_iff_size_eq_zero.mpr zero] at present
    simp at present
  rw [Std.ExtTreeMap.size_erase, if_pos (Std.ExtTreeMap.contains_iff_mem.mpr member)]
  omega

end FastMcp.OrderedMaps
