import FastMcp.JsonValues
import FastMcp.OrderedMaps

/-! # Objects as maps

An object is read as a map from names to values, in which a later field replaces
an earlier one of the same name. A map is written as an object with its fields
in the order of their names.
-/

namespace FastMcp.OrderedMaps

variable {Key Value : Type} {cmp : Key → Key → Ordering} [Std.TransCmp cmp] [Std.LawfulEqCmp cmp]

/-- Entries with different keys are all found after they are inserted; what they
do not mention stays. -/
theorem getElem?_insertMany_toList [BEq Key] [LawfulBEq Key] (map other : Std.ExtTreeMap Key Value cmp)
    (key : Key) : (map.insertMany other.toList)[key]? = other[key]?.or map[key]? := by
  cases found : other[key]? with
  | some value =>
    have listed := Std.ExtTreeMap.mem_toList_iff_getElem?_eq_some.mpr found
    rw [Std.ExtTreeMap.getElem?_insertMany_list_of_mem (Std.ReflCmp.compare_self)
      Std.ExtTreeMap.distinct_keys_toList listed]
    rfl
  | none =>
    rw [Option.none_or, Std.ExtTreeMap.getElem?_insertMany_list_of_contains_eq_false]
    have absent : key ∉ other.keys := by
      rw [Std.ExtTreeMap.mem_keys, Std.ExtTreeMap.mem_iff_isSome_getElem?, found]
      exact Bool.false_ne_true
    rw [Std.ExtTreeMap.map_fst_toList_eq_keys]
    exact Bool.eq_false_iff.mpr fun listed => absent (List.contains_iff_mem.mp listed)

end FastMcp.OrderedMaps

namespace FastMcp.JsonValues

/-- The members of an object by name. -/
abbrev Object := Std.ExtTreeMap String Value compare

namespace Value

def asObject : Value → Option Object
  | object fields => some (Std.ExtTreeMap.ofList fields compare)
  | _ => none

def asArray : Value → Option (List Value)
  | array values => some values
  | _ => none

def ofObject (members : Object) : Value :=
  object members.toList

@[simp]
theorem asObject_ofObject (members : Object) : (ofObject members).asObject = some members := by
  apply congrArg some
  apply Std.ExtTreeMap.ext_getElem?
  intro name
  rw [Std.ExtTreeMap.ofList_eq_insertMany_empty, OrderedMaps.getElem?_insertMany_toList]
  simp

end Value

end FastMcp.JsonValues
