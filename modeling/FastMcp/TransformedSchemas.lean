import FastMcp.TransformedTools
import Mathlib.Data.List.Count
import Mathlib.Data.List.Induction
import Mathlib.Data.List.Nodup

/-! # Published schemas of transformed tools

A transformed tool publishes a schema in which the properties of its parent have
their new names. One pass over the table of transforms collects what is to be
removed, added and renamed; the changes are then made to the properties and to the
array of required names. A rename is made in that array where it finds the old name,
which may by then be the new name of another argument.
-/

namespace FastMcp.Transforms

open JsonValues OrderedMaps

/-! ## The schema -/

/-- A member of an object; other values have no members. -/
def insertMember (schema : Value) (name : String) (value : Value) : Value :=
  match schema.asObject with
  | some members => .ofObject (members.insert name value)
  | none => schema

/-- The schema of one argument after the overrides of its transform. -/
def overridden (transform : ArgTransform) (schema : Value) : Value :=
  let described := transform.description.elim schema fun description =>
    insertMember schema "description" (.string description)
  let typed := transform.typeSchema.getD described
  transform.default.elim typed fun default => insertMember typed "default" default

/-- The changes to a schema that are collected before any of them is made. -/
structure Changes where
  propsToRemove : List String
  propsToAdd : List (String × Value)
  requiredRenames : List (String × String)
  requiredRemoves : List String
  requiredAdds : List String

def Changes.empty : Changes := ⟨[], [], [], [], []⟩

/-- What one transform changes. -/
def collect (props : Object) (changes : Changes) (entry : Entry) : Changes :=
  if entry.2.hide then
    { changes with
      propsToRemove := changes.propsToRemove ++ [entry.1]
      requiredRemoves := changes.requiredRemoves ++ [entry.1] }
  else
    match props[entry.1]? with
    | none => changes
    | some propSchema =>
      { propsToRemove := changes.propsToRemove ++
          if newName entry ≠ entry.1 then [entry.1] else []
        propsToAdd := changes.propsToAdd ++ [(newName entry, overridden entry.2 propSchema)]
        requiredRenames := changes.requiredRenames ++
          if newName entry ≠ entry.1 then [(entry.1, newName entry)] else []
        requiredRemoves := changes.requiredRemoves ++
          if entry.2.required = some false then [newName entry, entry.1] else []
        requiredAdds := changes.requiredAdds ++
          if entry.2.required = some true then [newName entry] else [] }

def changeProperties (changes : Changes) (props : Object) : Object :=
  (changes.propsToRemove.foldl (fun members name => members.erase name) props).insertMany
    changes.propsToAdd

/-- The first place with the old name gets the new one. -/
def renameRequired (required : List Value) (names : String × String) : List Value :=
  match required.findIdx? fun value => value.asStr = some names.1 with
  | some index => required.set index (.string names.2)
  | none => required

def addRequired (required : List Value) (name : String) : List Value :=
  if required.any fun value => value.asStr = some name then required
  else required ++ [.string name]

def changeRequired (changes : Changes) (required : List Value) : List Value :=
  let renamed := changes.requiredRenames.foldl renameRequired required
  let retained := renamed.filter fun value =>
    value.asStr.all fun name => !changes.requiredRemoves.contains name
  changes.requiredAdds.foldl addRequired retained

def transformInputSchema (entries : List Entry) (original : Value) : Value :=
  match original.asObject with
  | none => original
  | some obj =>
    -- Members of other shapes are replaced by empty ones.
    let obj := if (obj["properties"]?.bind Value.asObject).isSome then obj
      else obj.insert "properties" (.ofObject ∅)
    let obj := if (obj["required"]?.bind Value.asArray).isSome then obj
      else obj.insert "required" (.array [])
    match obj["properties"]?.bind Value.asObject with
    | none => .ofObject obj
    | some props =>
      let changes := entries.foldl (collect props) .empty
      let obj := obj.insert "properties" (.ofObject (changeProperties changes props))
      match obj["required"]?.bind Value.asArray with
      | none => .ofObject obj
      | some required =>
        .ofObject (obj.insert "required" (.array (changeRequired changes required)))

/-- A schema with the given properties and the given array of required names. -/
structure Describes (schema : Value) (properties : Object) (required : List Value) : Prop where
  isObject : ∃ members : Object, schema.asObject = some members ∧
    members["properties"]?.bind Value.asObject = some properties ∧
    members["required"]?.bind Value.asArray = some required

theorem describes_insert (members properties : Object) (required : List Value) :
    Describes (.ofObject ((members.insert "properties" (.ofObject properties)).insert "required"
      (.array required))) properties required := by
  refine ⟨_, Value.asObject_ofObject _, ?_, ?_⟩
  · rw [Std.ExtTreeMap.getElem?_insert, if_neg (by decide), Std.ExtTreeMap.getElem?_insert,
      if_pos (by decide)]
    exact Value.asObject_ofObject _
  · rw [Std.ExtTreeMap.getElem?_insert, if_pos (by decide)]
    rfl

theorem transformInputSchema_describes {parent : Value} {properties : Object}
    {required : List Value} (described : Describes parent properties required)
    (entries : List Entry) :
    Describes (transformInputSchema entries parent)
      (changeProperties (entries.foldl (collect properties) .empty) properties)
      (changeRequired (entries.foldl (collect properties) .empty) required) := by
  obtain ⟨members, isObject, isProperties, isRequired⟩ := described.isObject
  have stays : (members.insert "properties" (.ofObject (changeProperties
      (entries.foldl (collect properties) .empty) properties)))["required"]? =
        members["required"]? := by
    rw [Std.ExtTreeMap.getElem?_insert, if_neg (by decide)]
  simp only [transformInputSchema, isObject, isProperties, isRequired, Option.isSome_some, if_true,
    stays]
  exact describes_insert members _ _

/-! ## The collected changes -/

/-- The names of properties that a transform removes. -/
def removedProperties (entry : Entry) : List String :=
  if entry.2.hide = true ∨ newName entry ≠ entry.1 then [entry.1] else []

def addedProperties (properties : Object) (entry : Entry) : List (String × Value) :=
  if entry.2.hide then []
  else properties[entry.1]?.toList.map fun schema => (newName entry, overridden entry.2 schema)

def renames (entry : Entry) : List (String × String) :=
  if entry.2.hide = false ∧ newName entry ≠ entry.1 then [(entry.1, newName entry)] else []

def removedNames (entry : Entry) : List String :=
  if entry.2.hide then [entry.1]
  else if entry.2.required = some false then [newName entry, entry.1] else []

def addedNames (entry : Entry) : List String :=
  if entry.2.hide = false ∧ entry.2.required = some true then [newName entry] else []

variable {properties : Object} {entries : List Entry}

theorem foldl_collect (existing : ∀ entry ∈ entries, entry.1 ∈ properties) (changes : Changes) :
    entries.foldl (collect properties) changes =
      ⟨changes.propsToRemove ++ entries.flatMap removedProperties,
        changes.propsToAdd ++ entries.flatMap (addedProperties properties),
        changes.requiredRenames ++ entries.flatMap renames,
        changes.requiredRemoves ++ entries.flatMap removedNames,
        changes.requiredAdds ++ entries.flatMap addedNames⟩ := by
  induction entries generalizing changes with
  | nil => simp
  | cons entry entries ih =>
    rw [List.forall_mem_cons] at existing
    obtain ⟨schema, found⟩ : ∃ schema, properties[entry.1]? = some schema :=
      Option.isSome_iff_exists.mp (Std.ExtTreeMap.mem_iff_isSome_getElem?.mp existing.1)
    rw [List.foldl_cons, ih existing.2]
    cases hidden : entry.2.hide <;>
      simp [collect, hidden, found, removedProperties, addedProperties, renames, removedNames,
        addedNames]

/-! ## Properties -/

theorem getElem?_foldl_erase (names : List String) (members : Object) (name : String) :
    (names.foldl (fun members name => members.erase name) members)[name]? =
      if name ∈ names then none else members[name]? := by
  induction names generalizing members with
  | nil => simp
  | cons first names ih =>
    rw [List.foldl_cons, ih, Std.ExtTreeMap.getElem?_erase]
    by_cases same : first = name
    · simp [same]
    · simp [same, Ne.symm same]

/-- A property that no transform is about. -/
def Untransformed (entries : List Entry) (name : String) : Prop :=
  ∀ entry ∈ entries, entry.1 ≠ name

/-- No two visible arguments are published under the same name. -/
structure Apart (entries : List Entry) (properties : Object) : Prop where
  transformed : ∀ first ∈ entries, ∀ second ∈ entries, first.2.hide = false →
    second.2.hide = false → newName first = newName second → first = second
  others : ∀ entry ∈ entries, entry.2.hide = false → ∀ name ∈ properties,
    Untransformed entries name → newName entry ≠ name

/-- The published properties are those of the visible arguments under their new names, each with
its own schema, and those that no transform is about. -/
structure Publishes (entries : List Entry) (properties published : Object) : Prop where
  visible : ∀ entry ∈ entries, entry.2.hide = false →
    published[newName entry]? = properties[entry.1]?.map (overridden entry.2)
  others : ∀ name ∈ properties, Untransformed entries name → published[name]? = properties[name]?
  only : ∀ name ∈ published, (∃ entry ∈ entries, entry.2.hide = false ∧ newName entry = name) ∨
    name ∈ properties ∧ Untransformed entries name

theorem mem_addedProperties {entry : Entry} {name : String} {schema : Value} :
    (name, schema) ∈ addedProperties properties entry ↔ entry.2.hide = false ∧
      newName entry = name ∧ properties[entry.1]?.map (overridden entry.2) = some schema := by
  cases hidden : entry.2.hide with
  | true => simp [addedProperties, hidden]
  | false =>
    simp only [addedProperties, hidden, Bool.false_eq_true, if_false, List.mem_map,
      Option.mem_toList, Prod.mk.injEq, Option.map_eq_some_iff, true_and]
    constructor
    · rintro ⟨parent, found, named, isSchema⟩
      exact ⟨named, parent, found, isSchema⟩
    · rintro ⟨named, parent, found, isSchema⟩
      exact ⟨parent, found, named, isSchema⟩

theorem pairwise_addedProperties (distinct : (entries.map Prod.fst).Nodup)
    (apart : Apart entries properties) :
    (entries.flatMap (addedProperties properties)).Pairwise
      fun first second => ¬ compare first.1 second.1 = .eq := by
  rw [List.pairwise_flatMap]
  constructor
  · intro entry _
    unfold addedProperties
    split
    · exact .nil
    · cases properties[entry.1]? <;> simp
  · have different : entries.Pairwise fun first second => first ≠ second :=
      List.Nodup.of_map Prod.fst distinct
    refine different.imp_of_mem fun {first second} listed alsoListed unequal => ?_
    rintro ⟨name, schema⟩ added ⟨other, otherSchema⟩ alsoAdded same
    obtain ⟨visible, rfl, -⟩ := mem_addedProperties.mp added
    obtain ⟨alsoVisible, rfl, -⟩ := mem_addedProperties.mp alsoAdded
    exact unequal (apart.transformed first listed second alsoListed visible alsoVisible
      (Std.LawfulEqCmp.eq_of_compare same))

theorem changeProperties_publishes (distinct : (entries.map Prod.fst).Nodup)
    (existing : ∀ entry ∈ entries, entry.1 ∈ properties) (apart : Apart entries properties) :
    Publishes entries properties
      (changeProperties (entries.foldl (collect properties) .empty) properties) := by
  have different := pairwise_addedProperties distinct apart
  rw [foldl_collect existing]
  simp only [changeProperties, Changes.empty, List.nil_append]
  -- What is not added comes from the parent unless it was removed.
  have kept {name : String}
      (unnamed : ∀ entry ∈ entries, entry.2.hide = false → newName entry ≠ name) :
      ((entries.flatMap removedProperties).foldl (fun members name => members.erase name)
        properties |>.insertMany (entries.flatMap (addedProperties properties)))[name]? =
          if ∃ entry ∈ entries, name ∈ removedProperties entry then none else properties[name]? := by
    rw [Std.ExtTreeMap.getElem?_insertMany_list_of_contains_eq_false, getElem?_foldl_erase]
    · simp only [List.mem_flatMap]
    · rw [Bool.eq_false_iff, ne_eq, List.contains_iff_mem, List.mem_map]
      rintro ⟨⟨other, schema⟩, added, rfl⟩
      obtain ⟨entry, listed, added⟩ := List.mem_flatMap.mp added
      obtain ⟨visible, named, -⟩ := mem_addedProperties.mp added
      exact unnamed entry listed visible named
  refine ⟨fun entry listed visible => ?_, fun name known untransformed => ?_, fun name found => ?_⟩
  · obtain ⟨schema, isSchema⟩ := Option.isSome_iff_exists.mp
      (Std.ExtTreeMap.mem_iff_isSome_getElem?.mp (existing entry listed))
    rw [isSchema]
    apply Std.ExtTreeMap.getElem?_insertMany_list_of_mem Std.ReflCmp.compare_self different
    exact List.mem_flatMap.mpr ⟨entry, listed,
      mem_addedProperties.mpr ⟨visible, rfl, congrArg (Option.map _) isSchema⟩⟩
  · rw [kept fun entry listed visible => apart.others entry listed visible name known untransformed,
      if_neg]
    rintro ⟨entry, listed, removed⟩
    have named : name = entry.1 := by
      unfold removedProperties at removed
      split at removed <;> simp_all
    exact untransformed entry listed named.symm
  · by_cases named : ∃ entry ∈ entries, entry.2.hide = false ∧ newName entry = name
    · exact .inl named
    · have unnamed : ∀ entry ∈ entries, entry.2.hide = false → newName entry ≠ name :=
        fun entry listed visible same => named ⟨entry, listed, visible, same⟩
      rw [Std.ExtTreeMap.mem_iff_isSome_getElem?, kept unnamed] at found
      split at found
      · contradiction
      · rename_i notRemoved
        refine .inr ⟨Std.ExtTreeMap.mem_iff_isSome_getElem?.mpr found, fun entry listed same => ?_⟩
        apply notRemoved
        refine ⟨entry, listed, ?_⟩
        have removed : entry.2.hide = true ∨ newName entry ≠ entry.1 := by
          cases hidden : entry.2.hide with
          | true => exact .inl rfl
          | false => exact .inr (same ▸ unnamed entry listed hidden)
        rw [removedProperties, if_pos removed, same]
        exact List.mem_singleton_self name

/-! ## Required names -/

theorem asStr_eq_some {value : Value} {name : String} :
    value.asStr = some name ↔ value = .string name := by
  cases value <;> simp [Value.asStr]

/-- The names in an array of values. -/
def Lists (required : List Value) (name : String) : Prop := .string name ∈ required

theorem renameRequired_cons (value : Value) (required : List Value) (names : String × String) :
    renameRequired (value :: required) names =
      if value = .string names.1 then .string names.2 :: required
      else value :: renameRequired required names := by
  by_cases same : value.asStr = some names.1
  · simp only [renameRequired, List.findIdx?_cons, same, decide_true, if_true,
      if_pos (asStr_eq_some.mp same)]
    rfl
  · simp only [renameRequired, List.findIdx?_cons, same, decide_false, Bool.false_eq_true, if_false,
      if_neg fun equal => same (asStr_eq_some.mpr equal)]
    cases required.findIdx? fun value => decide (value.asStr = some names.1) <;> rfl

instance (required : List Value) (name : String) : Decidable (Lists required name) :=
  inferInstanceAs (Decidable (_ ∈ _))

theorem lists_iff_count {required : List Value} {name : String} :
    Lists required name ↔ 0 < required.count (.string name) :=
  List.count_pos_iff.symm

/-- A rename takes one place from the old name to the new one, if there is one. -/
theorem count_renameRequired (required : List Value) {names : String × String}
    (different : names.1 ≠ names.2) (name : String) :
    (renameRequired required names).count (.string name) +
        (if names.1 = name ∧ Lists required names.1 then 1 else 0) =
      required.count (.string name) +
        if names.2 = name ∧ Lists required names.1 then 1 else 0 := by
  induction required with
  | nil => simp [renameRequired, Lists]
  | cons value required ih =>
    rw [renameRequired_cons]
    split
    next same =>
      subst same
      by_cases old : names.1 = name
      · have notNew : names.2 ≠ name := fun equal => different (old.trans equal.symm)
        simp [Lists, old, notNew]
      · simp [Lists, List.count_cons, old]
    next other =>
      have listed : Lists (value :: required) names.1 ↔ Lists required names.1 := by
        simp [Lists, Ne.symm other]
      simp only [List.count_cons, listed]
      omega

theorem lists_retained {required : List Value} {removes : List String} {name : String} :
    Lists (required.filter fun value => value.asStr.all fun text => !removes.contains text) name ↔
      Lists required name ∧ name ∉ removes := by
  simp [Lists, List.mem_filter, Value.asStr]

theorem lists_foldl_add {adds : List String} {required : List Value} {name : String} :
    Lists (adds.foldl addRequired required) name ↔ Lists required name ∨ name ∈ adds := by
  induction adds generalizing required with
  | nil => simp
  | cons first adds ih =>
    have added : Lists (addRequired required first) name ↔ Lists required name ∨ name = first := by
      unfold addRequired
      split
      next present =>
        simp only [List.any_eq_true, decide_eq_true_eq, asStr_eq_some] at present
        obtain ⟨value, listed, rfl⟩ := present
        refine ⟨.inl, ?_⟩
        rintro (found | rfl)
        · exact found
        · exact listed
      next => simp [Lists]
    rw [List.foldl_cons, ih, added, List.mem_cons, or_assoc]

/-- Which names are listed at the end. -/
theorem lists_changeRequired (existing : ∀ entry ∈ entries, entry.1 ∈ properties)
    {required : List Value} {name : String} :
    Lists (changeRequired (entries.foldl (collect properties) .empty) required) name ↔
      (Lists ((entries.flatMap renames).foldl renameRequired required) name ∧
        ∀ entry ∈ entries, name ∉ removedNames entry) ∨
      ∃ entry ∈ entries, name ∈ addedNames entry := by
  rw [foldl_collect existing]
  simp only [changeRequired, Changes.empty, List.nil_append, lists_foldl_add, lists_retained,
    List.mem_flatMap, not_exists, not_and]

theorem mem_removedNames {entry : Entry} {name : String} :
    name ∈ removedNames entry ↔ entry.2.hide = true ∧ name = entry.1 ∨
      entry.2.hide = false ∧ entry.2.required = some false ∧
        (name = newName entry ∨ name = entry.1) := by
  cases hidden : entry.2.hide with
  | true => simp [removedNames, hidden]
  | false => by_cases optional : entry.2.required = some false <;> simp [removedNames, hidden, optional]

theorem mem_addedNames {entry : Entry} {name : String} :
    name ∈ addedNames entry ↔
      entry.2.hide = false ∧ entry.2.required = some true ∧ name = newName entry := by
  unfold addedNames
  split
  next changed => simp [changed]
  next same =>
    simp only [List.not_mem_nil, false_iff]
    exact fun changed => same ⟨changed.1, changed.2.1⟩

/-! ## What the renames leave -/

/-- Some visible argument is renamed away from a name. -/
def Vacates (entries : List Entry) (name : String) : Prop :=
  ∃ other ∈ entries, other.2.hide = false ∧ other.1 = name ∧ newName other ≠ name

instance (entries : List Entry) (name : String) : Decidable (Vacates entries name) := by
  unfold Vacates
  infer_instance

/-- A name that no argument is renamed to loses a place if one is renamed away from it. -/
theorem count_renames (distinct : (entries.map Prod.fst).Nodup) {name : String}
    (unnamed : ∀ other ∈ entries, other.2.hide = false → newName other = name → other.1 = name)
    (required : List Value) :
    ((entries.flatMap renames).foldl renameRequired required).count (.string name) =
      required.count (.string name) - if Vacates entries name then 1 else 0 := by
  induction entries generalizing required with
  | nil => simp [Vacates]
  | cons entry entries ih =>
    rw [List.forall_mem_cons] at unnamed
    rw [List.map_cons, List.nodup_cons] at distinct
    rw [List.flatMap_cons, List.foldl_append, ih distinct.2 unnamed.2]
    by_cases moves : entry.2.hide = false ∧ newName entry ≠ entry.1
    · have counted := @count_renameRequired required (entry.1, newName entry) moves.2.symm name
      rw [renames, if_pos moves, List.foldl_cons, List.foldl_nil]
      have notNew : newName entry ≠ name := fun same =>
        moves.2 (same.trans (unnamed.1 moves.1 same).symm)
      simp only [notNew, false_and, if_false, Nat.add_zero] at counted
      by_cases old : entry.1 = name
      · have alone : ¬ Vacates entries name := by
          rintro ⟨other, listed, -, same, -⟩
          exact distinct.1 (old ▸ same ▸ List.mem_map_of_mem listed)
        have vacated : Vacates (entry :: entries) name :=
          ⟨entry, List.mem_cons_self, moves.1, old, notNew⟩
        rw [if_neg alone, if_pos vacated, Nat.sub_zero]
        by_cases listed : Lists required name
        · rw [old, if_pos ⟨rfl, listed⟩] at counted
          rw [old]
          omega
        · rw [old, if_neg fun both => listed both.2, Nat.add_zero] at counted
          rw [old, counted, List.count_eq_zero_of_not_mem listed]
      · rw [if_neg fun both => old both.1, Nat.add_zero] at counted
        rw [counted]
        simp only [Vacates, List.exists_mem_cons_iff, old, false_and, and_false, false_or]
    · have stays : ¬ (entry.2.hide = false ∧ entry.1 = name ∧ newName entry ≠ name) :=
        fun vacates => moves ⟨vacates.1, vacates.2.1 ▸ vacates.2.2⟩
      rw [renames, if_neg moves, List.foldl_nil]
      simp only [Vacates, List.exists_mem_cons_iff, stays, false_or]

/-- The renames of some arguments, visited in this order, take a required name to the given one. -/
inductive Reaches (required : List String) : List Entry → String → Prop where
  | required {before : List Entry} {name : String} (listed : name ∈ required) :
    Reaches required before name
  | renamed {before after : List Entry} {entry : Entry} (visible : entry.2.hide = false)
      (earlier : Reaches required before entry.1) :
    Reaches required (before ++ entry :: after) (newName entry)

theorem reaches_nil {required : List String} {name : String} :
    Reaches required [] name ↔ name ∈ required := by
  refine ⟨fun reaches => ?_, .required⟩
  generalize isNil : [] = entries at reaches
  cases reaches with
  | required listed => exact listed
  | renamed => simp at isNil

theorem reaches_concat {required : List String} {before : List Entry} {last : Entry}
    {name : String} : Reaches required (before ++ [last]) name ↔
      Reaches required before name ∨
        last.2.hide = false ∧ newName last = name ∧ Reaches required before last.1 := by
  constructor
  · intro reaches
    generalize isList : before ++ [last] = entries at reaches
    cases reaches with
    | required listed => exact .inl (.required listed)
    | @renamed start after entry visible earlier =>
      rcases after.eq_nil_or_concat with rfl | ⟨after, other, rfl⟩
      · obtain ⟨rfl, same⟩ := List.append_inj' isList rfl
        obtain rfl := List.head_eq_of_cons_eq same
        exact .inr ⟨visible, rfl, earlier⟩
      · rw [List.concat_eq_append, ← List.cons_append, ← List.append_assoc] at isList
        obtain ⟨rfl, -⟩ := List.append_inj' isList rfl
        exact .inl (.renamed visible earlier)
  · rintro (reaches | ⟨visible, rfl, reaches⟩)
    · cases reaches with
      | required listed => exact .required listed
      | renamed visible earlier =>
        rw [List.append_assoc]
        exact .renamed visible earlier
    · exact .renamed visible reaches

/-- The name of an argument that is not visited yet is listed if the renames take one there. -/
theorem lists_renames {required : List String} {before : List Entry} {name : String}
    (distinct : (before.map Prod.fst).Nodup) (fresh : ∀ other ∈ before, other.1 ≠ name) :
    Lists ((before.flatMap renames).foldl renameRequired (required.map .string)) name ↔
      Reaches required before name := by
  induction before using List.reverseRecOn generalizing name with
  | nil => simp [Lists, reaches_nil]
  | append_singleton before last ih =>
    rw [List.map_append, List.nodup_append] at distinct
    have lastFresh : ∀ other ∈ before, other.1 ≠ last.1 := fun other listed =>
      distinct.2.2 _ (List.mem_map_of_mem listed) _ (List.mem_singleton_self _)
    have early := ih distinct.1 fun other listed => fresh other (List.mem_append_left _ listed)
    have notOld : last.1 ≠ name := fresh last (List.mem_append_right _ (List.mem_singleton_self _))
    rw [reaches_concat, ← early, ← ih distinct.1 lastFresh, List.flatMap_append,
      List.foldl_append, List.flatMap_singleton]
    by_cases moves : last.2.hide = false ∧ newName last ≠ last.1
    · rw [renames, if_pos moves, List.foldl_cons, List.foldl_nil]
      have counted := @count_renameRequired
        ((before.flatMap renames).foldl renameRequired (required.map .string))
        (last.1, newName last) moves.2.symm name
      simp only [notOld, false_and, if_false, Nat.add_zero] at counted
      rw [lists_iff_count, counted]
      split
      next both => simp [both, moves.1]
      next neither => rw [Nat.add_zero, ← lists_iff_count, or_iff_left fun both => neither both.2]
    · rw [renames, if_neg moves, List.foldl_nil]
      refine ⟨.inl, fun either => either.resolve_right fun arrives => moves ⟨arrives.1, ?_⟩⟩
      exact arrives.2.1 ▸ notOld.symm

/-! ## Which tables are safe -/

/-- The published names that are required are those of the arguments that were required and of
those that are made so. -/
structure RequiresExactly (entries : List Entry) (properties : Object) (before : List String)
    (after : List Value) : Prop where
  visible : ∀ entry ∈ entries, entry.2.hide = false →
    (Lists after (newName entry) ↔
      entry.2.required = some true ∨ entry.2.required = none ∧ entry.1 ∈ before)
  others : ∀ name ∈ properties, Untransformed entries name → (Lists after name ↔ name ∈ before)

/-- Some argument with this name is hidden or made optional. -/
def Withdraws (entries : List Entry) (name : String) : Prop :=
  ∃ other ∈ entries, other.1 = name ∧ (other.2.hide = true ∨ other.2.required = some false)

/-- What an argument without an override needs of the transforms before and after its own, given
the required names of the parent, if it is renamed. -/
structure Unaffected (required : List String) (before : List Entry) (entry : Entry)
    (after : List Entry) : Prop where
  /-- the name of a required argument stays: nobody withdraws it, and a later rename away from it
  takes another place -/
  kept : entry.1 ∈ required → ¬ Withdraws (before ++ after) (newName entry) ∧
    (Vacates after (newName entry) → newName entry ∈ required)
  /-- the name of an optional argument is withdrawn, or neither a required name that earlier
  renames have brought to the argument nor one that was there remains under it -/
  absent : entry.1 ∉ required → ¬ Withdraws (before ++ after) (newName entry) →
    (Reaches required before entry.1 →
      Vacates after (newName entry) ∧ newName entry ∉ required) ∧
    (newName entry ∈ required → Vacates (before ++ after) (newName entry))

/-- Every visible argument that is renamed without an override is left unaffected by the others. -/
def Independent (entries : List Entry) (required : List String) : Prop :=
  ∀ before entry after, entries = before ++ entry :: after → entry.2.hide = false →
    entry.2.required = none → newName entry ≠ entry.1 → Unaffected required before entry after

section Exactness

variable (distinct : (entries.map Prod.fst).Nodup)
variable (existing : ∀ entry ∈ entries, entry.1 ∈ properties) (apart : Apart entries properties)
variable {required : List String} (unique : required.Nodup)

theorem vacates_append {before after : List Entry} {name : String} :
    Vacates (before ++ after) name ↔ Vacates before name ∨ Vacates after name := by
  simp only [Vacates, List.mem_append, or_and_right, exists_or]

include distinct apart unique in
/-- Whether the new name of an argument is listed after all renames. -/
theorem lists_renames_newName {before after : List Entry} {entry : Entry}
    (isSplit : entries = before ++ entry :: after) (visible : entry.2.hide = false)
    (renamed : newName entry ≠ entry.1) :
    Lists ((entries.flatMap renames).foldl renameRequired (required.map .string))
        (newName entry) ↔
      Reaches required before entry.1 ∧
          (Vacates after (newName entry) → newName entry ∈ required) ∨
        newName entry ∈ required ∧ ¬ Vacates (before ++ after) (newName entry) := by
  have listed : entry ∈ entries := by simp [isSplit]
  have parts := distinct
  rw [isSplit, List.map_append, List.map_cons, List.nodup_append, List.nodup_cons] at parts
  obtain ⟨distinctBefore, ⟨notAfter, distinctAfter⟩, between⟩ := parts
  have unnamed (other : Entry) (member : other ∈ entries) (different : other.1 ≠ entry.1)
      (otherVisible : other.2.hide = false) (same : newName other = newName entry) :
      other.1 = newName entry :=
    absurd (congrArg Prod.fst
      (apart.transformed other member entry listed otherVisible visible same)) different
  have freshBefore (other : Entry) (member : other ∈ before) : other.1 ≠ entry.1 :=
    between _ (List.mem_map_of_mem member) _ List.mem_cons_self
  have freshAfter (other : Entry) (member : other ∈ after) : other.1 ≠ entry.1 :=
    fun same => notAfter (same ▸ List.mem_map_of_mem member)
  have once : Vacates before (newName entry) → ¬ Vacates after (newName entry) := by
    rintro ⟨other, member, -, same, -⟩ ⟨another, alsoMember, -, alsoSame, -⟩
    exact between _ (List.mem_map_of_mem member) _
      (List.mem_cons_of_mem _ (List.mem_map_of_mem alsoMember)) (same.trans alsoSame.symm)
  have early := count_renames distinctBefore
    (fun other member => unnamed other (by simp [isSplit, member]) (freshBefore other member))
    (required.map .string)
  have reaches := @lists_renames required before entry.1 distinctBefore freshBefore
  have moved := @count_renameRequired
    ((before.flatMap renames).foldl renameRequired (required.map .string))
    (entry.1, newName entry) renamed.symm (newName entry)
  have late := count_renames distinctAfter
    (fun other member => unnamed other (by simp [isSplit, member]) (freshAfter other member))
    (renameRequired ((before.flatMap renames).foldl renameRequired (required.map .string))
      (entry.1, newName entry))
  have start : (required.map Value.string).count (.string (newName entry)) =
      if newName entry ∈ required then 1 else 0 := by
    rw [List.count_map_of_injective _ _ fun _ _ same => Value.string.inj same, unique.count]
  rw [isSplit, List.flatMap_append, List.flatMap_cons, List.foldl_append, List.foldl_append,
    renames, if_pos ⟨visible, renamed⟩, List.foldl_cons, List.foldl_nil, lists_iff_count, late,
    vacates_append]
  simp only [renamed.symm, false_and, if_false, Nat.add_zero, true_and] at moved
  rw [moved, early, start, ← reaches]
  by_cases isBefore : Vacates before (newName entry)
  · have isAfter := once isBefore
    by_cases isReached :
        Lists ((before.flatMap renames).foldl renameRequired (required.map .string)) entry.1 <;>
      by_cases isRequired : newName entry ∈ required <;>
      simp [isReached, isRequired, isBefore, isAfter]
  · by_cases isReached :
        Lists ((before.flatMap renames).foldl renameRequired (required.map .string)) entry.1 <;>
      by_cases isRequired : newName entry ∈ required <;>
      by_cases isAfter : Vacates after (newName entry) <;>
      simp [isReached, isRequired, isBefore, isAfter]

include distinct in
/-- A published name that is not new is listed as before. -/
theorem lists_renames_unchanged {name : String}
    (unnamed : ∀ other ∈ entries, other.2.hide = false → newName other = name → other.1 = name)
    (stays : ¬ Vacates entries name) :
    Lists ((entries.flatMap renames).foldl renameRequired (required.map .string)) name ↔
      name ∈ required := by
  rw [lists_iff_count, count_renames distinct unnamed, if_neg stays, Nat.sub_zero,
    ← lists_iff_count]
  simp [Lists]

include apart existing in
/-- The name of an argument without an override is required if the renames have left it so. -/
theorem lists_undecided {entry : Entry} (listed : entry ∈ entries) (visible : entry.2.hide = false)
    (undecided : entry.2.required = none) {values : List Value} :
    Lists (changeRequired (entries.foldl (collect properties) .empty) values) (newName entry) ↔
      Lists ((entries.flatMap renames).foldl renameRequired values) (newName entry) ∧
        ¬ Withdraws entries (newName entry) := by
  have same {other : Entry} (member : other ∈ entries) (otherVisible : other.2.hide = false)
      (named : newName entry = newName other) : other.2.required = none := by
    rw [← apart.transformed entry listed other member visible otherVisible named]
    exact undecided
  rw [lists_changeRequired existing, or_iff_left]
  · refine and_congr_right fun _ => ⟨?_, fun kept other member removed => kept ?_⟩
    · rintro kept ⟨other, member, about, hidden | optional⟩
      · exact kept other member (mem_removedNames.mpr (.inl ⟨hidden, about.symm⟩))
      · apply kept other member
        rw [mem_removedNames]
        cases hidden : other.2.hide with
        | true => exact .inl ⟨rfl, about.symm⟩
        | false => exact .inr ⟨rfl, optional, .inr about.symm⟩
    · rcases mem_removedNames.mp removed with ⟨hidden, about⟩ |
        ⟨otherVisible, optional, named | about⟩
      · exact ⟨other, member, about.symm, .inl hidden⟩
      · exact nomatch optional.symm.trans (same member otherVisible named)
      · exact ⟨other, member, about.symm, .inr optional⟩
  · rintro ⟨other, member, added⟩
    obtain ⟨otherVisible, isRequired, named⟩ := mem_addedNames.mp added
    exact nomatch isRequired.symm.trans (same member otherVisible named)

include distinct existing apart unique

theorem unaffected_iff {before after : List Entry} {entry : Entry}
    (isSplit : entries = before ++ entry :: after) (visible : entry.2.hide = false)
    (undecided : entry.2.required = none) (renamed : newName entry ≠ entry.1) :
    (Lists (changeRequired (entries.foldl (collect properties) .empty) (required.map .string))
        (newName entry) ↔ entry.1 ∈ required) ↔ Unaffected required before entry after := by
  have listed : entry ∈ entries := by simp [isSplit]
  have withdraws : Withdraws entries (newName entry) ↔
      Withdraws (before ++ after) (newName entry) := by
    simp [Withdraws, isSplit, or_and_right, exists_or, visible, undecided]
  rw [lists_undecided existing apart listed visible undecided,
    lists_renames_newName distinct apart unique isSplit visible renamed, withdraws]
  by_cases isRequired : entry.1 ∈ required
  · rw [iff_true_right isRequired]
    constructor
    · rintro ⟨stays, noWithdrawal⟩
      refine ⟨fun _ => ⟨noWithdrawal, fun vacated => ?_⟩, absurd isRequired⟩
      exact stays.elim (fun moved => moved.2 vacated) And.left
    · rintro ⟨kept, -⟩
      obtain ⟨noWithdrawal, stays⟩ := kept isRequired
      exact ⟨.inl ⟨.required isRequired, stays⟩, noWithdrawal⟩
  · rw [iff_false_right isRequired]
    constructor
    · intro unlisted
      refine ⟨fun listed => absurd listed isRequired, fun _ noWithdrawal => ?_⟩
      obtain ⟨notMoved, notLeft⟩ := not_or.mp fun either => unlisted ⟨either, noWithdrawal⟩
      refine ⟨fun reaches => ?_, fun stays => not_not.mp fun left => notLeft ⟨stays, left⟩⟩
      exact Classical.not_imp.mp fun stays => notMoved ⟨reaches, stays⟩
    · rintro ⟨-, absent⟩ ⟨moved | ⟨stays, left⟩, noWithdrawal⟩
      · obtain ⟨vacated, gone⟩ := (absent isRequired noWithdrawal).1 moved.1
        exact gone (moved.2 vacated)
      · exact left ((absent isRequired noWithdrawal).2 stays)

theorem requiresExactly_iff : RequiresExactly entries properties required
    (changeRequired (entries.foldl (collect properties) .empty) (required.map .string)) ↔
      Independent entries required := by
  constructor
  · intro exactly before entry after isSplit visible undecided renamed
    have listed : entry ∈ entries := by simp [isSplit]
    rw [← unaffected_iff distinct existing apart unique isSplit visible undecided renamed,
      exactly.visible entry listed visible]
    simp [undecided]
  intro independent
  constructor
  · intro entry listed visible
    cases override : entry.2.required with
    | some flag =>
      rw [lists_changeRequired existing]
      cases flag with
      | true =>
        simp only [true_or, iff_true]
        exact .inr ⟨entry, listed, mem_addedNames.mpr ⟨visible, override, rfl⟩⟩
      | false =>
        simp only [Option.some.injEq, Bool.false_eq_true, reduceCtorEq, false_and, or_false,
          iff_false, not_or]
        refine ⟨fun kept => ?_, ?_⟩
        · exact kept.2 entry listed (mem_removedNames.mpr (.inr ⟨visible, override, .inl rfl⟩))
        · rintro ⟨other, member, added⟩
          obtain ⟨otherVisible, isRequired, named⟩ := mem_addedNames.mp added
          obtain rfl := apart.transformed entry listed other member visible otherVisible named
          rw [override] at isRequired
          contradiction
    | none =>
      simp only [reduceCtorEq, true_and, false_or]
      by_cases renamed : newName entry = entry.1
      · have alone {other : Entry} (member : other ∈ entries) (about : other.1 = newName entry) :
            other = entry :=
          List.inj_on_of_nodup_map distinct member listed (about.trans renamed)
        rw [lists_undecided existing apart listed visible override,
          lists_renames_unchanged distinct, renamed, and_iff_left]
        · rintro ⟨other, member, about, withdrawn⟩
          obtain rfl := alone member (about.trans renamed.symm)
          simp [visible, override] at withdrawn
        · intro other member otherVisible named
          rw [apart.transformed other member entry listed otherVisible visible named, renamed]
        · rintro ⟨other, member, -, about, moves⟩
          exact moves (congrArg newName (alone member about))
      · obtain ⟨before, after, isSplit⟩ := List.append_of_mem listed
        exact (unaffected_iff distinct existing apart unique isSplit visible override renamed).mpr
          (independent before entry after isSplit visible override renamed)
  · intro name isProperty untransformed
    rw [lists_changeRequired existing, lists_renames_unchanged distinct]
    · constructor
      · rintro (⟨present, -⟩ | ⟨entry, listed, added⟩)
        · exact present
        · obtain ⟨visible, -, same⟩ := mem_addedNames.mp added
          exact absurd same.symm (apart.others entry listed visible name isProperty untransformed)
      · refine fun present => .inl ⟨present, fun entry listed removed => ?_⟩
        rcases mem_removedNames.mp removed with ⟨-, same⟩ | ⟨visible, -, same | same⟩
        · exact untransformed entry listed same.symm
        · exact apart.others entry listed visible name isProperty untransformed same.symm
        · exact untransformed entry listed same.symm
    · exact fun entry listed visible same =>
        absurd same (apart.others entry listed visible name isProperty untransformed)
    · rintro ⟨entry, listed, -, same, -⟩
      exact untransformed entry listed same

end Exactness

/-- The table is given in its order of iteration. The published properties are always those of the
visible arguments. The published names are required as they should be exactly if no argument
that is renamed without an override is affected by the other transforms, given this order and these
required names. -/
theorem transformInputSchema_exact (distinct : (entries.map Prod.fst).Nodup)
    (existing : ∀ entry ∈ entries, entry.1 ∈ properties) (apart : Apart entries properties)
    {parent : Value} {required : List String}
    (described : Describes parent properties (required.map .string)) (unique : required.Nodup) :
    ∃ published after, Describes (transformInputSchema entries parent) published after ∧
      Publishes entries properties published ∧
      (RequiresExactly entries properties required after ↔ Independent entries required) :=
  ⟨_, _, transformInputSchema_describes described entries,
    changeProperties_publishes distinct existing apart,
    requiresExactly_iff distinct existing apart unique⟩

/-- A parent with properties `a` and `b`. -/
def twoProperties : Object := (∅ : Object).insert "a" .null |>.insert "b" .null

/-- Where `a` is published as `b`, and `b` as `c` before that, `a` is renamed once. -/
theorem transformInputSchema_exact_renamed :
    ∃ parent, Describes parent twoProperties [.string "a"] ∧ ∃ published after,
      Describes (transformInputSchema [("b", { name := some "c" }), ("a", { name := some "b" })]
        parent) published after ∧ Lists after "b" ∧ ¬ Lists after "c" := by
  have existing : ∀ entry ∈ [(("b", { name := some "c" }) : Entry), ("a", { name := some "b" })],
      entry.1 ∈ twoProperties := by
    simp [twoProperties]
  have apart : Apart [("b", { name := some "c" }), ("a", { name := some "b" })] twoProperties := by
    refine ⟨by simp [newName], fun entry listed visible name isProperty untransformed => ?_⟩
    simp_all [Untransformed, twoProperties]
  have independent : Independent [("b", { name := some "c" }), ("a", { name := some "b" })]
      ["a"] := by
    rintro (_ | ⟨first, _ | ⟨second, more⟩⟩) entry after isSplit - - -
    · obtain ⟨rfl, rfl⟩ := List.cons.inj isSplit
      exact ⟨by simp, by simp [reaches_nil, newName]⟩
    · simp only [List.cons_append, List.nil_append, List.cons.injEq] at isSplit
      obtain ⟨rfl, rfl, rfl⟩ := isSplit
      exact ⟨by simp [Withdraws, Vacates, newName], by simp⟩
    · simp at isSplit
  have described := describes_insert ∅ twoProperties [.string "a"]
  obtain ⟨published, after, found, -, exactly⟩ :=
    @transformInputSchema_exact _ _ (by decide) existing apart _ ["a"] described (by decide)
  have required := exactly.mpr independent
  refine ⟨_, described, published, after, found, ?_, ?_⟩
  · exact (required.visible ("a", { name := some "b" }) (by simp) rfl).mpr (by simp)
  · exact (required.visible ("b", { name := some "c" }) (by simp) rfl).not.mpr (by simp)

/-- Where `a` is published as `b` and `b` as `c`, the pass may rename `a` twice. -/
theorem required_name_renamed_twice :
    Apart [("a", { name := some "b" }), ("b", { name := some "c" })] twoProperties ∧
      ∃ parent, Describes parent twoProperties [.string "a"] ∧
        ∃ published, Describes (transformInputSchema
          [("a", { name := some "b" }), ("b", { name := some "c" })] parent) published
            [.string "c"] := by
  refine ⟨⟨by simp [newName], ?_⟩, ?_⟩
  · intro entry listed visible name isProperty untransformed
    simp_all [Untransformed, twoProperties]
  have described := describes_insert ∅ twoProperties [.string "a"]
  have known : ∀ entry ∈ [(("a", { name := some "b" }) : Entry), ("b", { name := some "c" })],
      entry.1 ∈ twoProperties := by
    simp [twoProperties]
  have made := transformInputSchema_describes described
    [("a", { name := some "b" }), ("b", { name := some "c" })]
  rw [foldl_collect known] at made
  exact ⟨_, described, _, made⟩

end FastMcp.Transforms
