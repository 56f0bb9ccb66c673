import FastMcp.JsonObjects
import FastMcp.Outcomes

/-! # Tools with renamed arguments

A transformed tool publishes the arguments of its parent under other names, with
other defaults, or not at all. A call is translated back by one pass over the
table of transforms: each transform takes its argument out of the caller's
object by its published name and drops whatever the caller sent under the
original name. The table is a hash map, so the pass may visit it in any order.
-/

namespace FastMcp.Transforms

open JsonValues OrderedMaps Outcomes

/-- What is changed about one argument. -/
structure ArgTransform where
  name : Option String := none
  description : Option String := none
  default : Option Value := none
  hide : Bool := false
  required : Option Bool := none
  typeSchema : Option Value := none
deriving DecidableEq

/-- An original name together with its transform. -/
abbrev Entry := String × ArgTransform

/-- The table of transforms, as the list of its entries in the order of iteration. -/
structure ArgTransforms where
  entries : List Entry
  distinct : (entries.map Prod.fst).Nodup

/-- The name under which an argument is published. -/
def newName (entry : Entry) : String :=
  entry.2.name.getD entry.1

inductive McpErrorCode where
  | invalidParams
deriving DecidableEq, Repr

/-- An error as the caller receives it. -/
structure McpError where
  code : McpErrorCode
  message : String
deriving DecidableEq, Repr

def invalidParams (message : String) : McpError :=
  ⟨.invalidParams, message⟩

def missingDefault (originalName : String) : McpError :=
  invalidParams ("Hidden argument '" ++ originalName ++ "' requires a default value")

/-- A tool that is published with changed arguments. -/
structure TransformedTool where
  argTransforms : ArgTransforms
  /-- From published names to original names. -/
  nameMapping : Std.ExtTreeMap String String compare

/-- One entry of the mapping from published to original names. -/
def mapName (mapping : Std.ExtTreeMap String String compare) (entry : Entry) :
    Std.ExtTreeMap String String compare :=
  match entry.2.name with
  | some name => mapping.insert name entry.1
  | none => mapping

/-- The names given by the transforms, with the arguments they stand for. -/
def mappedNames (entries : List Entry) : Std.ExtTreeMap String String compare :=
  entries.foldl mapName ∅

def TransformedTool.build (argTransforms : ArgTransforms) : TransformedTool :=
  ⟨argTransforms, mappedNames argTransforms.entries⟩

/-- The caller's remaining members and what the parent is going to receive. -/
structure Translation where
  args : Object
  result : Object

/-- The caller's value for a visible argument, or its default, goes to the parent. -/
def take (state : Translation) (entry : Entry) : Translation :=
  match state.args[newName entry]? with
  | some value => ⟨state.args.erase (newName entry), state.result.insert entry.1 value⟩
  | none =>
    match entry.2.default with
    | some default => ⟨state.args, state.result.insert entry.1 default⟩
    | none => state

/-- What one transform does to a call. -/
def translate (state : Translation) (entry : Entry) : Except McpError Translation :=
  if entry.2.hide then
    -- Hidden arguments are owned by the server: the caller's values are dropped.
    match entry.2.default with
    | some default =>
      .ok ⟨(state.args.erase (newName entry)).erase entry.1, state.result.insert entry.1 default⟩
    | none => .error (missingDefault entry.1)
  else if newName entry ≠ entry.1 then
    -- What the caller still sends under the original name must not overwrite the mapped value.
    .ok ⟨(take state entry).args.erase entry.1, (take state entry).result⟩
  else
    .ok (take state entry)

/-- A member that no transform took is passed on. -/
def passThrough (mapping : Std.ExtTreeMap String String compare) (result : Object)
    (member : String × Value) : Object :=
  match mapping[member.1]? with
  | some original => result.insert original member.2
  | none => result.insert member.1 member.2

def callerMembers : Value → Except McpError Object
  | .object fields => .ok (Std.ExtTreeMap.ofList fields compare)
  | .null => .ok ∅
  | _ => .error (invalidParams "Arguments must be an object")

def TransformedTool.transformArguments (tool : TransformedTool) (arguments : Value) :
    Except McpError Value := do
  let args ← callerMembers arguments
  let state ← tool.argTransforms.entries.foldlM translate ⟨args, ∅⟩
  return .ofObject (state.args.toList.foldl (passThrough tool.nameMapping) state.result)

/-! ## One transform -/

/-- The names under which a transform removes what the caller sent. -/
def Takes (entry : Entry) (name : String) : Prop :=
  name = entry.1 ∨ name = newName entry

instance (entry : Entry) (name : String) : Decidable (Takes entry name) :=
  inferInstanceAs (Decidable (_ ∨ _))

/-- A hidden argument has a value for the parent. -/
def Supplied (entry : Entry) : Prop :=
  entry.2.hide = true → entry.2.default.isSome

/-- What the parent receives for an argument when the caller's remaining members
are the given ones. -/
def received (args : Object) (entry : Entry) : Option Value :=
  if entry.2.hide then entry.2.default else args[newName entry]?.or entry.2.default

theorem translate_eq_ok_iff (state : Translation) (entry : Entry) :
    (∃ next, translate state entry = .ok next) ↔ Supplied entry := by
  unfold translate Supplied
  cases hidden : entry.2.hide with
  | true => cases default : entry.2.default <;> simp
  | false =>
    simp only [Bool.false_eq_true, if_false, false_implies, iff_true]
    split
    · exact ⟨_, rfl⟩
    · exact ⟨_, rfl⟩

theorem take_args (state : Translation) (entry : Entry) (name : String) :
    (take state entry).args[name]? =
      if name = newName entry then none else state.args[name]? := by
  unfold take
  by_cases same : name = newName entry
  · subst same
    split
    · simp
    · split <;> simp_all
  · split
    · simp [same]
    · split <;> simp [same]

theorem take_result (state : Translation) (entry : Entry) (name : String) :
    (take state entry).result[name]? =
      if name = entry.1 then
        (state.args[newName entry]?.or entry.2.default).or state.result[name]?
      else state.result[name]? := by
  unfold take
  by_cases same : name = entry.1
  · subst same
    split
    · simp_all
    · split <;> simp_all
  · split
    · simp [same]
    · split <;> simp [same]

variable {state final : Translation} {entry : Entry} {entries : List Entry} {name : String}
  {args : Object} {arguments result : Value} {argTransforms : ArgTransforms}

variable {next : Translation} {before after : List Entry}
  {mapping : Std.ExtTreeMap String String compare} {original : String} {value : Value}

/-- A transform removes its two names from the caller's members, whether they
were there or not. -/
theorem translate_args (translated : translate state entry = .ok next) (name : String) :
    next.args[name]? = if Takes entry name then none else state.args[name]? := by
  have erased (args : Object) : (args.erase entry.1)[name]? =
      if name = entry.1 then none else args[name]? := by
    by_cases same : name = entry.1
    · simp [same]
    · simp [same]
  unfold translate at translated
  unfold Takes
  split at translated
  · split at translated
    · cases translated
      rw [erased]
      by_cases same : name = newName entry
      · simp [same]
      · simp [same]
    · cases translated
  · split at translated
    · cases translated
      rw [erased, take_args]
      by_cases same : name = entry.1
      · simp [same]
      · simp [same]
    · rename_i kept
      cases translated
      simp only [take_args, not_not.mp kept, or_self]

/-- A transform writes the parent's value of its own argument and nothing else. -/
theorem translate_result (translated : translate state entry = .ok next) (name : String) :
    next.result[name]? =
      if name = entry.1 then (received state.args entry).or state.result[name]?
      else state.result[name]? := by
  unfold translate at translated
  unfold received
  split at translated
  · rename_i hidden
    split at translated
    · rename_i default
      cases translated
      by_cases same : name = entry.1
      · simp [same, hidden, default]
      · simp [same]
    · cases translated
  · rename_i visible
    rw [if_neg visible, ← take_result]
    split at translated <;> cases translated <;> rfl

/-! ## The pass over all transforms -/

theorem pass_eq_ok_iff (entries : List Entry) (state : Translation) :
    (∃ final, entries.foldlM translate state = .ok final) ↔ ∀ entry ∈ entries, Supplied entry := by
  induction entries generalizing state with
  | nil => simp [pure, Except.pure]
  | cons entry entries ih =>
    rw [List.forall_mem_cons, ← translate_eq_ok_iff state entry]
    simp only [List.foldlM_cons, andThen_eq_ok]
    constructor
    · rintro ⟨final, next, translated, rest⟩
      exact ⟨⟨next, translated⟩, (ih next).mp ⟨final, rest⟩⟩
    · rintro ⟨⟨next, translated⟩, supplied⟩
      obtain ⟨final, rest⟩ := (ih next).mpr supplied
      exact ⟨final, next, translated, rest⟩

theorem pass_args (passed : entries.foldlM translate state = .ok final) (name : String) :
    final.args[name]? =
      if ∃ entry ∈ entries, Takes entry name then none else state.args[name]? := by
  induction entries generalizing state with
  | nil =>
    cases passed
    simp
  | cons entry entries ih =>
    simp only [List.foldlM_cons, andThen_eq_ok] at passed
    obtain ⟨next, translated, rest⟩ := passed
    rw [ih rest, translate_args translated]
    by_cases later : ∃ other ∈ entries, Takes other name
    · simp [later]
    · by_cases here : Takes entry name
      · simp [later, here]
      · simp [later, here]

/-- Arguments that are not in the table are left alone. -/
theorem pass_result_other (passed : entries.foldlM translate state = .ok final)
    (other : name ∉ entries.map Prod.fst) : final.result[name]? = state.result[name]? := by
  induction entries generalizing state with
  | nil =>
    cases passed
    rfl
  | cons entry entries ih =>
    simp only [List.foldlM_cons, andThen_eq_ok] at passed
    obtain ⟨next, translated, rest⟩ := passed
    rw [List.map_cons, List.mem_cons, not_or] at other
    rw [ih rest other.2, translate_result translated, if_neg other.1]

/-- The parent's value of an argument is decided when its own transform is visited, on
what the transforms before it have left. -/
theorem pass_result (distinct : ((before ++ entry :: after).map Prod.fst).Nodup)
    (passed : (before ++ entry :: after).foldlM translate ⟨args, ∅⟩ = .ok final) :
    ∃ left : Object, final.result[entry.1]? = received left entry ∧
      ∀ name, left[name]? = if ∃ other ∈ before, Takes other name then none else args[name]? := by
  simp only [List.foldlM_append, List.foldlM_cons, andThen_eq_ok] at passed
  obtain ⟨reached, earlier, next, translated, later⟩ := passed
  rw [List.map_append, List.map_cons, List.nodup_append, List.nodup_cons] at distinct
  obtain ⟨-, ⟨notAfter, -⟩, apart⟩ := distinct
  have notBefore : entry.1 ∉ before.map Prod.fst := by
    intro listed
    exact apart _ listed _ List.mem_cons_self rfl
  have fresh : reached.result[entry.1]? = none := by
    rw [pass_result_other earlier notBefore]
    simp
  refine ⟨reached.args, ?_, pass_args earlier⟩
  rw [pass_result_other later notAfter, translate_result translated, if_pos rfl, fresh,
    Option.or_none]

/-! ## What is left over -/

theorem foldl_mapName (found : (entries.foldl mapName mapping)[name]? = some original) :
    mapping[name]? = some original ∨ ∃ entry ∈ entries, name = newName entry := by
  induction entries generalizing mapping with
  | nil => exact .inl found
  | cons entry entries ih =>
    rcases ih found with earlier | ⟨other, listed, named⟩
    · unfold mapName at earlier
      split at earlier
      · rename_i published isNamed
        rcases getElem?_insert_eq_some.mp earlier with ⟨rfl, -⟩ | ⟨-, kept⟩
        · exact .inr ⟨entry, List.mem_cons_self, by simp [newName, isNamed]⟩
        · exact .inl kept
      · exact .inl earlier
    · exact .inr ⟨other, List.mem_cons_of_mem _ listed, named⟩

theorem mappedNames_eq_some (mapped : (mappedNames entries)[name]? = some original) :
    ∃ entry ∈ entries, name = newName entry := by
  rcases foldl_mapName mapped with initial | found
  · simp at initial
  · exact found

theorem foldl_passThrough {members : List (String × Value)}
    (unmapped : ∀ member ∈ members, mapping[member.1]? = none) (result : Object) :
    members.foldl (passThrough mapping) result = result.insertMany members := by
  induction members generalizing result with
  | nil => rfl
  | cons member members ih =>
    obtain ⟨name, value⟩ := member
    rw [List.foldl_cons, ih fun other listed => unmapped other (List.mem_cons_of_mem _ listed),
      Std.ExtTreeMap.insertMany_cons, passThrough, unmapped _ List.mem_cons_self]

/-! ## Whole calls -/

/-- The caller's members as the tool reads them; other kinds of values have none. -/
def callerObject (arguments : Value) : Object :=
  arguments.asObject.getD ∅

theorem callerMembers_eq_ok (read : callerMembers arguments = .ok args) :
    args = callerObject arguments := by
  cases arguments with
  | null =>
    cases read
    rfl
  | object fields =>
    cases read
    rfl
  | bool => cases read
  | number => cases read
  | string => cases read
  | array => cases read

/-- The names of a tool are those of its own transforms. The table is a hash map, and it is
visited in an order of its own when the names are collected. -/
def TransformedTool.Built (tool : TransformedTool) : Prop :=
  ∃ visited : List Entry, visited.Perm tool.argTransforms.entries ∧
    tool.nameMapping = mappedNames visited

theorem TransformedTool.build_built (argTransforms : ArgTransforms) :
    (TransformedTool.build argTransforms).Built :=
  ⟨argTransforms.entries, .refl _, rfl⟩

/-- No published name is left over after the pass, so that nothing is mapped back. -/
theorem unmapped_of_pass {tool : TransformedTool} (built : tool.Built)
    (passed : tool.argTransforms.entries.foldlM translate ⟨args, ∅⟩ = .ok final) :
    ∀ member ∈ final.args.toList, tool.nameMapping[member.1]? = none := by
  intro member listed
  obtain ⟨visited, order, mapping⟩ := built
  have kept := Std.ExtTreeMap.mem_toList_iff_getElem?_eq_some.mp listed
  rw [pass_args passed] at kept
  cases mapped : tool.nameMapping[member.1]? with
  | none => rfl
  | some original =>
    rw [mapping] at mapped
    obtain ⟨entry, present, named⟩ := mappedNames_eq_some mapped
    rw [if_pos ⟨entry, order.mem_iff.mp present, .inr named⟩] at kept
    contradiction

theorem TransformedTool.Built.transformArguments_eq_ok {tool : TransformedTool}
    (built : tool.Built) (returned : tool.transformArguments arguments = .ok result) :
    ∃ final, tool.argTransforms.entries.foldlM translate ⟨callerObject arguments, ∅⟩ = .ok final ∧
      ∃ members : Object, result.asObject = some members ∧
        ∀ name : String, members[name]? = final.args[name]?.or final.result[name]? := by
  unfold TransformedTool.transformArguments at returned
  simp only [andThen_eq_ok] at returned
  obtain ⟨args, read, final, passed, returned⟩ := returned
  cases returned
  rw [callerMembers_eq_ok read] at passed
  refine ⟨final, passed, _, Value.asObject_ofObject _, fun name => ?_⟩
  rw [foldl_passThrough (unmapped_of_pass built passed), getElem?_insertMany_toList]

theorem transformArguments_eq_ok
    (returned : (TransformedTool.build argTransforms).transformArguments arguments = .ok result) :
    ∃ final, argTransforms.entries.foldlM translate ⟨callerObject arguments, ∅⟩ = .ok final ∧
      ∃ members : Object, result.asObject = some members ∧
        ∀ name : String, members[name]? = final.args[name]?.or final.result[name]? :=
  (TransformedTool.build_built argTransforms).transformArguments_eq_ok returned

/-- The parent tool receives what the caller sent: every visible argument has the caller's
value under its published name, or else its default, and what no transform names is
passed on. -/
structure ReachesParent (argTransforms : ArgTransforms) (arguments result : Value) : Prop where
  visible : ∀ entry ∈ argTransforms.entries, entry.2.hide = false →
    (callerObject result)[entry.1]? =
      (callerObject arguments)[newName entry]?.or entry.2.default
  others : ∀ name value, (callerObject arguments)[name]? = some value →
    (∀ entry ∈ argTransforms.entries, ¬ Takes entry name) →
      (callerObject result)[name]? = some value

/-- No visible argument loses the caller's value to a transform that is visited before its
own and has that name as its original or its published name. Losing it goes unnoticed
where the default is the same value. -/
def Undisturbed (argTransforms : ArgTransforms) (arguments : Value) : Prop :=
  ∀ before entry after, argTransforms.entries = before ++ entry :: after →
    entry.2.hide = false → ∀ value, (callerObject arguments)[newName entry]? = some value →
      (∀ other ∈ before, ¬ Takes other (newName entry)) ∨ entry.2.default = some value

theorem received_of_visible (visible : entry.2.hide = false) :
    received args entry = args[newName entry]?.or entry.2.default := by
  simp [received, visible]

/-- What a call that returns passes on for one visible argument. -/
theorem transformArguments_visible
    (returned : (TransformedTool.build argTransforms).transformArguments arguments = .ok result)
    (visited : argTransforms.entries = before ++ entry :: after) (visible : entry.2.hide = false) :
    (callerObject result)[entry.1]? =
      (if ∃ other ∈ before, Takes other (newName entry) then none
        else (callerObject arguments)[newName entry]?).or entry.2.default := by
  obtain ⟨final, passed, members, isObject, found⟩ := transformArguments_eq_ok returned
  have distinct := argTransforms.distinct
  rw [visited] at passed distinct
  obtain ⟨left, written, remaining⟩ := pass_result distinct passed
  have removed : final.args[entry.1]? = none := by
    rw [pass_args passed, if_pos ⟨entry, by simp, .inl rfl⟩]
  have isMembers : callerObject result = members := by
    simp [callerObject, isObject]
  rw [isMembers, found, removed, Option.none_or, written, received_of_visible visible, remaining]

theorem transformArguments_others
    (returned : (TransformedTool.build argTransforms).transformArguments arguments = .ok result)
    (sent : (callerObject arguments)[name]? = some value)
    (unnamed : ∀ entry ∈ argTransforms.entries, ¬ Takes entry name) :
    (callerObject result)[name]? = some value := by
  obtain ⟨final, passed, members, isObject, found⟩ := transformArguments_eq_ok returned
  have kept : final.args[name]? = some value := by
    rw [pass_args passed, if_neg, sent]
    rintro ⟨entry, listed, takes⟩
    exact unnamed entry listed takes
  have isMembers : callerObject result = members := by
    simp [callerObject, isObject]
  rw [isMembers, found, kept, Option.some_or]

theorem transformArguments_returns (supplied : ∀ entry ∈ argTransforms.entries, Supplied entry)
    (sent : (callerObject arguments)[name]? = some value) :
    ∃ result, (TransformedTool.build argTransforms).transformArguments arguments = .ok result := by
  obtain ⟨final, passed⟩ :=
    (pass_eq_ok_iff argTransforms.entries ⟨callerObject arguments, ∅⟩).mpr supplied
  have read : callerMembers arguments = .ok (callerObject arguments) := by
    cases arguments with
    | object fields => rfl
    | null => rfl
    | bool => simp [callerObject, Value.asObject] at sent
    | number => simp [callerObject, Value.asObject] at sent
    | string => simp [callerObject, Value.asObject] at sent
    | array => simp [callerObject, Value.asObject] at sent
  refine ⟨_, andThen_eq_ok.mpr ⟨_, read, andThen_eq_ok.mpr ⟨final, passed, rfl⟩⟩⟩

/-- The caller's values reach the parent exactly when no visible argument is disturbed. A
call with a hidden argument that has no default is refused. -/
theorem transformArguments_reaches_iff (argTransforms : ArgTransforms) (arguments : Value) :
    (∀ result, (TransformedTool.build argTransforms).transformArguments arguments = .ok result →
        ReachesParent argTransforms arguments result) ↔
      ((∀ entry ∈ argTransforms.entries, Supplied entry) →
        Undisturbed argTransforms arguments) := by
  constructor
  · intro reaches supplied before entry after visited visible value sent
    obtain ⟨result, returned⟩ := transformArguments_returns supplied sent
    have passedOn := (reaches result returned).visible entry (by simp [visited]) visible
    rw [transformArguments_visible returned visited visible, sent, Option.some_or] at passedOn
    by_cases taken : ∃ other ∈ before, Takes other (newName entry)
    · right
      rwa [if_pos taken, Option.none_or] at passedOn
    · left
      intro other listed takes
      exact taken ⟨other, listed, takes⟩
  · intro undisturbed result returned
    have supplied : ∀ entry ∈ argTransforms.entries, Supplied entry := by
      obtain ⟨final, passed, -⟩ := transformArguments_eq_ok returned
      exact (pass_eq_ok_iff _ _).mp ⟨final, passed⟩
    constructor
    · intro entry listed visible
      obtain ⟨before, after, visited⟩ := List.append_of_mem listed
      rw [transformArguments_visible returned visited visible]
      cases sent : (callerObject arguments)[newName entry]? with
      | none => simp
      | some value =>
        rcases undisturbed supplied before entry after visited visible value sent with
          untouched | sameDefault
        · rw [if_neg]
          rintro ⟨other, earlier, takes⟩
          exact untouched other earlier takes
        · split <;> simp [sameDefault]
    · intro name value sent unnamed
      exact transformArguments_others returned sent unnamed

/-- Two arguments that exchange their names. -/
def exchanged : ArgTransforms where
  entries := [("source", { name := some "target" }), ("target", { name := some "source" })]
  distinct := by decide

def exchangedCall : Value :=
  .object [("source", .string "here"), ("target", .string "there")]

/-- No two arguments are published under one name, and yet the second of two exchanged
arguments never arrives: the first one has dropped it as its own original name. -/
theorem exchanged_argument_lost :
    (∀ first ∈ exchanged.entries, ∀ second ∈ exchanged.entries, first ≠ second →
        newName first ≠ newName second) ∧
      ∃ result, (TransformedTool.build exchanged).transformArguments exchangedCall = .ok result ∧
        ¬ ReachesParent exchanged exchangedCall result := by
  have supplied : ∀ entry ∈ exchanged.entries, Supplied entry := by
    simp [exchanged, Supplied]
  have sent : (callerObject exchangedCall)["source"]? = some (.string "here") := by
    decide
  obtain ⟨result, returned⟩ := transformArguments_returns supplied sent
  have visited : exchanged.entries =
      [("source", { name := some "target" })] ++ ("target", { name := some "source" }) :: [] := rfl
  have passedOn := transformArguments_visible returned visited rfl
  refine ⟨by decide, result, returned, fun reaches => ?_⟩
  rw [reaches.visible ("target", { name := some "source" }) (by simp [exchanged]) rfl] at passedOn
  simp [newName, sent, Takes] at passedOn

/-! ## Hidden arguments -/

/-- The parent's value of a listed argument is what its own transform writes: the pass
leaves nothing of that name to be passed on. -/
theorem TransformedTool.Built.transformArguments_received {tool : TransformedTool}
    (built : tool.Built) (returned : tool.transformArguments arguments = .ok result)
    (listed : entry ∈ tool.argTransforms.entries) :
    ∃ left : Object, (callerObject result)[entry.1]? = received left entry := by
  obtain ⟨final, passed, members, isObject, found⟩ := built.transformArguments_eq_ok returned
  have removed : final.args[entry.1]? = none := by
    rw [pass_args passed, if_pos ⟨entry, listed, .inl rfl⟩]
  have isMembers : callerObject result = members := by
    simp [callerObject, isObject]
  obtain ⟨before, after, visited⟩ := List.append_of_mem listed
  have distinct := tool.argTransforms.distinct
  rw [visited] at passed distinct
  obtain ⟨left, written, -⟩ := pass_result distinct passed
  use left
  rw [isMembers, found, removed, Option.none_or, written]

/-- A call that returns has a default for every hidden argument. -/
theorem TransformedTool.Built.supplied {tool : TransformedTool} (built : tool.Built)
    (returned : tool.transformArguments arguments = .ok result) :
    ∀ entry ∈ tool.argTransforms.entries, Supplied entry := by
  obtain ⟨final, passed, -⟩ := built.transformArguments_eq_ok returned
  exact (pass_eq_ok_iff _ _).mp ⟨final, passed⟩

theorem TransformedTool.Built.transformArguments_hidden {tool : TransformedTool}
    (built : tool.Built) (returned : tool.transformArguments arguments = .ok result)
    (listed : entry ∈ tool.argTransforms.entries) (hidden : entry.2.hide = true) :
    ∃ default, entry.2.default = some default ∧
      (callerObject result)[entry.1]? = some default := by
  obtain ⟨left, written⟩ := built.transformArguments_received returned listed
  obtain ⟨default, isDefault⟩ :=
    Option.isSome_iff_exists.mp (built.supplied returned entry listed hidden)
  use default, isDefault
  rw [written, received, if_pos hidden, isDefault]

/-- Hidden arguments are owned by the server. Whatever the caller sends and whatever the
orders in which the table is visited, the parent receives the configured default of every
hidden argument; so another call of a tool with the same transforms gives it the same
value. -/
theorem transformArguments_hidden_owned {tool : TransformedTool} (built : tool.Built)
    {arguments result : Value} (returned : tool.transformArguments arguments = .ok result) :
    ∀ entry ∈ tool.argTransforms.entries, entry.2.hide = true →
      (∃ default, entry.2.default = some default ∧
        (callerObject result)[entry.1]? = some default) ∧
      ∀ other : TransformedTool, other.Built →
        other.argTransforms.entries.Perm tool.argTransforms.entries →
          ∀ otherArguments otherResult, other.transformArguments otherArguments = .ok otherResult →
            (callerObject otherResult)[entry.1]? = (callerObject result)[entry.1]? := by
  intro entry listed hidden
  obtain ⟨default, isDefault, owned⟩ := built.transformArguments_hidden returned listed hidden
  constructor
  · exact ⟨default, isDefault, owned⟩
  · intro other otherBuilt same otherArguments otherResult otherReturned
    obtain ⟨otherDefault, isOtherDefault, otherOwned⟩ :=
      otherBuilt.transformArguments_hidden otherReturned (same.mem_iff.mpr listed) hidden
    rw [owned, otherOwned, ← isDefault, ← isOtherDefault]

/-- A hidden argument and a visible one that is published under its name. -/
def clashing : ArgTransforms where
  entries := [("token", { default := some (.string "server"), hide := true }),
    ("user", { name := some "token" })]
  distinct := by decide

/-- The caller sends its own token to a tool with clashing names. -/
theorem transformArguments_hidden_owned_clashing :
    ∃ result,
      (TransformedTool.build clashing).transformArguments (.object [("token", .string "caller")]) =
        .ok result ∧
      (callerObject result)["token"]? = some (.string "server") := by
  have supplied : ∀ entry ∈ clashing.entries, Supplied entry := by
    simp [clashing, Supplied]
  have sent : (callerObject (.object [("token", .string "caller")]))["token"]? =
      some (.string "caller") := by
    decide
  obtain ⟨result, returned⟩ := transformArguments_returns supplied sent
  obtain ⟨⟨default, isDefault, owned⟩, -⟩ :=
    transformArguments_hidden_owned (TransformedTool.build_built clashing) returned
      ("token", { default := some (.string "server"), hide := true })
      (by simp [clashing, TransformedTool.build]) rfl
  use result, returned
  rw [owned, ← isDefault]

end FastMcp.Transforms
