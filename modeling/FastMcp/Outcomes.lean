import Mathlib.Data.List.Basic

/-! # Taking fallible computations apart

A composed computation succeeds exactly when its parts do. These rules peel
sequences, images and traversals of results that may be errors.
-/

namespace FastMcp.Outcomes

variable {Failure First Second : Type*}

theorem bind_eq_ok {result : Except Failure First} {next : First → Except Failure Second}
    {value : Second} :
    result.bind next = .ok value ↔ ∃ first, result = .ok first ∧ next first = .ok value := by
  cases result with
  | error failure => simp [Except.bind]
  | ok first => simp [Except.bind]

theorem andThen_eq_ok {First Second : Type} {result : Except Failure First}
    {next : First → Except Failure Second} {value : Second} :
    (result >>= next) = .ok value ↔ ∃ first, result = .ok first ∧ next first = .ok value :=
  bind_eq_ok

theorem ok_bind (value : First) (next : First → Except Failure Second) :
    (Except.ok value).bind next = next value := rfl

theorem checkedBind_eq_ok {check : Except Failure Unit} {next : Unit → Except Failure Second}
    {value : Second} :
    check.bind next = .ok value ↔ check = .ok () ∧ next () = .ok value := by
  cases check <;> simp [Except.bind]

theorem throw_andThen {First Second : Type} (failure : Failure)
    (next : First → Except Failure Second) :
    (throw failure >>= next : Except Failure Second) = .error failure := rfl

/-- An error that is thrown under a condition. -/
theorem guard_eq_ok {condition : Prop} [Decidable condition] {failure : Failure}
    {next : Except Failure First} {value : First} :
    (if condition then .error failure else next) = .ok value ↔ ¬ condition ∧ next = .ok value := by
  split <;> simp [*]

/-- A check that fails with the given error. -/
def require (condition : Prop) [Decidable condition] (failure : Failure) : Except Failure Unit :=
  if condition then .ok () else .error failure

@[simp]
theorem require_eq_ok {condition : Prop} [Decidable condition] {failure : Failure} {value : Unit} :
    require condition failure = .ok value ↔ condition := by
  unfold require
  split <;> simp [*]

/-- The value of an option, or the given error. -/
def orFail (failure : Failure) : Option First → Except Failure First
  | some value => .ok value
  | none => .error failure

@[simp]
theorem orFail_eq_ok {failure : Failure} {found : Option First} {value : First} :
    orFail failure found = .ok value ↔ found = some value := by
  cases found <;> simp [orFail]

/-- How a computation goes on matters only for the values it reaches. -/
theorem bind_congr_ok {result : Except Failure First} {next other : First → Except Failure Second}
    (same : ∀ value, result = .ok value → next value = other value) :
    result.bind next = result.bind other := by
  cases result with
  | error failure => rfl
  | ok value => exact same value rfl

theorem map_eq_ok {result : Except Failure First} {change : First → Second} {value : Second} :
    result.map change = .ok value ↔ ∃ first, result = .ok first ∧ change first = value := by
  cases result with
  | error failure => simp [Except.map]
  | ok first => simp [Except.map]

theorem mapError_eq_ok {Other : Type*} {result : Except Failure First} {change : Failure → Other}
    {value : First} : result.mapError change = .ok value ↔ result = .ok value := by
  cases result <;> simp [Except.mapError]

theorem forM_eq_ok {items : List First} {check : First → Except Failure Unit} :
    items.forM check = .ok () ↔ ∀ item ∈ items, check item = .ok () := by
  induction items with
  | nil => simp [List.forM, pure, Except.pure]
  | cons item items ih =>
    rw [List.forall_mem_cons, ← ih]
    change (check item).bind (fun _ => items.forM check) = .ok () ↔ _
    rw [bind_eq_ok]
    constructor
    · rintro ⟨⟨⟩, checked, rest⟩
      exact ⟨checked, rest⟩
    · rintro ⟨checked, rest⟩
      exact ⟨(), checked, rest⟩

/-- A computation that can only fail by passing a bound on the size of its
result: it returns exactly the given value, if that value fits. -/
def Yields (size : First → Nat) (bound : Nat) (result : Except Failure First) (value : First) :
    Prop :=
  ∀ other, result = .ok other ↔ other = value ∧ size other ≤ bound

theorem Yields.ok {size : First → Nat} {bound : Nat} {value : First} (fits : size value ≤ bound) :
    Yields size bound (.ok value : Except Failure First) value := by
  intro other
  rw [Except.ok.injEq, eq_comm]
  constructor
  · rintro rfl
    exact ⟨rfl, fits⟩
  · exact And.left

theorem Yields.map {firstSize : First → Nat} {secondSize : Second → Nat} {bound : Nat}
    {result : Except Failure First} {value : First} (yields : Yields firstSize bound result value)
    (change : First → Second) (sameSize : ∀ item, secondSize (change item) = firstSize item) :
    Yields secondSize bound (result.map change) (change value) := by
  intro other
  rw [map_eq_ok]
  constructor
  · rintro ⟨first, returned, rfl⟩
    obtain ⟨rfl, fits⟩ := (yields first).mp returned
    exact ⟨rfl, sameSize first ▸ fits⟩
  · rintro ⟨rfl, fits⟩
    rw [sameSize] at fits
    exact ⟨value, (yields value).mpr ⟨rfl, fits⟩, rfl⟩

/-- Two bounded computations in sequence, the second of which only grows. -/
theorem Yields.bind {firstSize : First → Nat} {secondSize : Second → Nat} {bound : Nat}
    {result : Except Failure First} {middle : First} {next : First → Except Failure Second}
    {value : Second} (first : Yields firstSize bound result middle)
    (second : firstSize middle ≤ bound → Yields secondSize bound (next middle) value)
    (grows : firstSize middle ≤ secondSize value) :
    Yields secondSize bound (result.bind next) value := by
  intro other
  rw [bind_eq_ok]
  constructor
  · rintro ⟨reached, returned, continued⟩
    obtain ⟨rfl, fits⟩ := (first reached).mp returned
    exact (second fits other).mp continued
  · rintro ⟨rfl, fits⟩
    have middleFits := Nat.le_trans grows fits
    exact ⟨middle, (first middle).mpr ⟨rfl, middleFits⟩, (second middleFits _).mpr ⟨rfl, fits⟩⟩

end FastMcp.Outcomes
