import Mathlib.Data.Nat.Digits.Lemmas

/-! # Decimal digit strings

A digit string lists its digits with the most significant one first. Strings
without leading zeros are compared by length and then digit by digit, and
subtraction borrows from right to left.
-/

namespace FastMcp.DecimalDigits

/-- The number that a digit string denotes. -/
def value (digits : List Nat) : Nat :=
  Nat.ofDigits 10 digits.reverse

/-- Every entry is a decimal digit. -/
def Bounded (digits : List Nat) : Prop :=
  ∀ digit ∈ digits, digit < 10

/-- The first digit is not zero. -/
def Trimmed (digits : List Nat) : Prop :=
  digits.head? ≠ some 0

/-- Removes leading zeros. -/
def trim (digits : List Nat) : List Nat :=
  digits.dropWhile (· = 0)

@[simp]
theorem value_nil : value [] = 0 :=
  rfl

theorem value_append (first second : List Nat) :
    value (first ++ second) = value first * 10 ^ second.length + value second := by
  rw [value, List.reverse_append, Nat.ofDigits_append, List.length_reverse, ← value, ← value]
  ring

theorem value_snoc (digits : List Nat) (digit : Nat) :
    value (digits ++ [digit]) = 10 * value digits + digit := by
  rw [value_append]
  simp [value, Nat.mul_comm]

theorem value_cons (digit : Nat) (digits : List Nat) :
    value (digit :: digits) = digit * 10 ^ digits.length + value digits := by
  rw [← List.singleton_append, value_append]
  simp [value]

@[simp]
theorem value_replicate_zero (count : Nat) : value (List.replicate count 0) = 0 := by
  induction count with
  | zero => rfl
  | succ count ih => rw [List.replicate_succ, value_cons, ih, Nat.zero_mul]

theorem value_append_zeros (digits : List Nat) (count : Nat) :
    value (digits ++ List.replicate count 0) = value digits * 10 ^ count := by
  rw [value_append, value_replicate_zero, List.length_replicate, Nat.add_zero]

theorem Bounded.append {first second : List Nat} (firstBounded : Bounded first)
    (secondBounded : Bounded second) : Bounded (first ++ second) :=
  List.forall_mem_append.mpr ⟨firstBounded, secondBounded⟩

variable {digits : List Nat}

theorem Bounded.value_lt (bounded : Bounded digits) : value digits < 10 ^ digits.length := by
  rw [← List.length_reverse]
  refine Nat.ofDigits_lt_base_pow_length (by decide) fun digit member => ?_
  exact bounded digit (List.mem_reverse.mp member)

theorem Trimmed.le_value (trimmed : Trimmed digits) (nonempty : digits ≠ []) :
    10 ^ (digits.length - 1) ≤ value digits := by
  cases digits with
  | nil => contradiction
  | cons digit digits =>
    have positive : 0 < digit := Nat.pos_of_ne_zero fun zero => trimmed (by rw [zero]; rfl)
    rw [value_cons, List.length_cons, Nat.add_sub_cancel]
    exact Nat.le_trans (Nat.le_mul_of_pos_left _ positive) (Nat.le_add_right _ _)

theorem Trimmed.value_eq_zero (trimmed : Trimmed digits) : value digits = 0 ↔ digits = [] := by
  refine ⟨fun zero => ?_, fun empty => by rw [empty, value_nil]⟩
  by_contra nonempty
  have bound := trimmed.le_value nonempty
  have positive : 0 < 10 ^ (digits.length - 1) := Nat.pow_pos (by decide)
  omega

/-- A string without leading zeros has no more digits than any bound for its
value has zeros. -/
theorem Trimmed.length_le (trimmed : Trimmed digits) {length : Nat}
    (small : value digits < 10 ^ length) : digits.length ≤ length := by
  by_contra long
  have nonempty : digits ≠ [] := by
    rintro rfl
    exact long (Nat.zero_le _)
  have power : 10 ^ length ≤ 10 ^ (digits.length - 1) :=
    Nat.pow_le_pow_right (by decide) (by omega)
  exact absurd (Nat.lt_of_lt_of_le small power) (Nat.not_lt.mpr (trimmed.le_value nonempty))

theorem Trimmed.lt_of_length_lt {left right : List Nat} (bounded : Bounded left)
    (trimmed : Trimmed right) (shorter : left.length < right.length) :
    value left < value right := by
  have nonempty : right ≠ [] := by
    rintro rfl
    exact absurd shorter (Nat.not_lt_zero _)
  calc value left < 10 ^ left.length := bounded.value_lt
    _ ≤ 10 ^ (right.length - 1) := Nat.pow_le_pow_right (by decide) (by omega)
    _ ≤ value right := trimmed.le_value nonempty

theorem trim_trimmed (digits : List Nat) : Trimmed (trim digits) := by
  intro zeroFirst
  have first := List.head?_dropWhile_not (· = 0) digits
  rw [← trim, zeroFirst] at first
  contradiction

theorem value_trim (digits : List Nat) : value (trim digits) = value digits := by
  induction digits with
  | nil => rfl
  | cons digit digits ih =>
    by_cases zero : digit = 0
    · rw [value_cons, zero, Nat.zero_mul, Nat.zero_add, ← ih]
      rfl
    · rw [trim, List.dropWhile_cons_of_neg (by simpa using zero)]

theorem Bounded.trim (bounded : Bounded digits) : Bounded (trim digits) :=
  fun digit member => bounded digit ((List.dropWhile_sublist _).subset member)

theorem length_trim_le (digits : List Nat) : (trim digits).length ≤ digits.length :=
  (List.dropWhile_sublist _).length_le

theorem ofDigits_eq_zero_iff (digits : List Nat) :
    Nat.ofDigits 10 digits = 0 ↔ digits.all (· = 0) = true := by
  induction digits with
  | nil => simp
  | cons digit digits ih =>
    rw [Nat.ofDigits_cons, Nat.add_eq_zero_iff, Nat.mul_eq_zero, ih]
    simp

/-- The last digits are zeros when the power of ten of their number divides. -/
theorem lastDigits_zero_iff (bounded : Bounded digits) (count : Nat) :
    (digits.reverse.take count).all (· = 0) = true ↔
      10 ^ count ∣ value digits := by
  have reversed : ∀ digit ∈ digits.reverse, digit < 10 :=
    fun digit listed => bounded digit (List.mem_reverse.mp listed)
  rw [Nat.dvd_iff_mod_eq_zero, value,
    Nat.ofDigits_mod_pow_eq_ofDigits_take count (by decide) _ reversed, ofDigits_eq_zero_iff]

section Comparison

/-- Compares two strings of one length digit by digit. -/
def compareDigits : List Nat → List Nat → Ordering
  | left :: lefts, right :: rights =>
    match compare left right with
    | .eq => compareDigits lefts rights
    | order => order
  | [], [] => .eq
  | [], _ :: _ => .lt
  | _ :: _, [] => .gt

theorem compareDigits_eq_compare {left right : List Nat} (leftBounded : Bounded left)
    (rightBounded : Bounded right) (sameLength : left.length = right.length) :
    compareDigits left right = compare (value left) (value right) := by
  induction left generalizing right with
  | nil =>
    rw [List.eq_nil_of_length_eq_zero sameLength.symm]
    rfl
  | cons leftDigit left ih =>
    cases right with
    | nil => contradiction
    | cons rightDigit right =>
      obtain ⟨-, leftTail⟩ := List.forall_mem_cons.mp leftBounded
      obtain ⟨-, rightTail⟩ := List.forall_mem_cons.mp rightBounded
      have lengths : left.length = right.length := Nat.succ.inj sameLength
      have leftSmall := Bounded.value_lt leftTail
      have rightSmall := Bounded.value_lt rightTail
      rw [compareDigits, ih leftTail rightTail lengths, value_cons, value_cons, lengths]
      rw [lengths] at leftSmall
      rcases Nat.lt_trichotomy leftDigit rightDigit with less | rfl | greater
      · have bound : (leftDigit + 1) * 10 ^ right.length ≤ rightDigit * 10 ^ right.length :=
          Nat.mul_le_mul_right _ less
        rw [Nat.add_mul, Nat.one_mul] at bound
        rw [Nat.compare_eq_lt.mpr less]
        exact (Nat.compare_eq_lt.mpr (by omega)).symm
      · rw [Nat.compare_eq_eq.mpr rfl]
        simp [compare, compareOfLessAndEq]
      · have bound : (rightDigit + 1) * 10 ^ right.length ≤ leftDigit * 10 ^ right.length :=
          Nat.mul_le_mul_right _ greater
        rw [Nat.add_mul, Nat.one_mul] at bound
        rw [Nat.compare_eq_gt.mpr greater]
        exact (Nat.compare_eq_gt.mpr (by omega)).symm

/-- Strings without leading zeros are compared by length first. -/
def compareIntegers (left right : List Nat) : Ordering :=
  match compare left.length right.length with
  | .eq => compareDigits left right
  | order => order

theorem compareIntegers_eq_compare {left right : List Nat} (leftBounded : Bounded left)
    (rightBounded : Bounded right) (leftTrimmed : Trimmed left) (rightTrimmed : Trimmed right) :
    compareIntegers left right = compare (value left) (value right) := by
  unfold compareIntegers
  rcases Nat.lt_trichotomy left.length right.length with less | same | greater
  · rw [Nat.compare_eq_lt.mpr less]
    exact (Nat.compare_eq_lt.mpr (Trimmed.lt_of_length_lt leftBounded rightTrimmed less)).symm
  · rw [Nat.compare_eq_eq.mpr same]
    exact compareDigits_eq_compare leftBounded rightBounded same
  · rw [Nat.compare_eq_gt.mpr greater]
    exact (Nat.compare_eq_gt.mpr (Trimmed.lt_of_length_lt rightBounded leftTrimmed greater)).symm

end Comparison

section Subtraction

variable (subtrahend : Nat → Nat)

/-- Subtracts from right to left, with the least significant digit first. The
digit to subtract at each place is given by a function. -/
def subtractFrom : Nat → Nat → List Nat → List Nat
  | _, _, [] => []
  | place, borrow, digit :: digits =>
    if digit < subtrahend place + borrow then
      (digit + 10 - (subtrahend place + borrow)) :: subtractFrom (place + 1) 1 digits
    else (digit - (subtrahend place + borrow)) :: subtractFrom (place + 1) 0 digits

/-- The digits that are subtracted from the given place on. -/
def subtrahendDigits (place count : Nat) : List Nat :=
  (List.range' place count).map subtrahend

@[simp]
theorem length_subtractFrom (place borrow : Nat) (digits : List Nat) :
    (subtractFrom subtrahend place borrow digits).length = digits.length := by
  induction digits generalizing place borrow with
  | nil => rfl
  | cons digit digits ih =>
    rw [subtractFrom]
    split <;> rw [List.length_cons, ih, List.length_cons]

variable {subtrahend}

theorem subtractFrom_bounded {place borrow : Nat} {digits : List Nat} (borrowSmall : borrow ≤ 1)
    (bounded : Bounded digits) : Bounded (subtractFrom subtrahend place borrow digits) := by
  induction digits generalizing place borrow with
  | nil => exact fun digit member => absurd member List.not_mem_nil
  | cons digit digits ih =>
    obtain ⟨digitSmall, tailBounded⟩ := List.forall_mem_cons.mp bounded
    rw [subtractFrom]
    split
    · exact List.forall_mem_cons.mpr ⟨by omega, ih (Nat.le_refl 1) tailBounded⟩
    · exact List.forall_mem_cons.mpr ⟨by omega, ih (Nat.zero_le 1) tailBounded⟩

/-- What is left and what was subtracted add up to the minuend, up to the last
borrow. -/
theorem subtractFrom_add (small : ∀ place, subtrahend place < 10) (place : Nat) {borrow : Nat}
    {digits : List Nat} (borrowSmall : borrow ≤ 1) (bounded : Bounded digits) :
    ∃ last ≤ 1, Nat.ofDigits 10 (subtractFrom subtrahend place borrow digits) +
        Nat.ofDigits 10 (subtrahendDigits subtrahend place digits.length) + borrow =
      Nat.ofDigits 10 digits + last * 10 ^ digits.length := by
  induction digits generalizing place borrow with
  | nil => exact ⟨borrow, borrowSmall, by simp [subtractFrom, subtrahendDigits]⟩
  | cons digit digits ih =>
    obtain ⟨digitSmall, tailBounded⟩ := List.forall_mem_cons.mp bounded
    have placeSmall := small place
    rw [subtractFrom, List.length_cons, subtrahendDigits, List.range'_succ, List.map_cons,
      ← subtrahendDigits]
    split
    · obtain ⟨last, lastSmall, sum⟩ := ih (place + 1) (Nat.le_refl 1) tailBounded
      refine ⟨last, lastSmall, ?_⟩
      simp only [Nat.ofDigits_cons, Nat.pow_succ]
      rw [← Nat.mul_assoc, Nat.mul_comm (last * 10 ^ digits.length) 10]
      omega
    · obtain ⟨last, lastSmall, sum⟩ := ih (place + 1) (Nat.zero_le 1) tailBounded
      refine ⟨last, lastSmall, ?_⟩
      simp only [Nat.ofDigits_cons, Nat.pow_succ]
      rw [← Nat.mul_assoc, Nat.mul_comm (last * 10 ^ digits.length) 10]
      omega

end Subtraction

end FastMcp.DecimalDigits
