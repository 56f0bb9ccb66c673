import FastMcp.AbsoluteUriGrammar
import Mathlib.Logic.Relation

/-! # Dot segments

The segments `.` and `..` of a path are removed by moving segments from an input
buffer to an output buffer, as in section 5.2.4 of RFC 3986. What one turn of the
loop may do is a relation between pairs of buffers, and everything that is known
about the loop is derived from it.
-/

namespace FastMcp.Uri

open ByteText TextCutting UriGrammar Relation

/-! ## The last separator -/

/-- The place of the last separator. -/
def rfind (separator : UInt8) (text : Bytes) : Option Nat :=
  (splitOnce separator text.reverse).map fun pieces => pieces.2.length

theorem rfind_eq_none {separator : UInt8} {text : Bytes} :
    rfind separator text = none ↔ separator ∉ text := by
  rw [rfind, Option.map_eq_none_iff, splitOnce_eq_none, List.mem_reverse]

theorem exists_of_rfind {separator : UInt8} {text : Bytes} {place : Nat}
    (found : rfind separator text = some place) :
    ∃ before after, text = before ++ separator :: after ∧ separator ∉ after ∧
      before.length = place := by
  obtain ⟨⟨after, before⟩, split, isPlace⟩ := Option.map_eq_some_iff.mp found
  obtain ⟨isReverse, absent⟩ := splitOnce_eq_some.mp split
  refine ⟨before.reverse, after.reverse, ?_, by simpa using absent, by simpa using isPlace⟩
  rw [← List.reverse_reverse text, isReverse]
  simp

def removeLastUriPathSegment (output : Bytes) : Bytes :=
  match rfind slash output with
  | some separator => output.take separator
  | none => []

/-- The last segment and the separator before it are removed. -/
def RemovesLast (output shorter : Bytes) : Prop :=
  (slash ∉ output ∧ shorter = []) ∨
    ∃ last, output = shorter ++ slash :: last ∧ slash ∉ last

theorem removeLastUriPathSegment_spec (output : Bytes) :
    RemovesLast output (removeLastUriPathSegment output) := by
  unfold removeLastUriPathSegment
  cases found : rfind slash output with
  | none => exact .inl ⟨rfind_eq_none.mp found, rfl⟩
  | some separator =>
    obtain ⟨before, last, rfl, noSlash, rfl⟩ := exists_of_rfind found
    exact .inr ⟨last, congrArg (· ++ slash :: last) List.take_left.symm, noSlash⟩

theorem RemovesLast.isPrefixOf {output shorter : Bytes} (removed : RemovesLast output shorter) :
    shorter <+: output := by
  rcases removed with ⟨-, rfl⟩ | ⟨last, rfl, -⟩
  · exact List.nil_prefix
  · exact List.prefix_append _ _

/-! ## One turn of the loop -/

def IsDots (segment : Bytes) : Prop := segment = [dot] ∨ segment = [dot, dot]

/-- What remains after a segment begins with a separator. -/
def Rooted (path : Bytes) : Prop := path = [] ∨ path.head? = some slash

theorem Rooted.initial {path shorter : Bytes} (rooted : Rooted path) (part : shorter <+: path) :
    Rooted shorter := by
  obtain ⟨tail, rfl⟩ := part
  cases shorter with
  | nil => exact .inl rfl
  | cons first rest => simpa [Rooted] using rooted

/-- A name has no separator at its beginning. -/
theorem not_rooted_append {name rest : Bytes} (named : name ≠ []) (noSlash : slash ∉ name) :
    ¬ Rooted (name ++ rest) := by
  cases name with
  | nil => exact absurd rfl named
  | cons first name =>
    have different : first ≠ slash := fun same => noSlash (same ▸ List.mem_cons_self)
    simpa [Rooted] using different

theorem IsDots.name {dots : Bytes} (isDots : IsDots dots) : dots ≠ [] ∧ slash ∉ dots := by
  rcases isDots with rfl | rfl <;> decide

/-- The turns of the loop, from the input and the output buffer to the next ones. -/
inductive DotStep : Bytes × Bytes → Bytes × Bytes → Prop
  | leading {dots rest output : Bytes} (isDots : IsDots dots) :
    DotStep (dots ++ slash :: rest, output) (rest, output)
  | current {rest output : Bytes} :
    DotStep (slash :: dot :: slash :: rest, output) (slash :: rest, output)
  | currentLast {output : Bytes} : DotStep ([slash, dot], output) ([slash], output)
  | parent {rest output shorter : Bytes} (removed : RemovesLast output shorter) :
    DotStep (slash :: dot :: dot :: slash :: rest, output) (slash :: rest, shorter)
  | parentLast {output shorter : Bytes} (removed : RemovesLast output shorter) :
    DotStep ([slash, dot, dot], output) ([slash], shorter)
  | onlyDots {dots output : Bytes} (isDots : IsDots dots) : DotStep (dots, output) ([], output)
  | move {lead name rest output : Bytes} (isLead : lead = [slash] ∨ lead = [] ∧ name ≠ [])
    (noSlash : slash ∉ name) (notDots : ¬ IsDots name) (rooted : Rooted rest) :
    DotStep (lead ++ name ++ rest, output) (rest, output ++ (lead ++ name))

/-- The place where the first segment of the input ends. -/
def segmentEnd (input : Bytes) : Nat :=
  match stripPrefix [slash] input with
  | some pathAfterInitialSlash =>
    (find slash pathAfterInitialSlash).elim input.length fun index => index + 1
  | none => (find slash input).getD input.length

def removeUriDotStep (input output : Bytes) : Bytes × Bytes :=
  if [dot, dot, slash] <+: input then (input.drop 3, output)
  else if [dot, slash] <+: input then (input.drop 2, output)
  else if [slash, dot, slash] <+: input then (slash :: input.drop 3, output)
  else if input = [slash, dot] then (input.take 1, output)
  else if [slash, dot, dot, slash] <+: input then
    (slash :: input.drop 4, removeLastUriPathSegment output)
  else if input = [slash, dot, dot] then
    (slash :: input.drop 3, removeLastUriPathSegment output)
  else if input = [dot] ∨ input = [dot, dot] then ([], output)
  else (input.drop (segmentEnd input), output ++ input.take (segmentEnd input))

/-- The first segment, with the separator before it if there is one. -/
theorem segmentEnd_cut {input : Bytes} (nonempty : input ≠ []) :
    ∃ lead name rest, input = lead ++ name ++ rest ∧ (lead = [slash] ∨ lead = [] ∧ name ≠ []) ∧
      slash ∉ name ∧ Rooted rest ∧ segmentEnd input = (lead ++ name).length := by
  unfold segmentEnd
  cases stripped : stripPrefix [slash] input with
  | some after =>
    obtain rfl := stripPrefix_eq_some.mp stripped
    obtain ⟨name, rest, isAfter, noSlash, rooted, isLength⟩ := authority_cut after
    refine ⟨[slash], name, rest, by simp [isAfter], .inl rfl, noSlash, rooted, ?_⟩
    have length : ([slash] ++ name).length = (find slash after).getD after.length + 1 := by
      simp [isLength]
    simp only [length]
    cases find slash after <;> rfl
  | none =>
    obtain ⟨name, rest, rfl, noSlash, rooted, isLength⟩ := authority_cut input
    refine ⟨[], name, rest, rfl, .inr ⟨rfl, ?_⟩, noSlash, rooted, isLength⟩
    rintro rfl
    rcases rooted with rfl | isHead
    · exact nonempty rfl
    · obtain ⟨tail, rfl⟩ := List.head?_eq_some_iff.mp isHead
      exact stripPrefix_eq_none.mp stripped ⟨tail, rfl⟩

/-- A first segment of dots is recognized before anything is moved. -/
theorem recognized_of_isDots {lead name rest : Bytes} (isLead : lead = [slash] ∨ lead = [])
    (isDots : IsDots name) (rooted : Rooted rest) :
    [dot, dot, slash] <+: lead ++ name ++ rest ∨ [dot, slash] <+: lead ++ name ++ rest ∨
      [slash, dot, slash] <+: lead ++ name ++ rest ∨ lead ++ name ++ rest = [slash, dot] ∨
      [slash, dot, dot, slash] <+: lead ++ name ++ rest ∨
      lead ++ name ++ rest = [slash, dot, dot] ∨ IsDots (lead ++ name ++ rest) := by
  rcases rooted with rfl | isHead
  · rcases isLead with rfl | rfl <;> rcases isDots with rfl | rfl <;> simp [IsDots]
  · obtain ⟨tail, rfl⟩ := List.head?_eq_some_iff.mp isHead
    rcases isLead with rfl | rfl <;> rcases isDots with rfl | rfl <;> simp

theorem removeUriDotStep_spec {input : Bytes} (nonempty : input ≠ []) (output : Bytes) :
    DotStep (input, output) (removeUriDotStep input output) := by
  have removed := removeLastUriPathSegment_spec output
  unfold removeUriDotStep
  split
  next found =>
    obtain ⟨rest, rfl⟩ := found
    exact .leading (.inr rfl)
  next notParents =>
  split
  next found =>
    obtain ⟨rest, rfl⟩ := found
    exact .leading (.inl rfl)
  next notCurrents =>
  split
  next found =>
    obtain ⟨rest, rfl⟩ := found
    exact .current
  next notCurrent =>
  split
  next found =>
    subst found
    exact .currentLast
  next notCurrentLast =>
  split
  next found =>
    obtain ⟨rest, rfl⟩ := found
    exact .parent removed
  next notParent =>
  split
  next found =>
    subst found
    exact .parentLast removed
  next notParentLast =>
  split
  next found => exact .onlyDots found
  next notOnlyDots =>
    obtain ⟨lead, name, rest, rfl, isLead, noSlash, rooted, isEnd⟩ := segmentEnd_cut nonempty
    rw [isEnd, List.take_left, List.drop_left]
    refine .move isLead noSlash (fun isDots => ?_) rooted
    rcases recognized_of_isDots (isLead.imp_right And.left) isDots rooted with
      found | found | found | found | found | found | found
    · exact notParents found
    · exact notCurrents found
    · exact notCurrent found
    · exact notCurrentLast found
    · exact notParent found
    · exact notParentLast found
    · exact notOnlyDots found

/-- Every turn shortens the input. -/
theorem DotStep.shortens {before after : Bytes × Bytes} (step : DotStep before after) :
    after.1.length < before.1.length := by
  cases step with
  | leading isDots => simp only [List.length_append, List.length_cons]; omega
  | current => simp
  | currentLast => simp
  | parent removed => simp only [List.length_cons]; omega
  | parentLast removed => simp
  | onlyDots isDots => rcases isDots with rfl | rfl <;> simp
  | @move lead name rest output isLead noSlash notDots rooted =>
    have moved : 0 < lead.length + name.length := by
      rcases isLead with rfl | ⟨rfl, named⟩
      · exact Nat.add_pos_left Nat.one_pos _
      · exact Nat.add_pos_right _ (List.length_pos_iff.mpr named)
    simp only [List.length_append]
    omega

/-! ## The whole loop -/

/-- The loop, for at most as many turns as there is fuel. -/
def removeDotSegmentsWithin : Nat → Bytes → Bytes → Bytes
  | 0, _, output => output
  | fuel + 1, input, output =>
    if input = [] then output
    else
      let next := removeUriDotStep input output
      removeDotSegmentsWithin fuel next.1 next.2

/-- Removes the dot segments of a path. The loop has at most as many turns as the path has
bytes. -/
def removeUriDotSegments (path : Bytes) : Bytes :=
  removeDotSegmentsWithin path.length path []

/-- With enough fuel the loop goes on until the input is empty. -/
theorem removeDotSegmentsWithin_run {fuel : Nat} {input output : Bytes}
    (enough : input.length ≤ fuel) :
    ReflTransGen DotStep (input, output) ([], removeDotSegmentsWithin fuel input output) := by
  induction fuel generalizing input output with
  | zero =>
    obtain rfl := List.length_eq_zero_iff.mp (Nat.le_zero.mp enough)
    exact .refl
  | succ fuel ih =>
    rw [removeDotSegmentsWithin]
    split
    next isEmpty =>
      subst isEmpty
      exact .refl
    next nonempty =>
      have step := removeUriDotStep_spec nonempty output
      have shorter : (removeUriDotStep input output).1.length < input.length := step.shortens
      exact .head step (ih (Nat.le_of_lt_succ (Nat.lt_of_lt_of_le shorter enough)))

/-- The loop follows the turns of section 5.2.4 until nothing is left of the path. -/
theorem removeUriDotSegments_run (path : Bytes) :
    ReflTransGen DotStep (path, []) ([], removeUriDotSegments path) :=
  removeDotSegmentsWithin_run (Nat.le_refl _)

/-- What every turn keeps holds at the end of the loop. -/
theorem removeUriDotSegments_keeps (path : Bytes) (holds : Bytes → Bytes → Prop)
    (start : holds path [])
    (keeps : ∀ {input output nextInput nextOutput : Bytes},
      DotStep (input, output) (nextInput, nextOutput) → holds input output →
        holds nextInput nextOutput) :
    holds [] (removeUriDotSegments path) := by
  have run {first last : Bytes × Bytes} (steps : ReflTransGen DotStep first last)
      (held : holds first.1 first.2) : holds last.1 last.2 := by
    induction steps with
    | refl => exact held
    | tail _ step ih => exact keeps step ih
  exact run (removeUriDotSegments_run path) start

/-! ## What the loop keeps -/

theorem length_removeUriDotSegments_le (path : Bytes) :
    (removeUriDotSegments path).length ≤ path.length := by
  have bounded : ([] : Bytes).length + (removeUriDotSegments path).length ≤ path.length := by
    apply removeUriDotSegments_keeps path
      (fun input output => input.length + output.length ≤ path.length) (Nat.le_refl _)
    intro input output nextInput nextOutput step bounded
    have shorter : nextInput.length < input.length := step.shortens
    cases step with
    | leading isDots => omega
    | current => omega
    | currentLast => omega
    | parent removed | parentLast removed =>
      have := removed.isPrefixOf.length_le
      omega
    | onlyDots isDots => omega
    | move isLead noSlash notDots rooted =>
      simp only [List.length_append] at bounded ⊢
      omega
  simpa using bounded

/-- Every byte of the result is a byte of the path. -/
theorem mem_of_mem_removeUriDotSegments {path : Bytes} {byte : UInt8}
    (listed : byte ∈ removeUriDotSegments path) : byte ∈ path := by
  have within : ∀ other, other ∈ ([] : Bytes) ∨ other ∈ removeUriDotSegments path →
      other ∈ path := by
    apply removeUriDotSegments_keeps path
      (fun input output => ∀ other, other ∈ input ∨ other ∈ output → other ∈ path) (by simp)
    intro input output nextInput nextOutput step within other listed
    apply within
    cases step with
    | leading isDots => simp_all only [List.mem_append, List.mem_cons]; tauto
    | current | currentLast => simp_all only [List.mem_cons]; tauto
    | parent removed | parentLast removed =>
      have := removed.isPrefixOf.subset (a := other)
      simp_all only [List.mem_cons]
      tauto
    | onlyDots isDots => simp_all
    | move isLead noSlash notDots rooted => simp_all only [List.mem_append]; tauto
  exact within byte (.inr listed)

/-- A path that begins with a separator, or is empty, remains so. -/
theorem rooted_removeUriDotSegments {path : Bytes} (rooted : Rooted path) :
    Rooted (removeUriDotSegments path) := by
  have kept : Rooted [] ∧ Rooted (removeUriDotSegments path) := by
    apply removeUriDotSegments_keeps path (fun input output => Rooted input ∧ Rooted output)
      ⟨rooted, .inl rfl⟩
    rintro input output nextInput nextOutput step ⟨inputRooted, outputRooted⟩
    cases step with
    | leading isDots =>
      exact absurd inputRooted (not_rooted_append isDots.name.1 isDots.name.2)
    | current | currentLast => exact ⟨.inr rfl, outputRooted⟩
    | parent removed | parentLast removed =>
      exact ⟨.inr rfl, outputRooted.initial removed.isPrefixOf⟩
    | onlyDots isDots => exact ⟨.inl rfl, outputRooted⟩
    | move isLead noSlash notDots restRooted =>
      refine ⟨restRooted, ?_⟩
      rcases isLead with rfl | ⟨rfl, named⟩
      · rcases outputRooted with rfl | isHead
        · exact .inr rfl
        · exact .inr (by simp [isHead])
      · exact absurd inputRooted (not_rooted_append named noSlash)
  exact kept.2

/-! ## No dots remain -/

/-- No segment between separators consists of dots. -/
def NoDots (path : Bytes) : Prop := ∀ segment ∈ path.splitOn slash, ¬ IsDots segment

instance (segment : Bytes) : Decidable (IsDots segment) := inferInstanceAs (Decidable (_ ∨ _))

instance (path : Bytes) : Decidable (NoDots path) :=
  inferInstanceAs (Decidable (∀ segment ∈ path.splitOn slash, ¬ IsDots segment))

theorem noDots_append {before after : Bytes} :
    NoDots (before ++ slash :: after) ↔ NoDots before ∧ NoDots after := by
  simp only [NoDots, List.splitOn_append_cons_self, List.forall_mem_append]

theorem noDots_of_noSlash {name : Bytes} (noSlash : slash ∉ name) :
    NoDots name ↔ ¬ IsDots name := by
  simp only [NoDots, List.splitOn_eq_singleton noSlash, List.mem_singleton, forall_eq]

theorem noDots_nil : NoDots [] := by decide

theorem RemovesLast.noDots {output shorter : Bytes} (removed : RemovesLast output shorter)
    (noDots : NoDots output) : NoDots shorter := by
  rcases removed with ⟨-, rfl⟩ | ⟨last, rfl, -⟩
  · exact noDots_nil
  · exact (noDots_append.mp noDots).1

theorem noDots_removeUriDotSegments (path : Bytes) : NoDots (removeUriDotSegments path) := by
  -- Once something was moved to the output, the input begins with a separator.
  have kept : NoDots (removeUriDotSegments path) ∧
      (removeUriDotSegments path = [] ∨ Rooted []) := by
    apply removeUriDotSegments_keeps path
      (fun input output => NoDots output ∧ (output = [] ∨ Rooted input)) ⟨noDots_nil, .inl rfl⟩
    rintro input output nextInput nextOutput step ⟨noDots, start⟩
    cases step with
    | leading isDots =>
      exact ⟨noDots, start.imp_right fun rooted =>
        absurd rooted (not_rooted_append isDots.name.1 isDots.name.2)⟩
    | current | currentLast => exact ⟨noDots, .inr (.inr rfl)⟩
    | parent removed | parentLast removed => exact ⟨removed.noDots noDots, .inr (.inr rfl)⟩
    | onlyDots isDots => exact ⟨noDots, .inr (.inl rfl)⟩
    | move isLead noSlash notDots rooted =>
      refine ⟨?_, .inr rooted⟩
      rcases isLead with rfl | ⟨rfl, named⟩
      · exact noDots_append.mpr ⟨noDots, (noDots_of_noSlash noSlash).mpr notDots⟩
      · rcases start with rfl | rooted
        · exact (noDots_of_noSlash noSlash).mpr notDots
        · exact absurd rooted (not_rooted_append named noSlash)
  exact kept.1

theorem not_noDots {dots : Bytes} (isDots : IsDots dots) : ¬ NoDots dots := fun noDots =>
  (noDots_of_noSlash isDots.name.2).mp noDots isDots

/-- Nothing but moving is done to a path without dot segments. -/
theorem DotStep.of_noDots {before after : Bytes × Bytes} (step : DotStep before after)
    (noDots : NoDots before.1) : after.2 ++ after.1 = before.2 ++ before.1 ∧ NoDots after.1 := by
  have rest {after : Bytes} (whole : NoDots (slash :: after)) : NoDots after :=
    (@noDots_append [] after |>.mp whole).2
  have first {before after : Bytes} (whole : NoDots (before ++ slash :: after)) : NoDots before :=
    (noDots_append.mp whole).1
  cases step with
  | leading isDots => exact absurd (first noDots) (not_noDots isDots)
  | current => exact absurd (first (rest noDots)) (not_noDots (.inl rfl))
  | currentLast => exact absurd (rest noDots) (not_noDots (.inl rfl))
  | parent removed => exact absurd (first (rest noDots)) (not_noDots (.inr rfl))
  | parentLast removed => exact absurd (rest noDots) (not_noDots (.inr rfl))
  | onlyDots isDots => exact absurd noDots (not_noDots isDots)
  | move isLead noSlash notDots rooted =>
    refine ⟨by simp, ?_⟩
    rcases rooted with rfl | isHead
    · exact noDots_nil
    · obtain ⟨tail, rfl⟩ := List.head?_eq_some_iff.mp isHead
      exact noDots_append.mpr ⟨noDots_nil, (noDots_append.mp noDots).2⟩

/-- A path without dot segments is moved to the output as it is. -/
theorem removeUriDotSegments_of_noDots {path : Bytes} (noDots : NoDots path) :
    removeUriDotSegments path = path := by
  have moved : NoDots [] ∧ removeUriDotSegments path ++ [] = path := by
    apply removeUriDotSegments_keeps path
      (fun input output => NoDots input ∧ output ++ input = path) ⟨noDots, rfl⟩
    rintro input output nextInput nextOutput step ⟨free, whole⟩
    obtain ⟨same, nextFree⟩ := step.of_noDots free
    exact ⟨nextFree, same.trans whole⟩
  rw [← List.append_nil (removeUriDotSegments path), moved.2]

theorem removeUriDotSegments_idempotent (path : Bytes) :
    removeUriDotSegments (removeUriDotSegments path) = removeUriDotSegments path :=
  removeUriDotSegments_of_noDots (noDots_removeUriDotSegments path)

end FastMcp.Uri
