import FastMcp.RateLimiting

/-! # The recency index of the partitions

A store keeps its partitions twice: under their keys, and in an index ordered by
the time when each was last seen. Clock readings may arrive out of order, so a
time that was entered is only ever replaced by a later one. The search for a
partition to reclaim stops at the first that was not idle for long enough. All
partitions after it were seen later still.
-/

namespace FastMcp.RateLimiting.PartitionStore

open OrderedMaps TransitionRuns

variable {Key Limiter Result : Type} [Ord Key] [Std.TransOrd Key] [Std.LawfulEqOrd Key]

/-- When the partition of a key was last seen. -/
def lastSeen (store : PartitionStore Key Limiter) (key : Key) : Option Nat :=
  store.entries[key]?.map ClientPartition.lastSeen

/-- The index holds every partition at the time when it was last seen, and nothing else. -/
def Indexed (store : PartitionStore Key Limiter) : Prop :=
  ∀ seen key, (seen, key) ∈ store.recency ↔ store.lastSeen key = some seen

/-- One call on a store. A partition is entered under a key that has none. -/
inductive Uses : PartitionStore Key Limiter → PartitionStore Key Limiter → Prop
  | useExistingAt (store : PartitionStore Key Limiter) (key : Key) (now : Nat) {Result : Type}
    (operation : Limiter → Result × Limiter) : Uses store (store.useExistingAt key now operation).2
  | insertAt (store : PartitionStore Key Limiter) (key : Key) (limiter : Limiter) (seen : Nat)
    (absent : store.entries[key]? = none) : Uses store (store.insertAt key limiter seen)
  | reclaimOldestIf (store : PartitionStore Key Limiter) (now idleTtl : Nat)
    (isReset : Nat → Limiter → Bool × Limiter) :
    Uses store (store.reclaimOldestIf now idleTtl isReset).2

/-! ## The search for a partition to reclaim -/

section Search

variable {now idleTtl : Nat} {isReset : Nat → Limiter → Bool × Limiter}

/-- What a search has done to the entries when it stops after some of its candidates. Each of them
was idle, was tested in its turn and was not reset. -/
structure Searched (now idleTtl : Nat) (isReset : Nat → Limiter → Bool × Limiter) (tests : Nat)
    (candidates : List (Nat × Key))
    (entries : Std.ExtTreeMap Key (ClientPartition Limiter) compare)
    (outcome : Option (Nat × Key) × Std.ExtTreeMap Key (ClientPartition Limiter) compare)
    (stop : Nat) : Prop where
  earlier : ∀ turn < stop, ∀ seen key entry, candidates[turn]? = some (seen, key) →
    entries[key]? = some entry → (isReset (tests + turn) entry.limiter).1 = false ∧
      outcome.2[key]? = some { entry with limiter := (isReset (tests + turn) entry.limiter).2 }
  nothing : outcome.1 = none → ∀ turn ≥ stop, ∀ seen key,
    candidates[turn]? = some (seen, key) → now < seen + idleTtl
  found : ∀ seen key, outcome.1 = some (seen, key) →
    candidates[stop]? = some (seen, key) ∧ seen + idleTtl ≤ now ∧
      ∀ entry, entries[key]? = some entry → (isReset (tests + stop) entry.limiter).1 = true
  others : ∀ key, (∀ turn < stop, ∀ seen, candidates[turn]? ≠ some (seen, key)) →
    outcome.1.map Prod.snd ≠ some key → outcome.2[key]? = entries[key]?

theorem oldestReset_searched {tests : Nat} {candidates : List (Nat × Key)}
    {entries : Std.ExtTreeMap Key (ClientPartition Limiter) compare}
    (present : ∀ candidate ∈ candidates, entries[candidate.2]?.isSome)
    (once : (candidates.map Prod.snd).Nodup)
    (ordered : candidates.Pairwise fun first second => first.1 ≤ second.1) :
    ∃ stop, Searched now idleTtl isReset tests candidates entries
      (oldestReset now idleTtl isReset tests candidates entries) stop := by
  -- a partition that is too recent for the search makes all later ones too recent
  have tooRecent {tests seen : Nat} {key : Key} {rest : List (Nat × Key)}
      {entries : Std.ExtTreeMap Key (ClientPartition Limiter) compare}
      (ordered : ((seen, key) :: rest).Pairwise fun first second => first.1 ≤ second.1)
      (recent : now < seen + idleTtl) : ∃ stop, Searched now idleTtl isReset tests
        ((seen, key) :: rest) entries (none, entries) stop := by
    refine ⟨0, nofun, fun _ turn _ later other listed => ?_, nofun, fun _ _ _ => rfl⟩
    have notBefore : seen ≤ later := by
      rcases List.mem_cons.mp (List.mem_of_getElem? listed) with same | listed
      · cases same; exact Nat.le_refl _
      · exact (List.pairwise_cons.mp ordered).1 _ listed
    omega
  fun_induction oldestReset now idleTtl isReset tests candidates entries with
  | case1 => exact ⟨0, nofun, by simp, nofun, fun _ _ _ => rfl⟩
  | case2 => exact tooRecent ordered (by omega)
  | case3 => exact tooRecent ordered (by omega)
  | case4 tests seen key rest entries _ _ absent =>
    have isPresent := present (seen, key) List.mem_cons_self
    simp [absent] at isPresent
  | case5 tests seen key rest entries _ _ entry isPresent limiter tested outcome =>
    refine ⟨0, nofun, nofun, fun found other same => ?_, fun other _ different => ?_⟩
    · cases same
      refine ⟨rfl, by omega, fun other same => ?_⟩
      cases isPresent.symm.trans same
      rw [Nat.add_zero, outcome]
    · exact getElem?_insert_ne _ _ fun same => different (by simp [same])
  | case6 tests seen key rest entries _ _ entry isPresent reset limiter outcome tested notReset ih =>
    obtain ⟨isNew, once⟩ := List.nodup_cons.mp once
    have elsewhere : ∀ other ≠ key, tested[other]? = entries[other]? := fun other different =>
      getElem?_insert_ne _ _ different
    have notHead {turn later : Nat} {other : Key} (listed : rest[turn]? = some (later, other)) :
        other ≠ key := by
      rintro rfl
      exact isNew (List.mem_map.mpr ⟨_, List.mem_of_getElem? listed, rfl⟩)
    obtain ⟨stop, searched⟩ := ih (fun candidate listed => by
        obtain ⟨turn, isAt⟩ := List.mem_iff_getElem?.mp listed
        rw [elsewhere _ (notHead isAt)]
        exact present candidate (List.mem_cons_of_mem _ listed)) once (List.pairwise_cons.mp ordered).2
    refine ⟨stop + 1, fun turn before later other found listed isFound => ?_,
      fun none turn after later other listed => ?_, fun later other same => ?_,
      fun other untested different => ?_⟩
    · cases turn with
      | zero =>
        cases listed
        cases isPresent.symm.trans isFound
        refine ⟨by rw [Nat.add_zero, outcome]; simpa using notReset, ?_⟩
        rw [searched.others key (fun turn _ seen listed => notHead listed rfl)]
        · rw [Nat.add_zero, outcome]
          exact Std.ExtTreeMap.getElem?_insert_self
        · intro same
          obtain ⟨⟨later, other⟩, same, rfl⟩ := Option.map_eq_some_iff.mp same
          exact notHead (searched.found _ _ same).1 rfl
      | succ turn =>
        rw [← elsewhere other (notHead listed)] at isFound
        rw [← Nat.add_assoc, Nat.add_right_comm]
        exact searched.earlier turn (by omega) later other found listed isFound
    · cases turn with
      | zero => omega
      | succ turn => exact searched.nothing none turn (by omega) later other listed
    · obtain ⟨listed, idle, isReset⟩ := searched.found later other same
      refine ⟨listed, idle, fun found isFound => ?_⟩
      rw [← elsewhere other (notHead listed)] at isFound
      rw [← Nat.add_assoc, Nat.add_right_comm]
      exact isReset found isFound
    · have notKey : other ≠ key := by
        rintro rfl
        exact untested 0 (by omega) seen rfl
      rw [← elsewhere other notKey]
      exact searched.others other (fun turn before later => untested (turn + 1) (by omega) later)
        different

omit [Std.LawfulEqOrd Key] in
/-- Outside of the partition that was found, a search changes nothing but limiters, each by the
test that it failed. -/
theorem Searched.unchanged {tests stop : Nat} {candidates : List (Nat × Key)}
    {entries : Std.ExtTreeMap Key (ClientPartition Limiter) compare}
    {outcome : Option (Nat × Key) × Std.ExtTreeMap Key (ClientPartition Limiter) compare}
    (searched : Searched now idleTtl isReset tests candidates entries outcome stop)
    (present : ∀ candidate ∈ candidates, entries[candidate.2]?.isSome) {key : Key}
    (different : outcome.1.map Prod.snd ≠ some key) :
    outcome.2[key]? = entries[key]? ∨ ∃ entry turn, entries[key]? = some entry ∧
      (isReset turn entry.limiter).1 = false ∧
      outcome.2[key]? = some { entry with limiter := (isReset turn entry.limiter).2 } := by
  by_cases tested : ∃ turn < stop, ∃ seen, candidates[turn]? = some (seen, key)
  · obtain ⟨turn, before, seen, listed⟩ := tested
    obtain ⟨entry, isPresent⟩ :=
      Option.isSome_iff_exists.mp (present _ (List.mem_of_getElem? listed))
    obtain ⟨failed, after⟩ := searched.earlier turn before seen key entry listed isPresent
    exact .inr ⟨entry, tests + turn, isPresent, failed, after⟩
  · left
    apply searched.others key _ different
    intro turn before seen listed
    exact tested ⟨turn, before, seen, listed⟩

end Search

/-! ## The index -/

section Index

variable {store next : PartitionStore Key Limiter} {recency : Std.ExtTreeSet (Nat × Key) byRecency}
  {first second : Nat × Key} {now idleTtl : Nat} {isReset : Nat → Limiter → Bool × Limiter}

theorem mem_erase_recency : first ∈ recency.erase second ↔ first ≠ second ∧ first ∈ recency := by
  rw [Std.ExtTreeSet.mem_erase]
  refine and_congr_left fun _ => not_congr ?_
  rw [Std.LawfulEqCmp.compare_eq_iff_eq]
  exact eq_comm

theorem mem_insert_recency : first ∈ recency.insert second ↔ first = second ∨ first ∈ recency := by
  rw [Std.ExtTreeSet.mem_insert, Std.LawfulEqCmp.compare_eq_iff_eq]
  exact or_congr_left eq_comm

/-- A partition that is idle for long enough and passes the test in its turn. -/
def Eligible (store : PartitionStore Key Limiter) (now idleTtl : Nat)
    (isReset : Nat → Limiter → Bool × Limiter) (turn seen : Nat) (key : Key) : Prop :=
  store.recency.toList[turn]? = some (seen, key) ∧ seen + idleTtl ≤ now ∧
    ∃ entry, store.entries[key]? = some entry ∧ (isReset turn entry.limiter).1 = true

/-- A store apart from one of its keys, if any: nothing but limiters that failed a test may have
changed. -/
structure OnlyTested (store : PartitionStore Key Limiter)
    (isReset : Nat → Limiter → Bool × Limiter) (removed : Option Key)
    (next : PartitionStore Key Limiter) : Prop where
  entries : ∀ key, removed ≠ some key →
    next.entries[key]? = store.entries[key]? ∨ ∃ entry turn, store.entries[key]? = some entry ∧
      (isReset turn entry.limiter).1 = false ∧
      next.entries[key]? = some { entry with limiter := (isReset turn entry.limiter).2 }
  recency : ∀ seen key, removed ≠ some key →
    ((seen, key) ∈ next.recency ↔ (seen, key) ∈ store.recency)
  gone : ∀ key, removed = some key → next.entries[key]? = none ∧
    ∀ seen, (seen, key) ∉ next.recency

/-- A search answers no only if no partition is eligible, and otherwise removes the first one that
is and nothing else. -/
def ReclaimsOldest (store : PartitionStore Key Limiter) (now idleTtl : Nat)
    (isReset : Nat → Limiter → Bool × Limiter) : Prop :=
  ((store.reclaimOldestIf now idleTtl isReset).1 = false ∧
    (∀ turn seen key, ¬ Eligible store now idleTtl isReset turn seen key) ∧
    OnlyTested store isReset none (store.reclaimOldestIf now idleTtl isReset).2) ∨
  ((store.reclaimOldestIf now idleTtl isReset).1 = true ∧ ∃ turn seen key,
    Eligible store now idleTtl isReset turn seen key ∧
    (∀ later laterSeen other, Eligible store now idleTtl isReset later laterSeen other →
      other = key ∨ byRecency (seen, key) (laterSeen, other) = .lt) ∧
    OnlyTested store isReset (some key) (store.reclaimOldestIf now idleTtl isReset).2)

omit [Std.LawfulEqOrd Key] in
theorem OnlyTested.lastSeen {removed : Option Key} (only : OnlyTested store isReset removed next)
    {key : Key} (different : removed ≠ some key) : next.lastSeen key = store.lastSeen key := by
  unfold PartitionStore.lastSeen
  rcases only.entries key different with same | ⟨entry, turn, isPresent, -, tested⟩
  · rw [same]
  · rw [isPresent, tested]
    rfl

omit [Std.LawfulEqOrd Key] in
theorem OnlyTested.indexed {removed : Option Key} (only : OnlyTested store isReset removed next)
    (indexed : Indexed store) : Indexed next := by
  intro seen key
  by_cases same : removed = some key
  · obtain ⟨absent, unlisted⟩ := only.gone key same
    simp [unlisted seen, PartitionStore.lastSeen, absent]
  · rw [only.recency seen key same, only.lastSeen same]
    exact indexed seen key

namespace Indexed

variable (indexed : Indexed store)
include indexed

theorem present {candidate : Nat × Key} (listed : candidate ∈ store.recency.toList) :
    store.entries[candidate.2]?.isSome := by
  have isSeen := (indexed _ _).mp (Std.ExtTreeSet.mem_toList.mp listed)
  rw [PartitionStore.lastSeen] at isSeen
  exact Option.isSome_map.symm.trans (Option.isSome_of_eq_some isSeen)

theorem once : (store.recency.toList.map Prod.snd).Nodup := by
  refine List.Nodup.map_on ?_ ?_
  · intro first isFirst second isSecond same
    have firstSeen := (indexed _ _).mp (Std.ExtTreeSet.mem_toList.mp isFirst)
    have secondSeen := (indexed _ _).mp (Std.ExtTreeSet.mem_toList.mp isSecond)
    rw [same] at firstSeen
    exact Prod.ext (Option.some.inj (firstSeen.symm.trans secondSeen)) same
  · refine store.recency.distinct_toList.imp fun distinct same => distinct ?_
    rw [same]
    exact Std.ReflCmp.compare_self

omit indexed [Std.LawfulEqOrd Key] in
theorem ordered (store : PartitionStore Key Limiter) :
    store.recency.toList.Pairwise fun first second => first.1 ≤ second.1 := by
  refine store.recency.ordered_toList.imp fun {first second} before => ?_
  simp only [byRecency, compareLex, compareOn, Ordering.then_eq_lt, Nat.compare_eq_lt,
    Nat.compare_eq_eq] at before
  omega

/-- The search for a partition to reclaim in an indexed store. -/
theorem reclaimOldestIf (now idleTtl : Nat) (isReset : Nat → Limiter → Bool × Limiter) :
    ReclaimsOldest store now idleTtl isReset := by
  obtain ⟨stop, searched⟩ := @oldestReset_searched _ _ _ _ _ now idleTtl isReset 0
    store.recency.toList store.entries (fun _ => indexed.present) indexed.once (ordered store)
  have notBefore {turn seen : Nat} {key : Key}
      (eligible : Eligible store now idleTtl isReset turn seen key) : stop ≤ turn := by
    obtain ⟨listed, -, entry, isPresent, reset⟩ := eligible
    by_contra before
    have failed := (searched.earlier turn (by omega) seen key entry listed isPresent).1
    rw [Nat.zero_add, reset] at failed
    contradiction
  have unchanged := fun (key : Key) (different : (oldestReset now idleTtl isReset 0
      store.recency.toList store.entries).1.map Prod.snd ≠ some key) =>
    searched.unchanged (fun _ => indexed.present) different
  unfold ReclaimsOldest PartitionStore.reclaimOldestIf
  split
  · rename_i entries outcome
    rw [outcome] at searched unchanged
    refine .inl ⟨rfl, fun turn seen key eligible => ?_, fun key _ => unchanged key (by simp),
      fun _ _ _ => Iff.rfl, nofun⟩
    have recent := searched.nothing rfl turn (notBefore eligible) seen key eligible.1
    exact absurd eligible.2.1 (by omega)
  · rename_i seen key entries outcome
    rw [outcome] at searched unchanged
    obtain ⟨listed, idle, reset⟩ := searched.found seen key rfl
    obtain ⟨entry, isPresent⟩ :=
      Option.isSome_iff_exists.mp (indexed.present (List.mem_of_getElem? listed))
    have isReset := reset entry isPresent
    rw [Nat.zero_add] at isReset
    refine .inr ⟨rfl, stop, seen, key, ⟨listed, idle, entry, isPresent, isReset⟩,
      fun later laterSeen other eligible => ?_, fun other different => ?_,
      fun laterSeen other different => ?_, fun other same => ?_⟩
    · rcases Nat.eq_or_lt_of_le (notBefore eligible) with rfl | after
      · cases listed.symm.trans eligible.1
        exact .inl rfl
      · right
        obtain ⟨bound, isFirst⟩ := List.getElem?_eq_some_iff.mp listed
        obtain ⟨laterBound, isLater⟩ := List.getElem?_eq_some_iff.mp eligible.1
        rw [← isFirst, ← isLater]
        exact List.pairwise_iff_getElem.mp store.recency.ordered_toList _ _ bound laterBound after
    · rw [Ne, Option.some.injEq, eq_comm] at different
      rw [getElem?_erase_ne _ different]
      exact unchanged other (by simpa [eq_comm] using different)
    · rw [mem_erase_recency]
      refine and_iff_right fun same => different ?_
      rw [(Prod.mk.injEq ..).mp same |>.2]
    · cases same
      refine ⟨by simp, fun laterSeen remains => ?_⟩
      obtain ⟨different, remains⟩ := mem_erase_recency.mp remains
      have sameSeen := ((indexed _ _).mp remains).symm.trans
        ((indexed _ _).mp (Std.ExtTreeSet.mem_toList.mp (List.mem_of_getElem? listed)))
      exact different (Prod.ext (Option.some.inj sameSeen) rfl)

end Indexed

theorem Indexed.useExistingAt (indexed : Indexed store) (key : Key) (now : Nat)
    (operation : Limiter → Result × Limiter) :
    Indexed (store.useExistingAt key now operation).2 ∧ ∀ other before after,
      store.lastSeen other = some before →
      (store.useExistingAt key now operation).2.lastSeen other = some after → before ≤ after := by
  unfold PartitionStore.useExistingAt
  split
  · refine ⟨indexed, fun other before after isBefore isAfter => ?_⟩
    exact Nat.le_of_eq (Option.some.inj (isBefore.symm.trans isAfter))
  · rename_i entry isPresent
    have seenAt : store.lastSeen key = some entry.lastSeen := by
      simp [PartitionStore.lastSeen, isPresent]
    refine ⟨fun seen other => ?_, fun other before after isBefore isAfter => ?_⟩
    · simp only [mem_insert_recency, mem_erase_recency, indexed seen other, Prod.mk.injEq]
      by_cases same : other = key
      · subst same
        simp [PartitionStore.lastSeen, isPresent, eq_comm]
      · simp [PartitionStore.lastSeen, same]
    · by_cases same : other = key
      · subst same
        simp only [PartitionStore.lastSeen, Std.ExtTreeMap.getElem?_insert_self, isPresent,
          Option.map_some, Option.some.injEq] at isBefore isAfter
        omega
      · simp only [PartitionStore.lastSeen, getElem?_insert_ne _ _ same] at isBefore isAfter
        exact Nat.le_of_eq (Option.some.inj (isBefore.symm.trans isAfter))

theorem Indexed.insertAt (indexed : Indexed store) {key : Key} (absent : store.entries[key]? = none)
    (limiter : Limiter) (seen : Nat) : Indexed (store.insertAt key limiter seen) := by
  intro other otherKey
  unfold PartitionStore.insertAt
  rw [mem_insert_recency, indexed other otherKey, Prod.mk.injEq]
  by_cases same : otherKey = key
  · subst same
    simp [PartitionStore.lastSeen, absent, eq_comm]
  · simp [PartitionStore.lastSeen, same]

/-- One call keeps the index, and a partition that stays is not seen earlier than before. -/
theorem Indexed.uses (indexed : Indexed store) (used : Uses store next) :
    Indexed next ∧ ∀ key before after, store.lastSeen key = some before →
      next.lastSeen key = some after → before ≤ after := by
  cases used with
  | useExistingAt key now operation => exact indexed.useExistingAt key now operation
  | insertAt key limiter seen absent =>
    refine ⟨indexed.insertAt absent limiter seen, fun other before after isBefore isAfter => ?_⟩
    have notKey : other ≠ key := by
      rintro rfl
      simp [PartitionStore.lastSeen, absent] at isBefore
    simp only [PartitionStore.insertAt, PartitionStore.lastSeen, getElem?_insert_ne _ _ notKey]
      at isBefore isAfter
    exact Nat.le_of_eq (Option.some.inj (isBefore.symm.trans isAfter))
  | reclaimOldestIf now idleTtl isReset =>
    obtain ⟨removed, only⟩ : ∃ removed,
        OnlyTested store isReset removed (store.reclaimOldestIf now idleTtl isReset).2 := by
      rcases indexed.reclaimOldestIf now idleTtl isReset with ⟨-, -, only⟩ | ⟨-, _, _, _, -, -, only⟩
      · exact ⟨_, only⟩
      · exact ⟨_, only⟩
    refine ⟨only.indexed indexed, fun key before after isBefore isAfter => ?_⟩
    have stays : removed ≠ some key := by
      intro gone
      simp [PartitionStore.lastSeen, (only.gone key gone).1] at isAfter
    rw [only.lastSeen stays, isBefore] at isAfter
    exact Nat.le_of_eq (Option.some.inj isAfter)

end Index

/-- Whatever is done with a new store, its index holds the partitions at the times when they were
last seen, no such time decreases, and a search reclaims the first partition that was idle for
long enough and is reset, if there is one. -/
theorem reachable_indexed {store : PartitionStore Key Limiter}
    (reached : Reachable Uses (new : PartitionStore Key Limiter) store) :
    Indexed store ∧
    (∀ next, Uses store next → ∀ key before after, store.lastSeen key = some before →
      next.lastSeen key = some after → before ≤ after) ∧
    ∀ now idleTtl isReset, ReclaimsOldest store now idleTtl isReset := by
  have indexed : Indexed store := by
    refine reached.invariant ?_ fun before next indexed used => (indexed.uses used).1
    intro seen key
    simp [new, PartitionStore.lastSeen]
  exact ⟨indexed, fun next used => (indexed.uses used).2, indexed.reclaimOldestIf⟩

/-- Two partitions, of which the first is used at an earlier reading of the clock. The second one
is reset and is reclaimed. -/
theorem two_partitions_indexed :
    let inserted := ((new : PartitionStore Nat Nat).insertAt 3 0 7).insertAt 4 0 9
    let used := (inserted.useExistingAt 3 5 fun limiter => ((), limiter + 1)).2
    let isReset (_ : Nat) (limiter : Nat) : Bool × Nat := (limiter == 0, limiter)
    let reclaiming := used.reclaimOldestIf 20 11 isReset
    used.lastSeen 3 = some 7 ∧ reclaiming.1 = true ∧ reclaiming.2.lastSeen 4 = none ∧
      Indexed reclaiming.2 ∧ ReclaimsOldest used 20 11 isReset ∧
      ∀ key before after, inserted.lastSeen key = some before → used.lastSeen key = some after →
        before ≤ after := by
  intro inserted used isReset reclaiming
  have reached : Reachable Uses (new : PartitionStore Nat Nat) inserted :=
    (Reachable.start.extend (.insertAt new 3 0 7 (by decide +kernel))).extend
      (.insertAt _ 4 0 9 (by decide +kernel))
  have step : Uses inserted used := .useExistingAt inserted 3 5 _
  have later := reached.extend step
  exact ⟨by decide +kernel, by decide +kernel, by decide +kernel,
    (reachable_indexed (later.extend (.reclaimOldestIf used 20 11 isReset))).1,
    (reachable_indexed later).2.2 20 11 isReset, (reachable_indexed reached).2.1 used step⟩

end FastMcp.RateLimiting.PartitionStore
