import FastMcp.MachineWords
import FastMcp.OrderedMaps
import FastMcp.SlidingWindows
import FastMcp.TransitionRuns
import Mathlib.Algebra.Ring.Nat

/-! # Sliding-window rate limiting

A limiter remembers when it admitted requests and admits another while fewer
than the maximum lie in its window. Limiters are kept in a store, one for every
partition key, from which a partition that was idle for longest can be reclaimed
once its limiter has returned to its initial state.

Instants are nanoseconds after the earliest instant that the platform can
represent.
-/

namespace FastMcp.RateLimiting

open MachineWords

def nanosPerSecond : Nat := 10 ^ 9

/-- A duration of whole seconds. -/
def fromSecs (seconds : Nat) : Nat := nanosPerSecond * seconds

/-- The number of nanoseconds in a millisecond. -/
def nanosPerMilli : Nat := 10 ^ 6

inductive RateLimitAdmission where
  | allowed
  | rejected (retryAfterMs : Nat)
deriving DecidableEq, Repr

/-! ## One limiter -/

/-- A limiter with the times of the requests it has let through. -/
structure SlidingWindowRateLimiter where
  maxRequests : Nat
  windowSeconds : Nat
  requests : List Nat
deriving DecidableEq, Repr

namespace SlidingWindowRateLimiter

def new (maxRequests windowSeconds : Nat) : SlidingWindowRateLimiter :=
  ⟨maxRequests, windowSeconds, []⟩

/-- The width of the window. -/
def window (limiter : SlidingWindowRateLimiter) : Nat :=
  fromSecs limiter.windowSeconds

def checkedSub (now duration : Nat) : Option Nat :=
  if duration ≤ now then some (now - duration) else none

/-- The limiter without the requests before the window. -/
def removeOld (limiter : SlidingWindowRateLimiter) (now : Nat) : SlidingWindowRateLimiter :=
  match checkedSub now limiter.window with
  | some cutoff =>
    { limiter with requests := limiter.requests.dropWhile fun oldest => oldest < cutoff }
  | none => limiter

/-- The time after which a rejected caller may try again. -/
def retryAfterMs (limiter : SlidingWindowRateLimiter) (now : Nat) : Nat :=
  match limiter.requests.head? with
  | none => u64Max
  | some oldest =>
    let elapsed := now - oldest
    if elapsed ≥ limiter.window then 1
    else min (min ((limiter.window - elapsed) / nanosPerMilli) u64Max + 1) u64Max

def isAllowedWithRetry (limiter : SlidingWindowRateLimiter) (now : Nat) :
    RateLimitAdmission × SlidingWindowRateLimiter :=
  if limiter.windowSeconds = 0 then (.rejected u64Max, limiter)
  else
    let current := limiter.removeOld now
    if current.requests.length < current.maxRequests then
      (.allowed, { current with requests := current.requests ++ [now] })
    else (.rejected (current.retryAfterMs now), current)

def currentRequests (limiter : SlidingWindowRateLimiter) (now : Nat) :
    Nat × SlidingWindowRateLimiter :=
  if limiter.windowSeconds = 0 then (0, limiter)
  else
    let current := limiter.removeOld now
    (current.requests.length, current)

end SlidingWindowRateLimiter

/-! ## Admissions -/

namespace SlidingWindowRateLimiter

open SlidingWindows TransitionRuns

/-- The time a rejected caller is told to wait takes the oldest admission out of the window. -/
theorem retryAfterMs_expires (limiter : SlidingWindowRateLimiter) {now later oldest : Nat}
    (isOldest : limiter.requests.head? = some oldest)
    (representable : limiter.window / nanosPerMilli < u64Max)
    (notLater : oldest ≤ now)
    (waited : now + limiter.retryAfterMs now * nanosPerMilli ≤ later) :
    oldest + limiter.window < later := by
  simp only [retryAfterMs, isOldest] at waited
  generalize limiter.window = width at *
  unfold nanosPerMilli at *
  split at waited <;> omega

/-- A limiter with the times of its admissions and of its last call. -/
structure Observed where
  limiter : SlidingWindowRateLimiter
  admitted : List Nat
  now : Nat

/-- A check, whose time is noted if the request is allowed. -/
def Observed.check (observed : Observed) (now : Nat) : Observed where
  limiter := (observed.limiter.isAllowedWithRetry now).2
  admitted :=
    if (observed.limiter.isAllowedWithRetry now).1 = .allowed then observed.admitted ++ [now]
    else observed.admitted
  now := now

/-- The limiter is asked, no earlier than before. -/
inductive Calls : Observed → Observed → Prop
  | check (observed : Observed) (now : Nat) (after : observed.now ≤ now) :
    Calls observed (observed.check now)
  | count (observed : Observed) (now : Nat) (after : observed.now ≤ now) :
    Calls observed ⟨(observed.limiter.currentRequests now).2, observed.admitted, now⟩

variable {maxRequests windowSeconds now later : Nat} {observed next : Observed}

/-- The limiter remembers exactly the admissions that some time of the past had in its window. -/
structure Exact (maxRequests windowSeconds : Nat) (observed : Observed) : Prop where
  limit : observed.limiter.maxRequests = maxRequests
  duration : observed.limiter.windowSeconds = windowSeconds
  sorted : observed.admitted.Pairwise (· ≤ ·)
  past : ∀ time ∈ observed.admitted, time ≤ observed.now
  bounded : observed.limiter.requests.length ≤ maxRequests
  remembered : ∃ cut ≤ observed.now,
    observed.limiter.requests = recent (fromSecs windowSeconds) cut observed.admitted

namespace Exact

variable (sound : Exact maxRequests windowSeconds observed) (after : observed.now ≤ now)
include sound after

theorem past_now : ∀ time ∈ observed.admitted, time ≤ now := fun time listed =>
  Nat.le_trans (sound.past time listed) after

theorem removeOld : (observed.limiter.removeOld now) =
    ⟨maxRequests, windowSeconds, recent (fromSecs windowSeconds) now observed.admitted⟩ := by
  obtain ⟨cut, before, same⟩ := sound.remembered
  have expired : expire (fromSecs windowSeconds) now observed.limiter.requests =
      recent (fromSecs windowSeconds) now observed.admitted := by
    have sorted : (recent (fromSecs windowSeconds) cut observed.admitted).Pairwise (· ≤ ·) :=
      sound.sorted.filter _
    rw [same, expire_eq_recent sorted, recent_recent (Nat.le_trans before after)]
  rw [← expired, ← sound.limit, ← sound.duration]
  unfold SlidingWindowRateLimiter.removeOld checkedSub expire window
  by_cases wide : fromSecs observed.limiter.windowSeconds ≤ now <;> simp [wide]

theorem length_recent_le :
    (recent (fromSecs windowSeconds) now observed.admitted).length ≤ maxRequests := by
  obtain ⟨cut, before, same⟩ := sound.remembered
  rw [← recent_recent (Nat.le_trans before after), ← same]
  exact Nat.le_trans (List.length_filter_le _ _) sound.bounded

/-- The decision of a limiter counts the admissions in the window that ends now. -/
theorem isAllowedWithRetry (opened : windowSeconds ≠ 0) :
    observed.limiter.isAllowedWithRetry now =
      if within (fromSecs windowSeconds) now observed.admitted < maxRequests then
        (.allowed, ⟨maxRequests, windowSeconds,
          recent (fromSecs windowSeconds) now observed.admitted ++ [now]⟩)
      else
        (.rejected (retryAfterMs ⟨maxRequests, windowSeconds,
            recent (fromSecs windowSeconds) now observed.admitted⟩ now),
          ⟨maxRequests, windowSeconds, recent (fromSecs windowSeconds) now observed.admitted⟩) := by
  have past := sound.past_now after
  rw [within_eq_length_recent past, SlidingWindowRateLimiter.isAllowedWithRetry,
    if_neg (sound.duration ▸ opened), sound.removeOld after]

theorem check (opened : windowSeconds ≠ 0) :
    Exact maxRequests windowSeconds (observed.check now) := by
  have past := sound.past_now after
  unfold Observed.check
  rw [sound.isAllowedWithRetry after opened]
  by_cases room : within (fromSecs windowSeconds) now observed.admitted < maxRequests
  · simp only [if_pos room, if_true]
    rw [within_eq_length_recent past] at room
    refine ⟨rfl, rfl, ?_, ?_, by simpa [Nat.succ_le_iff] using room, now, Nat.le_refl now,
      by simp [recent]⟩
    · refine List.pairwise_append.mpr ⟨sound.sorted, List.pairwise_singleton _ _,
        fun time listed last isLast => ?_⟩
      rw [List.mem_singleton.mp isLast]
      exact past time listed
    · intro time listed
      rcases List.mem_append.mp listed with listed | listed
      · exact past time listed
      · exact Nat.le_of_eq (List.mem_singleton.mp listed)
  · simp only [if_neg room, reduceCtorEq, if_false]
    exact ⟨rfl, rfl, sound.sorted, past, sound.length_recent_le after, now, Nat.le_refl now, rfl⟩

theorem count : Exact maxRequests windowSeconds
    ⟨(observed.limiter.currentRequests now).2, observed.admitted, now⟩ := by
  have past := sound.past_now after
  unfold SlidingWindowRateLimiter.currentRequests
  split
  · obtain ⟨cut, before, same⟩ := sound.remembered
    exact ⟨sound.limit, sound.duration, sound.sorted, past, sound.bounded, cut,
      Nat.le_trans before after, same⟩
  · rw [sound.removeOld after]
    exact ⟨rfl, rfl, sound.sorted, past, sound.length_recent_le after, now, Nat.le_refl now, rfl⟩

theorem within_lt_of_rejected (opened : windowSeconds ≠ 0) (positive : 0 < maxRequests)
    (representable : fromSecs windowSeconds / nanosPerMilli < u64Max) {retryAfter : Nat}
    (rejected : (observed.limiter.isAllowedWithRetry now).1 = .rejected retryAfter)
    (waited : now + retryAfter * nanosPerMilli ≤ later) :
    within (fromSecs windowSeconds) later observed.admitted < maxRequests := by
  have past := sound.past_now after
  have notBefore : now ≤ later := Nat.le_trans (Nat.le_add_right _ _) waited
  rw [sound.isAllowedWithRetry after opened] at rejected
  split at rejected
  · contradiction
  · rename_i full
    rw [within_eq_length_recent past] at full
    have room := sound.length_recent_le after
    rw [within_eq_length_recent fun time listed => Nat.le_trans (past time listed) notBefore,
      ← recent_recent notBefore]
    rw [RateLimitAdmission.rejected.injEq] at rejected
    rw [← rejected] at waited
    cases isOldest : (recent (fromSecs windowSeconds) now observed.admitted).head? with
    | none =>
      rw [List.head?_eq_none_iff.mp isOldest, List.length_nil] at full
      exact absurd positive full
    | some oldest =>
      have notLater := past oldest (List.mem_filter.mp (List.mem_of_head? isOldest)).1
      have expired := retryAfterMs_expires ⟨maxRequests, windowSeconds, _⟩ isOldest representable
        notLater waited
      exact Nat.lt_of_lt_of_le (length_recent_lt isOldest expired) room

end Exact

/-- A check is allowed exactly if fewer than the maximum of the earlier checks at instants in the
window were allowed, and a check after the time that a rejected caller was told to wait is allowed
unless another was allowed in between. -/
theorem window_admission_exact (opened : 0 < windowSeconds) (positive : 0 < maxRequests)
    (representable : fromSecs windowSeconds / nanosPerMilli < u64Max)
    (reached : Reachable Calls ⟨new maxRequests windowSeconds, [], 0⟩ observed) :
    (∀ now, observed.now ≤ now → ((observed.limiter.isAllowedWithRetry now).1 = .allowed ↔
      within (fromSecs windowSeconds) now observed.admitted < maxRequests)) ∧
    ∀ now retryAfter, observed.now ≤ now →
      (observed.limiter.isAllowedWithRetry now).1 = .rejected retryAfter →
      ∀ next, Reachable Calls (observed.check now) next → next.admitted = observed.admitted →
        ∀ later, next.now ≤ later → now + retryAfter * nanosPerMilli ≤ later →
          (next.limiter.isAllowedWithRetry later).1 = .allowed := by
  have closed : windowSeconds ≠ 0 := Nat.ne_of_gt opened
  have kept : ∀ before next, Exact maxRequests windowSeconds before → Calls before next →
      Exact maxRequests windowSeconds next := by
    rintro before next sound (⟨now, after⟩ | ⟨now, after⟩)
    · exact sound.check after closed
    · exact sound.count after
  have sound : Exact maxRequests windowSeconds observed :=
    reached.invariant ⟨rfl, rfl, .nil, by simp, Nat.zero_le _, 0, Nat.le_refl 0, rfl⟩ kept
  refine ⟨fun now after => ?_, fun now retryAfter after rejected next waited same later _ long => ?_⟩
  · rw [sound.isAllowedWithRetry after closed]
    split <;> simp_all
  · have still := waited.invariant (sound.check after closed) kept
    rw [still.isAllowedWithRetry ‹_› closed, if_pos]
    rw [same]
    exact sound.within_lt_of_rejected after closed positive representable rejected long

/-- With one request per second, the second of two has to wait for a second. -/
theorem second_request_waits :
    ((Observed.check ⟨new 1 1, [], 0⟩ 5).limiter.isAllowedWithRetry 10).1 = .rejected 1000 ∧
      (((Observed.check ⟨new 1 1, [], 0⟩ 5).check 10).limiter.isAllowedWithRetry
        (10 + 1000 * nanosPerMilli)).1 = .allowed :=
  ⟨by decide, (window_admission_exact (by decide) (by decide) (by decide)
    (Reachable.start.extend (.check ⟨new 1 1, [], 0⟩ 5 (by decide)))).2 10 1000 (by decide)
    (by decide) _ .start rfl _ (by decide) (by decide)⟩

end SlidingWindowRateLimiter

/-! ## Partitions -/

/-- The limiter of one client, and when that client was last seen. -/
structure ClientPartition (Limiter : Type) where
  limiter : Limiter
  lastSeen : Nat

/-- Partitions that were seen earlier come first, and keys break ties. -/
def byRecency {Key : Type} [Ord Key] : Nat × Key → Nat × Key → Ordering :=
  compareLex (compareOn Prod.fst) (compareOn Prod.snd)

/-- The partitions by key, with an index of the keys by age. -/
structure PartitionStore (Key Limiter : Type) [Ord Key] where
  entries : Std.ExtTreeMap Key (ClientPartition Limiter) compare
  recency : Std.ExtTreeSet (Nat × Key) byRecency

variable {Key Limiter Result : Type} [Ord Key] [Std.TransOrd Key] [Std.LawfulEqOrd Key]

instance : Std.TransCmp (@byRecency Key _) :=
  inferInstanceAs (Std.TransCmp (compareLex (compareOn Prod.fst) (compareOn Prod.snd)))

instance : Std.LawfulEqCmp (@byRecency Key _) where
  compare_self := by simp [byRecency, compareLex, compareOn]
  eq_of_compare {first second} same := by
    simp only [byRecency, compareLex, compareOn, Ordering.then_eq_eq,
      Std.LawfulEqOrd.compare_eq_iff_eq] at same
    exact Prod.ext same.1 same.2

namespace PartitionStore

def new : PartitionStore Key Limiter := ⟨∅, ∅⟩

/-- Runs an operation on the limiter of a key that has one. -/
def useExistingAt (store : PartitionStore Key Limiter) (key : Key) (now : Nat)
    (operation : Limiter → Result × Limiter) : Option Result × PartitionStore Key Limiter :=
  match store.entries[key]? with
  | none => (none, store)
  | some entry =>
    let (result, limiter) := operation entry.limiter
    let lastSeen := max now entry.lastSeen
    (some result, ⟨store.entries.insert key ⟨limiter, lastSeen⟩,
      (store.recency.erase (entry.lastSeen, key)).insert (lastSeen, key)⟩)

def insertAt (store : PartitionStore Key Limiter) (key : Key) (limiter : Limiter)
    (lastSeen : Nat) : PartitionStore Key Limiter :=
  ⟨store.entries.insert key ⟨limiter, lastSeen⟩, store.recency.insert (lastSeen, key)⟩

/-- The first partition, in the order of recency, that was idle for long enough and whose
limiter is in its initial state. The test of a limiter reads the clock and may change the
limiter; it is given the number of tests made before. -/
def oldestReset (now : Nat) (idleTtl : Nat) (isReset : Nat → Limiter → Bool × Limiter) :
    Nat → List (Nat × Key) → Std.ExtTreeMap Key (ClientPartition Limiter) compare →
    Option (Nat × Key) × Std.ExtTreeMap Key (ClientPartition Limiter) compare
  | _, [], entries => (none, entries)
  | tests, (lastSeen, key) :: rest, entries =>
    if now < lastSeen then (none, entries)
    else if now - lastSeen < idleTtl then (none, entries)
    else
      match entries[key]? with
      | none => oldestReset now idleTtl isReset tests rest entries
      | some entry =>
        let (reset, limiter) := isReset tests entry.limiter
        let tested := entries.insert key { entry with limiter }
        if reset then (some (lastSeen, key), tested)
        else oldestReset now idleTtl isReset (tests + 1) rest tested

def reclaimOldestIf (store : PartitionStore Key Limiter) (now : Nat) (idleTtl : Nat)
    (isReset : Nat → Limiter → Bool × Limiter) : Bool × PartitionStore Key Limiter :=
  match oldestReset now idleTtl isReset 0 store.recency.toList store.entries with
  | (none, entries) => (false, { store with entries })
  | (some (lastSeen, key), entries) =>
    (true, ⟨entries.erase key, store.recency.erase (lastSeen, key)⟩)

end PartitionStore

end FastMcp.RateLimiting
