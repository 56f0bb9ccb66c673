import FastMcp.DocketRuns

/-! # How often a task is handed out

A task has a number of further deliveries to expect: one if it waits now, and
one for every attempt that its retry counter still allows. Whatever a section
does, a delivery is paid for by this number. The retry counter is a 32-bit
number, so the argument needs that no report moves it past its end.
-/

namespace FastMcp.Docket

open MemoryDocketBackend OrderedMaps

variable {Value : Type}

/-- The task that a section hands to its caller. -/
def Section.delivered (backend : MemoryDocketBackend Value) :
    Section Value → Option (DocketTask Value)
  | dequeue taskTypes claimedAt => (backend.dequeue taskTypes claimedAt).1
  | _ => none

/-- One if the section hands out the task with this identifier. -/
def Section.delivers (backend : MemoryDocketBackend Value) (taskId : TaskId)
    (work : Section Value) : Nat :=
  if (work.delivered backend).any fun task => task.id = taskId then 1 else 0

/-- How often a run hands out the task with this identifier. -/
def deliveries (timing : Timing) (taskId : TaskId) :
    MemoryDocketBackend Value → List (Section Value) → Nat
  | _, [] => 0
  | backend, work :: run =>
    work.delivers backend taskId + deliveries timing taskId (work.apply timing backend) run

theorem deliveries_append (timing : Timing) (taskId : TaskId)
    (backend : MemoryDocketBackend Value) (front back : List (Section Value)) :
    deliveries timing taskId backend (front ++ back) =
      deliveries timing taskId backend front +
        deliveries timing taskId (after timing backend front) back := by
  induction front generalizing backend with
  | nil => simp [deliveries, after]
  | cons work front ih =>
    simp only [List.cons_append, deliveries, ih, after, List.foldl_cons]
    omega

/-! ## Tasks are filed under their identifiers -/

def Filed (backend : MemoryDocketBackend Value) : Prop :=
  ∀ (taskId : TaskId) (task : DocketTask Value), backend.tasks[taskId]? = some task →
    task.id = taskId

theorem Filed.new : Filed (MemoryDocketBackend.new Value) := by
  simp [Filed, MemoryDocketBackend.new]

variable {backend : MemoryDocketBackend Value} {task : DocketTask Value} {timing : Timing}
  {taskId : TaskId} {work : Section Value} {run : List (Section Value)}

theorem Filed.apply (filed : Filed backend) (timing : Timing) (work : Section Value) :
    Filed (work.apply timing backend) := by
  intro taskId task present
  by_cases enters : ∃ fresh, work = .insertTask fresh
  · obtain ⟨fresh, rfl⟩ := enters
    rcases getElem?_insert_eq_some.mp present with ⟨rfl, rfl⟩ | ⟨-, present⟩
    · rfl
    · exact filed taskId task present
  · have same := Section.fixedPart_apply timing backend work (not_exists.mp enters) taskId
    rw [present, Option.map_some, eq_comm, Option.map_eq_some_iff] at same
    obtain ⟨old, found, fixed⟩ := same
    have sameId : old.id = task.id := congrArg Prod.fst fixed
    rw [← sameId]
    exact filed taskId old found

/-- A delivered task was waiting under its identifier and is running afterwards. -/
theorem Filed.delivers_cases (filed : Filed backend) (taskTypes : List String) (claimedAt : String)
    (taskId : TaskId) :
    (Section.dequeue taskTypes claimedAt).delivers backend taskId = 0 ∧
      (backend.dequeue taskTypes claimedAt).2.tasks[taskId]? = backend.tasks[taskId]? ∨
    ∃ task, backend.tasks[taskId]? = some task ∧ task.status = .pending ∧
      (Section.dequeue taskTypes claimedAt).delivers backend taskId = 1 ∧
      (backend.dequeue taskTypes claimedAt).2.tasks[taskId]? = some (claimed task claimedAt) := by
  unfold Section.delivers Section.delivered
  rcases dequeue_cases taskTypes claimedAt backend with
    ⟨-, same⟩ | ⟨front, id, back, task, -, present, waiting, -, left⟩
  · simp [same]
  · have named : task.id = id := filed id task present
    simp only [left, Option.any_some, claimed, named]
    by_cases same : id = taskId
    · subst same
      exact .inr ⟨task, present, waiting, by simp, by simp [named]⟩
    · exact .inl ⟨by simp [same], getElem?_insert_ne _ _ (Ne.symm same)⟩

/-! ## Deliveries to expect -/

/-- How often a task can still be handed out. -/
def credit (task : DocketTask Value) : Nat :=
  (if task.status = .pending then 1 else 0) + (task.maxRetries - 1 - task.retryCount)

/-- The task's retry counter is not at the end of its range. -/
def Countable (task : DocketTask Value) : Prop :=
  task.retryCount + 1 < 2 ^ 32

/-- A section that counts another attempt of a task finds its counter before the end of its
range. -/
def Section.Counts (timing : Timing) (backend : MemoryDocketBackend Value) :
    Section Value → Prop
  | nack taskId _ => ∀ task, backend.tasks[taskId]? = some task → Countable task
  | requeueStale now _ => ∀ (taskId : TaskId) (task : DocketTask Value),
    backend.tasks[taskId]? = some task → isStale timing now task = true → Countable task
  | _ => True

theorem nextRetryCount_of_countable (countable : Countable task) :
    nextRetryCount task = task.retryCount + 1 :=
  Nat.mod_eq_of_lt countable

/-- Neither the last failure nor another attempt adds to the deliveries to expect. -/
theorem credit_counted {later : DocketTask Value} (countable : Countable task)
    (counted : later.retryCount = nextRetryCount task) (same : later.maxRetries = task.maxRetries)
    (allowed : later.status = .pending → nextRetryCount task < task.maxRetries) :
    credit later ≤ credit task := by
  rw [nextRetryCount_of_countable countable] at counted allowed
  unfold credit
  rw [counted, same]
  by_cases waits : later.status = .pending
  · have more := allowed waits
    rw [if_pos waits]
    omega
  · rw [if_neg waits]
    omega

theorem requeueTask_credit {now : Int} (walked : Nat × MemoryDocketBackend Value) (visited : TaskId)
    (present : walked.2.tasks[taskId]? = some task)
    (countable : isStale timing now task = true → Countable task) :
    ∃ later, (requeueTask timing now walked visited).2.tasks[taskId]? = some later ∧
      later.maxRetries = task.maxRetries ∧ credit later ≤ credit task ∧
      (later = task ∨ later.status ≠ .running) := by
  unfold requeueTask
  by_cases same : visited = taskId
  · subst same
    simp only [present]
    split
    on_goal 2 => exact ⟨task, present, rfl, Nat.le_refl _, .inl rfl⟩
    rename_i stale
    split
    · refine ⟨timedOut task, by simp, rfl, ?_, .inr (by simp [timedOut])⟩
      exact credit_counted (countable stale) rfl rfl (by simp [timedOut])
    · rename_i more
      refine ⟨requeued task, by simp, rfl, ?_, .inr (by simp [requeued])⟩
      exact credit_counted (countable stale) rfl rfl fun _ => Nat.lt_of_not_le more
  · refine ⟨task, ?_, rfl, Nat.le_refl _, .inl rfl⟩
    split
    · exact present
    split
    on_goal 2 => exact present
    split <;> exact (getElem?_insert_ne _ _ (Ne.symm same)).trans present

theorem requeueStale_credit {now : Int} (order : List TaskId)
    (present : backend.tasks[taskId]? = some task)
    (countable : isStale timing now task = true → Countable task) :
    ∃ later, (backend.requeueStale timing now order).2.tasks[taskId]? = some later ∧
      later.maxRetries = task.maxRetries ∧ credit later ≤ credit task := by
  -- a task that the walk has changed is not running, so it is not stale a second time
  have walk := @requeueStale_keeps _ timing backend now (fun walked => ∃ later,
    walked.tasks[taskId]? = some later ∧ later.maxRetries = task.maxRetries ∧
      credit later ≤ credit task ∧ (later = task ∨ later.status ≠ .running)) ?_ order
    ⟨task, present, rfl, Nat.le_refl _, .inl rfl⟩
  · obtain ⟨later, found, same, less, -⟩ := walk
    exact ⟨later, found, same, less⟩
  rintro walked visited ⟨current, found, same, less, changed⟩
  obtain ⟨later, laterFound, laterSame, laterLess, laterChanged⟩ :=
    requeueTask_credit walked visited found (fun stale => by
      rcases changed with unchanged | idle
      · exact unchanged ▸ countable (unchanged ▸ stale)
      · simp [isStale, idle] at stale)
  refine ⟨later, laterFound, laterSame.trans same, Nat.le_trans laterLess less, ?_⟩
  rcases laterChanged with rfl | idle
  · exact changed
  · exact .inr idle

/-- Every section pays for the delivery it makes. -/
theorem Filed.credit_step (filed : Filed backend) (admissible : work.Admissible backend)
    (counts : work.Counts timing backend) (present : backend.tasks[taskId]? = some task) :
    ∃ later, (work.apply timing backend).tasks[taskId]? = some later ∧
      later.maxRetries = task.maxRetries ∧
      work.delivers backend taskId + credit later ≤ credit task := by
  have replaced {other : TaskId} {replacement : DocketTask Value} {pending : List TaskId}
      (keeps : ∀ old, backend.tasks[other]? = some old →
        replacement.maxRetries = old.maxRetries ∧ credit replacement ≤ credit old) :
      ∃ later, (⟨backend.tasks.insert other replacement, pending⟩ :
          MemoryDocketBackend Value).tasks[taskId]? = some later ∧
        later.maxRetries = task.maxRetries ∧ 0 + credit later ≤ credit task := by
    by_cases same : taskId = other
    · subst same
      have kept := keeps task present
      exact ⟨replacement, by simp, kept.1, by omega⟩
    · exact ⟨task, (getElem?_insert_ne _ _ same).trans present, rfl, by omega⟩
  have unchanged : ∃ later, backend.tasks[taskId]? = some later ∧
      later.maxRetries = task.maxRetries ∧ 0 + credit later ≤ credit task :=
    ⟨task, present, rfl, by omega⟩
  cases work with
  | insertTask fresh =>
    refine replaced fun old found => ?_
    rw [show backend.tasks[fresh.id]? = none from admissible] at found
    cases found
  | insertPending other priority => exact unchanged
  | dequeue taskTypes claimedAt =>
    rcases filed.delivers_cases taskTypes claimedAt taskId with
      ⟨idle, same⟩ | ⟨old, found, waiting, one, left⟩
    · rw [idle]
      exact ⟨task, same.trans present, rfl, by omega⟩
    · cases Option.some.inj (found.symm.trans present)
      rw [one]
      exact ⟨_, left, rfl, by simp [credit, claimed, waiting]⟩
  | ack other result =>
    simp only [Section.apply, MemoryDocketBackend.ack]
    split
    · exact unchanged
    rename_i old found
    refine replaced fun same sameFound => ?_
    cases Option.some.inj (found.symm.trans sameFound)
    exact ⟨rfl, by simp [credit, acknowledged]⟩
  | nack other error =>
    simp only [Section.apply, MemoryDocketBackend.nack]
    split
    · exact unchanged
    rename_i old found
    have countable := counts old found
    split
    · refine replaced fun same sameFound => ?_
      cases Option.some.inj (found.symm.trans sameFound)
      exact ⟨rfl, credit_counted countable rfl rfl (by simp [rejected])⟩
    · rename_i more
      refine replaced fun same sameFound => ?_
      cases Option.some.inj (found.symm.trans sameFound)
      exact ⟨rfl, credit_counted countable rfl rfl fun _ => Nat.lt_of_not_le more⟩
  | cancel other reason =>
    simp only [Section.apply, MemoryDocketBackend.cancel]
    split
    · exact unchanged
    rename_i old found
    split
    · exact unchanged
    refine replaced fun same sameFound => ?_
    cases Option.some.inj (found.symm.trans sameFound)
    exact ⟨rfl, by simp [credit]⟩
  | requeueStale now order =>
    obtain ⟨later, found, same, less⟩ := requeueStale_credit order present (counts taskId task present)
    exact ⟨later, found, same, by simpa [Section.delivers, Section.delivered] using less⟩

/-! ## Whole runs -/

/-- Every section of the run that counts an attempt finds the counter before the end of its
range. -/
def Counting (timing : Timing) (backend : MemoryDocketBackend Value) :
    List (Section Value) → Prop
  | [] => True
  | work :: run => work.Counts timing backend ∧ Counting timing (work.apply timing backend) run

/-- A task is handed out at most as often as it can expect. -/
theorem Filed.deliveries_le (filed : Filed backend) (valid : Valid timing backend run)
    (counting : Counting timing backend run) (present : backend.tasks[taskId]? = some task) :
    deliveries timing taskId backend run ≤ credit task := by
  induction run generalizing backend task with
  | nil => exact Nat.zero_le _
  | cons work run ih =>
    obtain ⟨later, found, -, paid⟩ := filed.credit_step valid.1 counting.1 present
    have rest := ih (filed.apply timing work) valid.2 counting.2 found
    simp only [deliveries]
    omega

/-- A section keeps an identifier unused unless it enters a task under it, and does not hand
out what is not there. -/
theorem Filed.absent_step (filed : Filed backend) (timing : Timing)
    (absent : backend.tasks[taskId]? = none)
    (other : ∀ task, work = .insertTask task → task.id ≠ taskId) :
    (work.apply timing backend).tasks[taskId]? = none ∧ work.delivers backend taskId = 0 := by
  constructor
  · by_cases enters : ∃ fresh, work = .insertTask fresh
    · obtain ⟨fresh, rfl⟩ := enters
      exact (getElem?_insert_ne _ _ (other fresh rfl).symm).trans absent
    · have same := Section.fixedPart_apply timing backend work (not_exists.mp enters) taskId
      rwa [absent, Option.map_none, Option.map_eq_none_iff] at same
  · cases work with
    | dequeue taskTypes claimedAt =>
      rcases filed.delivers_cases taskTypes claimedAt taskId with ⟨idle, -⟩ | ⟨old, found, -⟩
      · exact idle
      · rw [absent] at found
        cases found
    | _ => rfl

/-- No section removes a task. -/
theorem Section.isSome_apply (timing : Timing) (work : Section Value)
    (present : backend.tasks[taskId]?.isSome) :
    (work.apply timing backend).tasks[taskId]?.isSome := by
  by_cases enters : ∃ fresh, work = .insertTask fresh
  · obtain ⟨fresh, rfl⟩ := enters
    by_cases same : taskId = fresh.id
    · simp [Section.apply, MemoryDocketBackend.insertTask, same]
    · simpa [Section.apply, MemoryDocketBackend.insertTask, same] using present
  · have same := Section.fixedPart_apply timing backend work (not_exists.mp enters) taskId
    have sameSome := congrArg Option.isSome same
    rw [Option.isSome_map, Option.isSome_map] at sameSome
    rwa [sameSome]

/-- An identifier in use is not entered again. -/
theorem Valid.not_entered (valid : Valid timing backend run)
    (present : backend.tasks[task.id]?.isSome) : .insertTask task ∉ run := by
  induction run generalizing backend with
  | nil => simp
  | cons work run ih =>
    intro listed
    rcases List.mem_cons.mp listed with same | later
    · subst same
      rw [show backend.tasks[task.id]? = none from valid.1] at present
      cases present
    · exact ih valid.2 (work.isSome_apply timing present) later

/-- As long as no attempt moves a retry counter past its end, a task that is enqueued
without earlier attempts is handed out at most as often as its retries allow. -/
theorem deliveries_bounded (timing : Timing) (run : List (Section Value))
    (valid : Valid timing (MemoryDocketBackend.new Value) run)
    (unattempted : ∀ task, .insertTask task ∈ run → task.retryCount = 0)
    (counting : Counting timing (MemoryDocketBackend.new Value) run)
    (task : DocketTask Value) (enqueued : .insertTask task ∈ run) :
    deliveries timing task.id (MemoryDocketBackend.new Value) run ≤ max 1 task.maxRetries := by
  have bounded : ∀ backend : MemoryDocketBackend Value, Filed backend →
      Valid timing backend run → Counting timing backend run →
      backend.tasks[task.id]? = none →
      deliveries timing task.id backend run ≤ max 1 task.maxRetries := by
    clear valid counting
    induction run with
    | nil => cases enqueued
    | cons work run ih =>
      intro backend filed valid counting absent
      by_cases enters : work = .insertTask task
      · subst enters
        have present : ((Section.insertTask task).apply timing backend).tasks[task.id]? =
            some task := by simp [Section.apply, MemoryDocketBackend.insertTask]
        have rest := (filed.apply timing _).deliveries_le valid.2 counting.2 present
        have fresh := unattempted task List.mem_cons_self
        have expected : credit task ≤ max 1 task.maxRetries := by
          unfold credit
          split <;> omega
        have idle : (Section.insertTask task).delivers backend task.id = 0 := rfl
        simp only [deliveries, idle]
        omega
      · have later : .insertTask task ∈ run := by
          rcases List.mem_cons.mp enqueued with same | later
          · exact absurd same.symm enters
          · exact later
        have other : ∀ fresh, work = .insertTask fresh → fresh.id ≠ task.id := by
          rintro fresh rfl same
          refine valid.2.not_entered ?_ later
          simp [Section.apply, MemoryDocketBackend.insertTask, same]
        obtain ⟨absentLater, idle⟩ := filed.absent_step timing absent other
        have rest := ih (fun fresh listed => unattempted fresh (List.mem_cons_of_mem _ listed))
          later _ (filed.apply timing work) valid.2 counting.2 absentLater
        simp only [deliveries, idle]
        omega
  exact bounded _ .new valid counting (by simp [MemoryDocketBackend.new])

/-- A task with two attempts fails once and is claimed again. -/
def retriedRun : List (Section Nat) :=
  [.insertTask plainJob, .insertPending "job" 0, .dequeue ["work"] "2026-07-28T00:00:01Z",
    .nack "job" "failed", .dequeue ["work"] "2026-07-28T00:00:02Z"]

theorem deliveries_bounded_retried :
    deliveries plainTiming "job" (MemoryDocketBackend.new Nat) retriedRun = 2 ∧
      deliveries plainTiming "job" (MemoryDocketBackend.new Nat) retriedRun ≤ max 1 2 := by
  refine ⟨by decide, ?_⟩
  refine deliveries_bounded plainTiming retriedRun ?_ ?_ ?_ plainJob (by simp [retriedRun])
  · refine ⟨?_, trivial, trivial, trivial, trivial, trivial⟩
    simp [Section.Admissible, MemoryDocketBackend.new]
  · intro task listed
    simp only [retriedRun, List.mem_cons, Section.insertTask.injEq, reduceCtorEq,
      List.not_mem_nil, or_false] at listed
    rw [listed]
    rfl
  · refine ⟨trivial, trivial, trivial, fun task found => ?_, trivial, trivial⟩
    have running : (after plainTiming (MemoryDocketBackend.new Nat)
        (retriedRun.take 3)).tasks["job"]? =
        some (claimed plainJob "2026-07-28T00:00:01Z") := by decide
    rw [Option.some.inj (found.symm.trans running)]
    exact (by decide : 0 + 1 < 2 ^ 32)

/-! ## A retry counter at its end -/

/-- A task with a single attempt, which has failed this many times. -/
def spentJob (failures : Nat) : DocketTask Nat :=
  { plainJob with
    maxRetries := 1
    retryCount := failures
    claimedAt := some "2026-07-28T00:00:01Z"
    status := .failed
    error := some "failed" }

def spentBackend (failures : Nat) : MemoryDocketBackend Nat :=
  ⟨(MemoryDocketBackend.new Nat).tasks.insert "job" (spentJob failures), []⟩

/-- The single attempt of a task is claimed. -/
def singleRun : List (Section Nat) :=
  [.insertTask { plainJob with maxRetries := 1 }, .insertPending "job" 0,
    .dequeue ["work"] "2026-07-28T00:00:01Z"]

theorem insert_insert {tasks : Std.ExtTreeMap TaskId (DocketTask Nat) compare} (key : TaskId)
    (first second : DocketTask Nat) :
    (tasks.insert key first).insert key second = tasks.insert key second := by
  refine Std.ExtTreeMap.ext_getElem? fun other => ?_
  by_cases same : other = key
  · subst same
    simp
  · simp [same]

theorem nack_spent {failures : Nat} (countable : failures + 1 < 2 ^ 32) :
    (Section.nack "job" "failed").apply plainTiming (spentBackend failures) =
      spentBackend (failures + 1) := by
  have counted : nextRetryCount (spentJob failures) = failures + 1 :=
    nextRetryCount_of_countable countable
  have found : (spentBackend failures).tasks["job"]? = some (spentJob failures) :=
    Std.ExtTreeMap.getElem?_insert_self
  have last : nextRetryCount (spentJob failures) ≥ (spentJob failures).maxRetries := by
    rw [counted]
    exact Nat.le_add_left 1 failures
  have counts : rejected (spentJob failures) "failed" = spentJob (failures + 1) := by
    unfold rejected
    rw [counted]
    rfl
  simp only [Section.apply, MemoryDocketBackend.nack, found, if_pos last, counts]
  exact congrArg (MemoryDocketBackend.mk · []) (insert_insert _ _ _)

theorem nacks_spent (failures count : Nat) (countable : failures + count < 2 ^ 32) :
    after plainTiming (spentBackend failures)
        (List.replicate count (.nack "job" "failed")) = spentBackend (failures + count) := by
  induction count generalizing failures with
  | zero => rfl
  | succ count ih =>
    have first := nack_spent (by omega : failures + 1 < 2 ^ 32)
    have rest := ih (failures + 1) (by omega)
    simp only [after, List.replicate_succ, List.foldl_cons] at rest ⊢
    rw [first, rest]
    congr 1
    omega

theorem nacks_deliver_nothing (taskId : TaskId) (count : Nat) (backend : MemoryDocketBackend Nat) :
    deliveries plainTiming taskId backend (List.replicate count (.nack "job" "failed")) = 0 := by
  induction count generalizing backend with
  | zero => rfl
  | succ count ih =>
    rw [List.replicate_succ, deliveries, ih]
    rfl

theorem after_singleRun_nack :
    after plainTiming (MemoryDocketBackend.new Nat) (singleRun ++ [.nack "job" "failed"]) =
      spentBackend 1 := by
  simp [after, singleRun, Section.apply, MemoryDocketBackend.insertTask,
    MemoryDocketBackend.insertPending, MemoryDocketBackend.dequeue, MemoryDocketBackend.nack,
    MemoryDocketBackend.new, isClaimable, nextRetryCount, plainJob, claimed, rejected,
    insert_insert, spentBackend, spentJob]

theorem valid_nacks (backend : MemoryDocketBackend Nat) (count : Nat)
    (run : List (Section Nat)) (valid : ∀ backend, Valid plainTiming backend run) :
    Valid plainTiming backend (List.replicate count (.nack "job" "failed") ++ run) := by
  induction count generalizing backend with
  | zero => exact valid backend
  | succ count ih => exact ⟨trivial, ih _⟩

/-- All failures but the last one only count; the last one moves the counter to zero, and the
failed task is handed out again. -/
theorem deliveries_wrapped {count : Nat} (size : count + 2 = 2 ^ 32) :
    deliveries plainTiming "job" (MemoryDocketBackend.new Nat)
      (singleRun ++ List.replicate (count + 2) (.nack "job" "failed") ++
        [.dequeue ["work"] "2026-07-28T00:00:02Z"]) = 2 := by
  have regrouped : singleRun ++ List.replicate (count + 2) (.nack "job" "failed") ++
      [.dequeue ["work"] "2026-07-28T00:00:02Z"] =
      (singleRun ++ [.nack "job" "failed"] ++ List.replicate count (.nack "job" "failed")) ++
        [.nack "job" "failed", .dequeue ["work"] "2026-07-28T00:00:02Z"] := by
    rw [List.replicate_succ, List.replicate_succ']
    simp only [List.append_assoc, List.cons_append, List.nil_append]
  have single : deliveries plainTiming "job" (MemoryDocketBackend.new Nat)
      (singleRun ++ [.nack "job" "failed"]) = 1 := by decide
  have spent : after plainTiming (MemoryDocketBackend.new Nat)
      (singleRun ++ [.nack "job" "failed"] ++ List.replicate count (.nack "job" "failed")) =
      spentBackend 4294967295 := by
    rw [after_append, after_singleRun_nack, nacks_spent 1 count (by omega)]
    congr 1
    omega
  have woken : deliveries plainTiming "job" (spentBackend 4294967295)
      [.nack "job" "failed", .dequeue ["work"] "2026-07-28T00:00:02Z"] = 1 := by
    decide
  rw [regrouped, deliveries_append, spent, woken, deliveries_append, single,
    nacks_deliver_nothing]

/-- A task with a single attempt is handed out, fails once for every value of its retry
counter, and is handed out again. -/
theorem wrapped_counter_redelivers :
    Valid plainTiming (MemoryDocketBackend.new Nat)
        (singleRun ++ List.replicate (2 ^ 32) (.nack "job" "failed") ++
          [.dequeue ["work"] "2026-07-28T00:00:02Z"]) ∧
      max 1 1 < deliveries plainTiming "job" (MemoryDocketBackend.new Nat)
        (singleRun ++ List.replicate (2 ^ 32) (.nack "job" "failed") ++
          [.dequeue ["work"] "2026-07-28T00:00:02Z"]) := by
  constructor
  · rw [List.append_assoc]
    refine ⟨?_, trivial, trivial, valid_nacks _ _ _ fun _ => ⟨trivial, trivial⟩⟩
    simp [Section.Admissible, MemoryDocketBackend.new]
  · obtain ⟨count, size⟩ : ∃ count, count + 2 = 2 ^ 32 := ⟨4294967294, by omega⟩
    rw [← size, deliveries_wrapped size]
    decide

end FastMcp.Docket
