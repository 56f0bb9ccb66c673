import FastMcp.Docket
import FastMcp.TransitionRuns
import Mathlib.Data.List.InsertIdx

/-! # Runs of the in-memory task queue

The methods of the backend are cut into the sections in which it holds its
locks. Only enqueueing has two of them, so any interleaving of calls is a
sequence of sections, and calls made one after another are a sequence of whole
operations.
-/

namespace FastMcp.Docket

open MemoryDocketBackend OrderedMaps TransitionRuns

variable {Value : Type}

/-- What a caller does while it holds the locks. -/
inductive Section (Value : Type) where
  | insertTask (task : DocketTask Value)
  | insertPending (taskId : TaskId) (priority : Int)
  | dequeue (taskTypes : List String) (claimedAt : String)
  | ack (taskId : TaskId) (result : Value)
  | nack (taskId : TaskId) (error : String)
  | cancel (taskId : TaskId) (reason : Option String)
  | requeueStale (now : Int) (order : List TaskId)

namespace Section

def apply (timing : Timing) (backend : MemoryDocketBackend Value) :
    Section Value → MemoryDocketBackend Value
  | insertTask task => backend.insertTask task
  | insertPending taskId priority => backend.insertPending taskId priority
  | dequeue taskTypes claimedAt => (backend.dequeue taskTypes claimedAt).2
  | ack taskId result => (backend.ack taskId result).2
  | nack taskId error => (backend.nack taskId error).2
  | cancel taskId reason => (backend.cancel taskId reason).2
  | requeueStale now order => (backend.requeueStale timing now order).2

/-- New tasks come with new identifiers, and a walk visits every task of the map once. -/
def Admissible (backend : MemoryDocketBackend Value) : Section Value → Prop
  | insertTask task => backend.tasks[task.id]? = none
  | requeueStale _ order => order.Perm backend.tasks.keys
  | _ => True

end Section

/-! ## What a section does to the map -/

/-- Claiming removes the first queue entry of a pending task of the subscribed types and marks
the task as running. -/
theorem dequeue_cases (taskTypes : List String) (claimedAt : String)
    (backend : MemoryDocketBackend Value) :
    ((∀ id ∈ backend.pending, backend.isClaimable taskTypes id = false) ∧
      backend.dequeue taskTypes claimedAt = (none, backend)) ∨
    ∃ front id back task, backend.pending = front ++ id :: back ∧
      backend.tasks[id]? = some task ∧ task.status = .pending ∧
      (task.taskType ∈ taskTypes ∧
        ∀ other ∈ front, backend.isClaimable taskTypes other = false) ∧
      backend.dequeue taskTypes claimedAt = (some (claimed task claimedAt),
        ⟨backend.tasks.insert id (claimed task claimedAt), front ++ back⟩) := by
  unfold dequeue
  cases found : backend.pending.findIdx? (backend.isClaimable taskTypes) with
  | none => exact .inl ⟨List.findIdx?_eq_none_iff.mp found, rfl⟩
  | some position =>
    right
    obtain ⟨inside, claimable, earlier⟩ := List.findIdx?_eq_some_iff_getElem.mp found
    have first : ∀ other ∈ backend.pending.take position,
        backend.isClaimable taskTypes other = false := by
      intro other listed
      obtain ⟨index, before, rfl⟩ := List.mem_take_iff_getElem.mp listed
      simpa using earlier index (by omega)
    have split := (List.take_append_drop position backend.pending).symm
    rw [List.drop_eq_getElem_cons inside] at split
    unfold isClaimable at claimable
    split at claimable
    on_goal 2 => simp at claimable
    rename_i task present
    simp only [Bool.and_eq_true, decide_eq_true_eq, List.contains_iff_mem] at claimable
    refine ⟨_, _, _, task, split, present, claimable.1, ⟨claimable.2, first⟩, ?_⟩
    simp only [List.getElem?_eq_getElem inside, present, List.eraseIdx_eq_take_drop_succ]

theorem requeueTask_cases (timing : Timing) (now : Int)
    (walked : Nat × MemoryDocketBackend Value) (taskId : TaskId) :
    requeueTask timing now walked taskId = walked ∨
    ∃ task, walked.2.tasks[taskId]? = some task ∧ task.status = .running ∧
      ((requeueTask timing now walked taskId).2 =
          { walked.2 with tasks := walked.2.tasks.insert taskId (timedOut task) } ∨
        (requeueTask timing now walked taskId).2 =
          ⟨walked.2.tasks.insert taskId (requeued task), walked.2.pending ++ [task.id]⟩) := by
  unfold requeueTask
  split
  · exact .inl rfl
  rename_i task present
  split
  on_goal 2 => exact .inl rfl
  rename_i stale
  simp only [isStale, Bool.and_eq_true, decide_eq_true_eq] at stale
  refine .inr ⟨task, present, stale.1, ?_⟩
  split
  · exact .inl rfl
  · exact .inr rfl

variable {timing : Timing} {backend before : MemoryDocketBackend Value}
  {replacement task : DocketTask Value} {taskId : TaskId} {work : Section Value}
  {front back : List (Section Value)}

/-- What every step of the walk keeps is kept by the walk. -/
theorem requeueStale_keeps {now : Int} {holds : MemoryDocketBackend Value → Prop}
    (kept : ∀ walked taskId, holds walked.2 → holds (requeueTask timing now walked taskId).2)
    (order : List TaskId) (initially : holds backend) :
    holds (backend.requeueStale timing now order).2 := by
  have walk : ∀ walked : Nat × MemoryDocketBackend Value, holds walked.2 →
      holds (order.foldl (requeueTask timing now) walked).2 := by
    induction order with
    | nil => exact fun _ initially => initially
    | cons taskId order ih => exact fun walked initially => ih _ (kept walked taskId initially)
  exact walk (0, backend) initially

/-! ## What no section changes -/

/-- The part of a task that is fixed when the task enters the map. -/
def fixedPart (task : DocketTask Value) : TaskId × String × Int × Nat :=
  (task.id, task.taskType, task.priority, task.maxRetries)

theorem fixedPart_insert {tasks : Std.ExtTreeMap TaskId (DocketTask Value) compare} {key : TaskId}
    {old : DocketTask Value} (found : tasks[key]? = some old)
    (same : fixedPart replacement = fixedPart old) (taskId : TaskId) :
    (tasks.insert key replacement)[taskId]?.map fixedPart = tasks[taskId]?.map fixedPart := by
  by_cases equal : taskId = key
  · subst equal
    simp [found, same]
  · rw [getElem?_insert_ne _ _ equal]

theorem requeueTask_fixedPart (timing : Timing) (now : Int)
    (walked : Nat × MemoryDocketBackend Value) (visited taskId : TaskId) :
    (requeueTask timing now walked visited).2.tasks[taskId]?.map fixedPart =
      walked.2.tasks[taskId]?.map fixedPart := by
  rcases requeueTask_cases timing now walked visited with same | ⟨task, present, -, left | left⟩
  · rw [same]
  · rw [left]
    exact fixedPart_insert present (by rfl) taskId
  · rw [left]
    exact fixedPart_insert present (by rfl) taskId

/-- Only entering a task touches the fixed part of a task. -/
theorem Section.fixedPart_apply (timing : Timing) (backend : MemoryDocketBackend Value)
    (work : Section Value) (enters : ∀ task, work ≠ .insertTask task) (taskId : TaskId) :
    (work.apply timing backend).tasks[taskId]?.map fixedPart =
      backend.tasks[taskId]?.map fixedPart := by
  cases work with
  | insertTask task => exact absurd rfl (enters task)
  | insertPending other priority => rfl
  | dequeue taskTypes claimedAt =>
    rcases dequeue_cases taskTypes claimedAt backend with
      ⟨-, same⟩ | ⟨front, id, back, task, -, present, -, -, left⟩
    · rw [Section.apply, same]
    · rw [Section.apply, left]
      exact fixedPart_insert present (by rfl) taskId
  | ack other result =>
    simp only [Section.apply, MemoryDocketBackend.ack]
    split
    · rfl
    · exact fixedPart_insert ‹_› (by rfl) taskId
  | nack other error =>
    simp only [Section.apply, MemoryDocketBackend.nack]
    split
    · rfl
    · split <;> exact fixedPart_insert ‹_› (by rfl) taskId
  | cancel other reason =>
    simp only [Section.apply, MemoryDocketBackend.cancel]
    split
    · rfl
    · split
      · rfl
      · exact fixedPart_insert ‹_› (by rfl) taskId
  | requeueStale now order =>
    refine @requeueStale_keeps _ timing _ now (fun walked => walked.tasks[taskId]?.map fixedPart =
      backend.tasks[taskId]?.map fixedPart) (fun walked visited same => ?_) order rfl
    exact (requeueTask_fixedPart timing now walked visited taskId).trans same

/-! ## Outcomes of tasks -/

/-- What a caller learns about a task that is over. -/
def outcome (task : DocketTask Value) : TaskStatus × Option Value × Option String :=
  (task.status, task.result, task.error)

/-- A section that finds a task over repeats its outcome. -/
def Section.Repeats (backend : MemoryDocketBackend Value) : Section Value → Prop
  | ack taskId result => ∀ task, backend.tasks[taskId]? = some task →
    task.status.isTerminal = true → task.status = .completed ∧ task.result = some result
  | nack taskId error => ∀ task, backend.tasks[taskId]? = some task →
    task.status.isTerminal = true → task.status = .failed ∧ task.error = some error ∧
      task.maxRetries ≤ nextRetryCount task
  | _ => True

/-- Every task that is over has the same outcome in both states. -/
def KeepsOutcomes (before after : MemoryDocketBackend Value) : Prop :=
  ∀ (taskId : TaskId) (task : DocketTask Value), before.tasks[taskId]? = some task →
    task.status.isTerminal = true →
    ∃ later, after.tasks[taskId]? = some later ∧ outcome later = outcome task

theorem KeepsOutcomes.refl (backend : MemoryDocketBackend Value) :
    KeepsOutcomes backend backend :=
  fun _ task present _ => ⟨task, present, rfl⟩

theorem KeepsOutcomes.trans {first second third : MemoryDocketBackend Value}
    (before : KeepsOutcomes first second) (after : KeepsOutcomes second third) :
    KeepsOutcomes first third := by
  intro taskId task present terminal
  obtain ⟨middle, kept, same⟩ := before taskId task present terminal
  have stillTerminal : middle.status.isTerminal = true := by
    rw [show middle.status = task.status from congrArg Prod.fst same]
    exact terminal
  obtain ⟨later, keptLater, sameLater⟩ := after taskId middle kept stillTerminal
  exact ⟨later, keptLater, sameLater.trans same⟩

/-- Replacing one task keeps all outcomes exactly if it keeps its own. -/
theorem keepsOutcomes_insert {after : MemoryDocketBackend Value}
    (present : backend.tasks[taskId]? = some task)
    (replaced : after.tasks = backend.tasks.insert taskId replacement) :
    KeepsOutcomes backend after ↔
      (task.status.isTerminal = true → outcome replacement = outcome task) := by
  constructor
  · intro keeps terminal
    obtain ⟨later, found, same⟩ := keeps taskId task present terminal
    rw [replaced, Std.ExtTreeMap.getElem?_insert_self] at found
    rw [Option.some.inj found]
    exact same
  · intro same other otherTask otherPresent terminal
    by_cases equal : other = taskId
    · subst equal
      cases Option.some.inj (present.symm.trans otherPresent)
      exact ⟨replacement, by rw [replaced, Std.ExtTreeMap.getElem?_insert_self], same terminal⟩
    · exact ⟨otherTask, by rw [replaced, getElem?_insert_ne _ _ equal, otherPresent], rfl⟩

theorem keepsOutcomes_of_tasks {after : MemoryDocketBackend Value}
    (same : after.tasks = before.tasks) : KeepsOutcomes before after :=
  fun _ task present _ => ⟨task, by rw [same, present], rfl⟩

theorem requeueStale_keepsOutcomes (timing : Timing) (now : Int) (order : List TaskId)
    (backend : MemoryDocketBackend Value) :
    KeepsOutcomes backend (backend.requeueStale timing now order).2 := by
  refine requeueStale_keeps (fun walked taskId keeps => keeps.trans ?_) order (.refl backend)
  rcases requeueTask_cases timing now walked taskId with same | ⟨task, present, running, left⟩
  · rw [same]
    exact .refl _
  have active : task.status.isTerminal ≠ true := by simp [running, TaskStatus.isTerminal]
  rcases left with left | left <;>
    exact (keepsOutcomes_insert present (by rw [left])).mpr fun terminal => absurd terminal active

/-- A section keeps the outcomes of all tasks that are over exactly if it repeats the
outcome it finds. -/
theorem Section.keepsOutcomes_iff (timing : Timing) (admissible : work.Admissible backend) :
    KeepsOutcomes backend (work.apply timing backend) ↔ work.Repeats backend := by
  cases work with
  | insertTask task =>
    refine iff_of_true (fun taskId other present terminal => ⟨other, ?_, rfl⟩) trivial
    have different : taskId ≠ task.id := by
      rintro rfl
      rw [show backend.tasks[task.id]? = none from admissible] at present
      cases present
    simp [Section.apply, MemoryDocketBackend.insertTask, different, present]
  | insertPending taskId priority =>
    exact iff_of_true (keepsOutcomes_of_tasks rfl) trivial
  | dequeue taskTypes claimedAt =>
    refine iff_of_true ?_ trivial
    rcases dequeue_cases taskTypes claimedAt backend with
      ⟨-, same⟩ | ⟨front, id, back, task, -, present, waiting, -, left⟩
    · rw [Section.apply, same]
      exact .refl _
    · refine (keepsOutcomes_insert present (by rw [Section.apply, left])).mpr ?_
      simp [waiting, TaskStatus.isTerminal]
  | ack taskId result =>
    cases present : backend.tasks[taskId]? with
    | none =>
      simp only [Section.apply, MemoryDocketBackend.ack, Section.Repeats, present]
      exact iff_of_true (.refl _) (by simp)
    | some task =>
      have left : (Section.ack taskId result |>.apply timing backend).tasks =
          backend.tasks.insert taskId (acknowledged task result) := by
        simp [Section.apply, MemoryDocketBackend.ack, present]
      rw [keepsOutcomes_insert present left]
      simp only [Section.Repeats, present, Option.some.injEq, forall_eq', outcome, acknowledged,
        Prod.mk.injEq, and_true]
      exact forall_congr' fun _ => and_congr eq_comm eq_comm
  | nack taskId error =>
    cases present : backend.tasks[taskId]? with
    | none =>
      simp only [Section.apply, MemoryDocketBackend.nack, Section.Repeats, present]
      exact iff_of_true (.refl _) (by simp)
    | some task =>
      by_cases last : nextRetryCount task ≥ task.maxRetries
      · have left : (Section.nack taskId error |>.apply timing backend).tasks =
            backend.tasks.insert taskId (rejected task error) := by
          simp [Section.apply, MemoryDocketBackend.nack, present, last]
        rw [keepsOutcomes_insert present left]
        simp only [Section.Repeats, present, Option.some.injEq, forall_eq', outcome, rejected,
          Prod.mk.injEq, true_and, last, and_true]
        exact forall_congr' fun _ => and_congr eq_comm eq_comm
      · have left : (Section.nack taskId error |>.apply timing backend).tasks =
            backend.tasks.insert taskId (retried task error) := by
          simp [Section.apply, MemoryDocketBackend.nack, present, last]
        rw [keepsOutcomes_insert present left]
        simp only [Section.Repeats, present, Option.some.injEq, forall_eq', outcome, retried,
          Prod.mk.injEq, true_and, last, and_false]
        refine forall_congr' fun terminal => iff_false_intro fun same => ?_
        rw [← same.1] at terminal
        simp [TaskStatus.isTerminal] at terminal
  | cancel taskId reason =>
    refine iff_of_true ?_ trivial
    simp only [Section.apply, MemoryDocketBackend.cancel]
    split
    · exact .refl _
    rename_i task present
    split
    · exact .refl _
    rename_i active
    exact (keepsOutcomes_insert present rfl).mpr fun terminal => absurd terminal active
  | requeueStale now order =>
    exact iff_of_true (requeueStale_keepsOutcomes timing now order backend) trivial

/-! ## Interleaved calls -/

/-- The state after a sequence of sections. -/
def after (timing : Timing) (backend : MemoryDocketBackend Value) (run : List (Section Value)) :
    MemoryDocketBackend Value :=
  run.foldl (Section.apply timing) backend

/-- Every section is admissible when its turn comes. -/
def Valid (timing : Timing) (backend : MemoryDocketBackend Value) : List (Section Value) → Prop
  | [] => True
  | work :: run => work.Admissible backend ∧ Valid timing (work.apply timing backend) run

theorem Valid.split (valid : Valid timing backend (front ++ work :: back)) :
    work.Admissible (after timing backend front) := by
  induction front generalizing backend with
  | nil => exact valid.1
  | cons first front ih => exact ih valid.2

theorem after_append (timing : Timing) (backend : MemoryDocketBackend Value)
    (front back : List (Section Value)) :
    after timing backend (front ++ back) = after timing (after timing backend front) back :=
  List.foldl_append

/-- A part of a run in which every section repeats the outcomes it finds keeps them all. -/
theorem keepsOutcomes_after {middle : List (Section Value)}
    (valid : Valid timing backend (front ++ middle ++ back))
    (repeats : ∀ earlier work later, middle = earlier ++ work :: later →
      work.Repeats (after timing backend (front ++ earlier))) :
    KeepsOutcomes (after timing backend front) (after timing backend (front ++ middle)) := by
  induction middle generalizing front with
  | nil =>
    rw [List.append_nil]
    exact .refl _
  | cons work middle ih =>
    have parts : front ++ work :: middle ++ back = (front ++ [work]) ++ middle ++ back := by simp
    have admissible : work.Admissible (after timing backend front) := by
      rw [List.append_assoc, List.cons_append] at valid
      exact valid.split
    have step : KeepsOutcomes (after timing backend front)
        (after timing backend (front ++ [work])) := by
      rw [after_append]
      have first := repeats [] work middle rfl
      rw [List.append_nil] at first
      exact (Section.keepsOutcomes_iff timing admissible).mpr first
    have rest := ih (parts ▸ valid) fun earlier other later shape => by
      have repeated := repeats (work :: earlier) other later (by rw [shape, List.cons_append])
      rwa [List.append_cons] at repeated
    rw [List.append_cons]
    exact step.trans rest

/-- In a run of interleaved calls, the outcome of a task that is over never changes again
exactly if every report on such a task repeats its outcome. -/
theorem outcomes_final_iff (timing : Timing) (run : List (Section Value))
    (valid : Valid timing (MemoryDocketBackend.new Value) run) :
    (∀ front middle back, run = front ++ middle ++ back →
      KeepsOutcomes (after timing (MemoryDocketBackend.new Value) front)
        (after timing (MemoryDocketBackend.new Value) (front ++ middle))) ↔
    ∀ front work back, run = front ++ work :: back →
      work.Repeats (after timing (MemoryDocketBackend.new Value) front) := by
  constructor
  · intro final front work back parts
    subst parts
    have step := final front [work] back (by simp)
    rw [after_append] at step
    exact (Section.keepsOutcomes_iff timing valid.split).mp step
  · intro repeats front middle back parts
    subst parts
    refine keepsOutcomes_after valid fun earlier work later shape => ?_
    subst shape
    exact repeats (front ++ earlier) work (later ++ back) (by simp)

/-- A task with the identifier "job" and one retry. -/
def plainJob : DocketTask Nat where
  id := "job"
  taskType := "work"
  params := 0
  priority := 0
  retryCount := 0
  maxRetries := 2
  createdAt := "2026-07-28T00:00:00Z"
  claimedAt := none
  status := .pending
  error := none
  result := none

/-- A time library that reads no timestamp. -/
def plainTiming : Timing :=
  ⟨fun _ => none, 30 * 10 ^ 9⟩

/-- A task is claimed and cancelled. -/
def cancelledRun : List (Section Nat) :=
  [.insertTask plainJob, .insertPending "job" 0, .dequeue ["work"] "2026-07-28T00:00:01Z",
    .cancel "job" none]

theorem outcomes_final_iff_cancelled :
    Valid plainTiming (MemoryDocketBackend.new Nat) cancelledRun ∧
      ∀ front middle back, cancelledRun = front ++ middle ++ back →
        KeepsOutcomes (after plainTiming (MemoryDocketBackend.new Nat) front)
          (after plainTiming (MemoryDocketBackend.new Nat) (front ++ middle)) := by
  have valid : Valid plainTiming (MemoryDocketBackend.new Nat) cancelledRun := by
    refine ⟨?_, trivial, trivial, trivial, trivial⟩
    simp [Section.Admissible, MemoryDocketBackend.new]
  refine ⟨valid, (outcomes_final_iff plainTiming cancelledRun valid).mpr ?_⟩
  intro front work back parts
  have listed : work ∈ cancelledRun := by
    rw [parts]
    exact List.mem_append_right _ List.mem_cons_self
  simp only [cancelledRun, List.mem_cons, List.not_mem_nil, or_false] at listed
  rcases listed with rfl | rfl | rfl | rfl <;> trivial

/-- The worker that claimed a cancelled task reports its result late, and the task is
completed. -/
theorem late_ack_changes_outcome :
    Valid plainTiming (MemoryDocketBackend.new Nat) (cancelledRun ++ [.ack "job" 7]) ∧
      (after plainTiming (MemoryDocketBackend.new Nat) cancelledRun).tasks["job"]?.map outcome =
        some (.cancelled, none, none) ∧
      (after plainTiming (MemoryDocketBackend.new Nat)
          (cancelledRun ++ [.ack "job" 7])).tasks["job"]?.map outcome =
        some (.completed, some 7, none) := by
  refine ⟨⟨?_, trivial, trivial, trivial, trivial, trivial⟩, by decide, by decide⟩
  simp [Section.Admissible, MemoryDocketBackend.new]

/-! ## Calls made one after another -/

/-- The calls of the backend that change it. -/
inductive Operation (Value : Type) where
  | enqueue (task : DocketTask Value)
  | dequeue (taskTypes : List String) (claimedAt : String)
  | ack (taskId : TaskId) (result : Value)
  | nack (taskId : TaskId) (error : String)
  | cancel (taskId : TaskId) (reason : Option String)
  | requeueStale (now : Int) (order : List TaskId)

/-- The sections of a call. -/
def Operation.sections : Operation Value → List (Section Value)
  | enqueue task => [.insertTask task, .insertPending task.id task.priority]
  | dequeue taskTypes claimedAt => [.dequeue taskTypes claimedAt]
  | ack taskId result => [.ack taskId result]
  | nack taskId error => [.nack taskId error]
  | cancel taskId reason => [.cancel taskId reason]
  | requeueStale now order => [.requeueStale now order]

/-- One call is executed as a whole. -/
def Executes (timing : Timing) (before next : MemoryDocketBackend Value) : Prop :=
  ∃ operation : Operation Value, Valid timing before operation.sections ∧
    next = after timing before operation.sections

/-- Tasks are filed under their own identifiers, and waiting tasks are queued. -/
structure Intact (backend : MemoryDocketBackend Value) : Prop where
  filed : ∀ (taskId : TaskId) (task : DocketTask Value),
    backend.tasks[taskId]? = some task → task.id = taskId
  queued : ∀ (taskId : TaskId) (task : DocketTask Value),
    backend.tasks[taskId]? = some task → task.status = .pending → taskId ∈ backend.pending

theorem Intact.new : Intact (MemoryDocketBackend.new Value) :=
  ⟨by simp [MemoryDocketBackend.new], by simp [MemoryDocketBackend.new]⟩

/-- A queue position is at most the length of the queue. -/
theorem position_le {Item : Type} (pending : List Item) (lower : Item → Bool) :
    (pending.findIdx? lower).getD pending.length ≤ pending.length := by
  cases found : pending.findIdx? lower with
  | none => exact Nat.le_refl _
  | some position =>
    obtain ⟨inside, -⟩ := List.findIdx?_eq_some_iff_getElem.mp found
    exact Nat.le_of_lt inside

/-- Replacing a task and the queue: the queue may only lose entries of tasks that do not
wait afterwards. -/
theorem Intact.replace (intact : Intact backend) {pending : List TaskId} (named : task.id = taskId)
    (waits : task.status = .pending → taskId ∈ pending)
    (kept : ∀ other ∈ backend.pending, other ≠ taskId → other ∈ pending) :
    Intact ⟨backend.tasks.insert taskId task, pending⟩ := by
  constructor
  · intro other found present
    by_cases same : other = taskId
    · subst same
      rw [Std.ExtTreeMap.getElem?_insert_self] at present
      rw [← Option.some.inj present]
      exact named
    · rw [getElem?_insert_ne _ _ same] at present
      exact intact.filed other found present
  · intro other found present waiting
    by_cases same : other = taskId
    · subst same
      rw [Std.ExtTreeMap.getElem?_insert_self] at present
      cases Option.some.inj present
      exact waits waiting
    · rw [getElem?_insert_ne _ _ same] at present
      exact kept other (intact.queued other found present waiting) same

theorem Intact.enqueue (intact : Intact backend) (task : DocketTask Value) :
    Intact (backend.enqueue task) := by
  unfold MemoryDocketBackend.enqueue MemoryDocketBackend.insertPending
  refine intact.replace rfl (fun _ => ?_) fun other listed _ => ?_
  · exact (List.mem_insertIdx (position_le _ _)).mpr (.inl rfl)
  · exact (List.mem_insertIdx (position_le _ _)).mpr (.inr listed)

theorem Intact.dequeue (intact : Intact backend) (taskTypes : List String) (claimedAt : String) :
    Intact (backend.dequeue taskTypes claimedAt).2 := by
  rcases dequeue_cases taskTypes claimedAt backend with
    ⟨-, same⟩ | ⟨front, id, back, task, parts, present, -, -, left⟩
  · rw [same]
    exact intact
  · rw [left]
    refine intact.replace (intact.filed id task present) (by simp [claimed]) ?_
    intro other listed different
    rw [parts] at listed
    simpa [different] using listed

theorem Intact.ack (intact : Intact backend) (taskId : TaskId) (result : Value) :
    Intact (backend.ack taskId result).2 := by
  unfold MemoryDocketBackend.ack
  split
  · exact intact
  · rename_i task present
    exact intact.replace (intact.filed taskId task present) (by simp [acknowledged])
      fun _ listed _ => listed

theorem Intact.nack (intact : Intact backend) (taskId : TaskId) (error : String) :
    Intact (backend.nack taskId error).2 := by
  unfold MemoryDocketBackend.nack
  split
  · exact intact
  rename_i task present
  split
  · exact intact.replace (intact.filed taskId task present) (by simp [rejected])
      fun _ listed _ => listed
  · exact intact.replace (intact.filed taskId task present) (by simp)
      fun _ listed _ => List.mem_append_left _ listed

theorem Intact.cancel (intact : Intact backend) (taskId : TaskId) (reason : Option String) :
    Intact (backend.cancel taskId reason).2 := by
  unfold MemoryDocketBackend.cancel
  split
  · exact intact
  rename_i task present
  split
  · exact intact
  · refine intact.replace (intact.filed taskId task present) (by simp) ?_
    exact fun other listed different => List.mem_filter.mpr ⟨listed, by simpa using different⟩

theorem Intact.requeueStale (intact : Intact backend) (timing : Timing) (now : Int)
    (order : List TaskId) : Intact (backend.requeueStale timing now order).2 := by
  refine requeueStale_keeps (fun walked taskId intact => ?_) order intact
  rcases requeueTask_cases timing now walked taskId with same | ⟨task, present, -, left | left⟩
  · rw [same]
    exact intact
  · rw [left]
    exact intact.replace (intact.filed taskId task present) (by simp [timedOut])
      fun _ listed _ => listed
  · have named := intact.filed taskId task present
    rw [left, named]
    exact intact.replace named (by simp) fun _ listed _ => List.mem_append_left _ listed

theorem Intact.executes {next : MemoryDocketBackend Value} (intact : Intact before)
    (executes : Executes timing before next) : Intact next := by
  obtain ⟨operation, -, rfl⟩ := executes
  cases operation with
  | enqueue task => exact intact.enqueue task
  | dequeue taskTypes claimedAt => exact intact.dequeue taskTypes claimedAt
  | ack taskId result => exact intact.ack taskId result
  | nack taskId error => exact intact.nack taskId error
  | cancel taskId reason => exact intact.cancel taskId reason
  | requeueStale now order => exact intact.requeueStale timing now order

/-- Whatever calls were executed, a waiting task is queued, and a worker that subscribes to
its type is given some task. -/
theorem waiting_tasks_claimable {timing : Timing} {backend : MemoryDocketBackend Value}
    (reached : Reachable (Executes timing) (MemoryDocketBackend.new Value) backend)
    {taskId : TaskId} {task : DocketTask Value} (present : backend.tasks[taskId]? = some task)
    (waiting : task.status = .pending) :
    taskId ∈ backend.pending ∧ ∀ taskTypes claimedAt, task.taskType ∈ taskTypes →
      ∃ given, (backend.dequeue taskTypes claimedAt).1 = some given := by
  have intact : Intact backend := reached.invariant .new fun _ _ intact step => intact.executes step
  have queued := intact.queued taskId task present waiting
  refine ⟨queued, fun taskTypes claimedAt subscribed => ?_⟩
  rcases dequeue_cases taskTypes claimedAt backend with
    ⟨unclaimable, -⟩ | ⟨front, id, back, given, -, -, -, -, left⟩
  · have claimable : backend.isClaimable taskTypes taskId = true := by
      simp [isClaimable, present, waiting, subscribed]
    rw [unclaimable taskId queued] at claimable
    cases claimable
  · exact ⟨claimed given claimedAt, by rw [left]⟩

theorem waiting_tasks_claimable_enqueued :
    Reachable (Executes plainTiming) (MemoryDocketBackend.new Nat)
        ((MemoryDocketBackend.new Nat).enqueue plainJob) ∧
      ∃ given, (((MemoryDocketBackend.new Nat).enqueue plainJob).dequeue ["work"] "").1 =
        some given := by
  have reached : Reachable (Executes plainTiming) (MemoryDocketBackend.new Nat)
      ((MemoryDocketBackend.new Nat).enqueue plainJob) := by
    refine Reachable.start.extend ⟨.enqueue plainJob, ⟨?_, trivial, trivial⟩, rfl⟩
    simp [Section.Admissible, MemoryDocketBackend.new]
  have present : ((MemoryDocketBackend.new Nat).enqueue plainJob).tasks["job"]? =
      some plainJob := by decide
  exact ⟨reached, (waiting_tasks_claimable reached present rfl).2 ["work"] "" (by decide)⟩

end FastMcp.Docket
