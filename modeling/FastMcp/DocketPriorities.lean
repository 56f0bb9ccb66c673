import FastMcp.DocketRuns

/-! # The order of the queue

Enqueueing places a task before the first task of a lower priority, while a
task that is tried again goes to the end of the queue. The queue stays ordered
by priority as long as every task at the end belongs there.
-/

namespace FastMcp.Docket

open MemoryDocketBackend OrderedMaps TransitionRuns

/-- A new element goes before the first lower one. -/
theorem pairwise_insert_before_lower {Item : Type} {rank : Item → Int} {items : List Item}
    {item : Item} (ordered : items.Pairwise fun first second => rank second ≤ rank first) :
    (items.insertIdx ((items.findIdx? fun other => rank other < rank item).getD items.length)
      item).Pairwise fun first second => rank second ≤ rank first := by
  induction items with
  | nil => simp
  | cons head items ih =>
    obtain ⟨headFirst, ordered⟩ := List.pairwise_cons.mp ordered
    by_cases lower : rank head < rank item
    · simp only [List.findIdx?_cons, lower, decide_true, if_true, Option.getD_some,
        List.insertIdx_zero]
      refine List.pairwise_cons.mpr ⟨fun other listed => ?_, List.pairwise_cons.mpr
        ⟨headFirst, ordered⟩⟩
      rcases List.mem_cons.mp listed with rfl | later
      · exact Int.le_of_lt lower
      · exact Int.le_trans (headFirst other later) (Int.le_of_lt lower)
    · have shifted : ((head :: items).findIdx? fun other => rank other < rank item).getD
          (head :: items).length =
          ((items.findIdx? fun other => rank other < rank item).getD items.length) + 1 := by
        simp only [List.findIdx?_cons, lower, decide_false, Bool.false_eq_true, if_false]
        cases items.findIdx? fun other => rank other < rank item <;> rfl
      rw [shifted, List.insertIdx_succ_cons]
      refine List.pairwise_cons.mpr ⟨fun other listed => ?_, ih ordered⟩
      rcases (List.mem_insertIdx (position_le _ _)).mp listed with rfl | later
      · exact Int.not_lt.mp lower
      · exact headFirst other later

theorem findIdx?_congr_mem {Item : Type} {items : List Item} {first second : Item → Bool}
    (same : ∀ item ∈ items, first item = second item) :
    items.findIdx? first = items.findIdx? second := by
  induction items with
  | nil => rfl
  | cons head items ih =>
    rw [List.findIdx?_cons, List.findIdx?_cons, same head List.mem_cons_self,
      ih fun item listed => same item (List.mem_cons_of_mem _ listed)]

variable {Value : Type}

/-! ## Ordered queues -/

/-- The priority of the task under an identifier. -/
def priorityOf (backend : MemoryDocketBackend Value) (taskId : TaskId) : Int :=
  (backend.tasks[taskId]?.map DocketTask.priority).getD 0

variable {backend before next : MemoryDocketBackend Value} {timing : Timing}

variable {taskId : TaskId} {task : DocketTask Value} {order : List TaskId}

theorem priorityOf_of_present (present : backend.tasks[taskId]? = some task) :
    priorityOf backend taskId = task.priority := by
  simp [priorityOf, present]

/-- Every entry of the queue names a task, and no entry precedes one of a higher priority. -/
structure Ordered (backend : MemoryDocketBackend Value) : Prop where
  known : ∀ taskId ∈ backend.pending, backend.tasks[taskId]?.isSome
  ordered : backend.pending.Pairwise fun first second =>
    priorityOf backend second ≤ priorityOf backend first

/-- No entry of the queue has a lower priority than the task. -/
def BelongsLast (backend : MemoryDocketBackend Value) (task : DocketTask Value) : Prop :=
  ∀ taskId ∈ backend.pending, task.priority ≤ priorityOf backend taskId

/-- A walk at this time puts the task back into the queue. -/
def isRequeued (timing : Timing) (now : Int) (task : DocketTask Value) : Bool :=
  isStale timing now task && nextRetryCount task < task.maxRetries

/-- Whatever the operation puts at the end of the queue belongs there. -/
def Operation.AppendsInOrder (timing : Timing) (backend : MemoryDocketBackend Value) :
    Operation Value → Prop
  | nack taskId _ => ∀ task, backend.tasks[taskId]? = some task →
    nextRetryCount task < task.maxRetries → BelongsLast backend task
  | requeueStale now order =>
    (∀ (taskId : TaskId) (task : DocketTask Value), backend.tasks[taskId]? = some task →
      isRequeued timing now task = true → BelongsLast backend task) ∧
    order.Pairwise fun first second => ∀ firstTask secondTask,
      backend.tasks[first]? = some firstTask → backend.tasks[second]? = some secondTask →
      isRequeued timing now firstTask = true → isRequeued timing now secondTask = true →
      secondTask.priority ≤ firstTask.priority
  | _ => True

/-- One call is executed as a whole and appends in order. -/
def ExecutesInOrder (timing : Timing) (before next : MemoryDocketBackend Value) : Prop :=
  ∃ operation : Operation Value, Valid timing before operation.sections ∧
    operation.AppendsInOrder timing before ∧ next = after timing before operation.sections

theorem ExecutesInOrder.executes (step : ExecutesInOrder timing before next) :
    Executes timing before next := by
  obtain ⟨operation, valid, -, left⟩ := step
  exact ⟨operation, valid, left⟩

theorem Ordered.new : Ordered (MemoryDocketBackend.new Value) :=
  ⟨by simp [MemoryDocketBackend.new], by simp [MemoryDocketBackend.new]⟩

/-- Two states agree on which tasks exist and on their priorities. -/
def SamePriorities (before next : MemoryDocketBackend Value) : Prop :=
  ∀ taskId : TaskId, next.tasks[taskId]?.map fixedPart = before.tasks[taskId]?.map fixedPart

theorem SamePriorities.priorityOf (same : SamePriorities before next) (taskId : TaskId) :
    priorityOf next taskId = priorityOf before taskId := by
  have fixed := congrArg (Option.map fun part => part.2.2.1) (same taskId)
  simp only [Option.map_map] at fixed
  unfold Docket.priorityOf
  exact congrArg (Option.getD · 0) fixed

theorem SamePriorities.isSome (same : SamePriorities before next) (taskId : TaskId) :
    next.tasks[taskId]?.isSome = before.tasks[taskId]?.isSome := by
  have fixed := congrArg Option.isSome (same taskId)
  rwa [Option.isSome_map, Option.isSome_map] at fixed

/-- The queue may lose entries. -/
theorem Ordered.shrink (ordered : Ordered before) (same : SamePriorities before next)
    (kept : next.pending.Sublist before.pending) : Ordered next := by
  refine ⟨fun taskId listed => ?_, ?_⟩
  · rw [same.isSome]
    exact ordered.known taskId (kept.subset listed)
  · simp only [same.priorityOf]
    exact ordered.ordered.sublist kept

/-- Entries that belong there may be added at the end. -/
theorem Ordered.append (ordered : Ordered before) (same : SamePriorities before next)
    {added : List TaskId} (appended : next.pending = before.pending ++ added)
    (known : ∀ taskId ∈ added, before.tasks[taskId]?.isSome)
    (sorted : added.Pairwise fun first second => priorityOf before second ≤ priorityOf before first)
    (last : ∀ taskId ∈ added, ∀ other ∈ before.pending,
      priorityOf before taskId ≤ priorityOf before other) : Ordered next := by
  refine ⟨fun taskId listed => ?_, ?_⟩
  · rw [same.isSome]
    rw [appended] at listed
    exact (List.mem_append.mp listed).elim (ordered.known taskId) (known taskId)
  · simp only [same.priorityOf, appended]
    exact List.pairwise_append.mpr
      ⟨ordered.ordered, sorted, fun other listed taskId new => last taskId new other listed⟩

/-! ## One operation -/

theorem Ordered.enqueue (ordered : Ordered backend) (fresh : backend.tasks[task.id]? = none) :
    Ordered (backend.enqueue task) := by
  have unlisted : ∀ taskId ∈ backend.pending, taskId ≠ task.id := by
    rintro taskId listed rfl
    have known := ordered.known _ listed
    rw [fresh] at known
    cases known
  have kept : ∀ taskId ∈ backend.pending,
      (backend.enqueue task).tasks[taskId]? = backend.tasks[taskId]? := fun taskId listed =>
    getElem?_insert_ne _ _ (unlisted taskId listed)
  have entered : (backend.enqueue task).tasks[task.id]? = some task :=
    Std.ExtTreeMap.getElem?_insert_self
  have samePriority : ∀ taskId ∈ backend.pending,
      priorityOf (backend.enqueue task) taskId = priorityOf backend taskId := fun taskId listed => by
    simp only [priorityOf, kept taskId listed]
  have position : (backend.enqueue task).pending = backend.pending.insertIdx
      ((backend.pending.findIdx? fun other => priorityOf (backend.enqueue task) other <
        priorityOf (backend.enqueue task) task.id).getD backend.pending.length) task.id := by
    refine congrArg (fun found => backend.pending.insertIdx
      (Option.getD found backend.pending.length) task.id)
        (findIdx?_congr_mem fun id listed => ?_)
    obtain ⟨other, present⟩ := Option.isSome_iff_exists.mp (ordered.known id listed)
    have found := (kept id listed).trans present
    rw [priorityOf_of_present entered, priorityOf_of_present found]
    rw [show (backend.insertTask task).tasks[id]? = some other from found]
  refine ⟨fun taskId listed => ?_, ?_⟩
  · rw [position] at listed
    rcases (List.mem_insertIdx (position_le _ _)).mp listed with rfl | later
    · rw [entered]
      rfl
    · rw [kept taskId later]
      exact ordered.known taskId later
  · rw [position]
    refine pairwise_insert_before_lower (ordered.ordered.imp_of_mem ?_)
    intro first second firstListed secondListed
    rw [samePriority first firstListed, samePriority second secondListed]
    exact id

theorem Ordered.dequeue (ordered : Ordered backend) (timing : Timing) (taskTypes : List String)
    (claimedAt : String) : Ordered (backend.dequeue taskTypes claimedAt).2 := by
  refine ordered.shrink (Section.fixedPart_apply timing backend
    (.dequeue taskTypes claimedAt) nofun) ?_
  rcases dequeue_cases taskTypes claimedAt backend with
    ⟨-, same⟩ | ⟨front, id, back, task, parts, -, -, -, left⟩
  · rw [same]
  · rw [left, parts]
    exact List.Sublist.append_left (List.sublist_cons_self id back) front

theorem Ordered.ack (ordered : Ordered backend) (timing : Timing) (taskId : TaskId)
    (result : Value) :
    Ordered (backend.ack taskId result).2 := by
  refine ordered.shrink (Section.fixedPart_apply timing backend
    (.ack taskId result) nofun) ?_
  unfold MemoryDocketBackend.ack
  split <;> exact List.Sublist.refl _

theorem Ordered.cancel (ordered : Ordered backend) (timing : Timing) (taskId : TaskId)
    (reason : Option String) : Ordered (backend.cancel taskId reason).2 := by
  refine ordered.shrink (Section.fixedPart_apply timing backend
    (.cancel taskId reason) nofun) ?_
  unfold MemoryDocketBackend.cancel
  split
  · exact List.Sublist.refl _
  split
  · exact List.Sublist.refl _
  · exact List.filter_sublist

theorem Ordered.nack (ordered : Ordered backend) (timing : Timing) {error : String}
    (inOrder : (Operation.nack taskId error).AppendsInOrder timing backend) :
    Ordered (backend.nack taskId error).2 := by
  have same : SamePriorities backend (backend.nack taskId error).2 :=
    Section.fixedPart_apply timing backend (.nack taskId error) nofun
  cases present : backend.tasks[taskId]? with
  | none =>
    simp only [MemoryDocketBackend.nack, present]
    exact ordered
  | some task =>
    by_cases last : nextRetryCount task ≥ task.maxRetries
    · refine ordered.shrink same ?_
      simp [MemoryDocketBackend.nack, present, last]
    · have belongs := inOrder task present (Nat.lt_of_not_le last)
      have appended : (backend.nack taskId error).2.pending = backend.pending ++ [taskId] := by
        simp [MemoryDocketBackend.nack, present, last]
      refine ordered.append same appended ?_ ?_ ?_
      · intro other listed
        rw [List.mem_singleton.mp listed, present]
        rfl
      · exact List.pairwise_singleton _ _
      · intro other listed
        rw [List.mem_singleton.mp listed, priorityOf_of_present present]
        exact belongs

/-! ## The walk over the map -/

/-- A walk that visits every task once puts the requeued ones at the end, in its order. -/
theorem requeueStale_pending {now : Int} (filed : ∀ (taskId : TaskId) (task : DocketTask Value),
      backend.tasks[taskId]? = some task → task.id = taskId) (once : order.Nodup) :
    (backend.requeueStale timing now order).2.pending = backend.pending ++
      order.filter fun taskId => backend.tasks[taskId]?.any (isRequeued timing now) := by
  have walk : ∀ walked : Nat × MemoryDocketBackend Value,
      (∀ taskId ∈ order, walked.2.tasks[taskId]? = backend.tasks[taskId]?) →
      (order.foldl (requeueTask timing now) walked).2.pending = walked.2.pending ++
        order.filter fun taskId => backend.tasks[taskId]?.any (isRequeued timing now) := by
    induction order with
    | nil => simp
    | cons visited order ih =>
      intro walked unvisited
      obtain ⟨notLater, once⟩ := List.nodup_cons.mp once
      have here := unvisited visited List.mem_cons_self
      have frame : ∀ taskId ∈ order,
          (requeueTask timing now walked visited).2.tasks[taskId]? = backend.tasks[taskId]? := by
        intro taskId listed
        have different : taskId ≠ visited := by
          rintro rfl
          exact notLater listed
        rw [← unvisited taskId (List.mem_cons_of_mem _ listed)]
        rcases requeueTask_cases timing now walked visited with same | ⟨task, -, -, left | left⟩
        · rw [same]
        · rw [left]
          exact getElem?_insert_ne _ _ different
        · rw [left]
          exact getElem?_insert_ne _ _ different
      rw [List.foldl_cons, ih once _ frame, List.filter_cons]
      have added : (requeueTask timing now walked visited).2.pending = walked.2.pending ++
          if backend.tasks[visited]?.any (isRequeued timing now) then [visited] else [] := by
        unfold requeueTask
        rw [here]
        cases present : backend.tasks[visited]? with
        | none => simp
        | some task =>
          have named := filed visited task present
          by_cases stale : isStale timing now task = true
          · by_cases last : nextRetryCount task ≥ task.maxRetries
            · simp [stale, last, isRequeued, Nat.not_lt.mpr last]
            · simp [stale, last, isRequeued, Nat.lt_of_not_le last, named]
          · simp [stale, isRequeued]
      rw [added]
      split <;> simp
  exact walk (0, backend) fun _ _ => rfl

theorem Ordered.requeueStale (ordered : Ordered backend) (intact : Intact backend) {now : Int}
    (visits : order.Perm backend.tasks.keys)
    (inOrder : (Operation.requeueStale now order).AppendsInOrder timing backend) :
    Ordered (backend.requeueStale timing now order).2 := by
  have once : order.Nodup := by
    rw [visits.nodup_iff]
    exact Std.ExtTreeMap.distinct_keys.imp fun different same => different (by simp [same])
  have requeued : ∀ taskId ∈ order.filter fun taskId =>
      backend.tasks[taskId]?.any (isRequeued timing now), ∃ task,
        backend.tasks[taskId]? = some task ∧ isRequeued timing now task = true := by
    intro taskId listed
    simpa [Option.any_eq_true] using (List.mem_filter.mp listed).2
  refine ordered.append (Section.fixedPart_apply timing backend
    (.requeueStale now order) nofun)
    (requeueStale_pending intact.filed once) ?_ ?_ ?_
  · intro taskId listed
    obtain ⟨task, present, -⟩ := requeued taskId listed
    rw [present]
    rfl
  · refine (inOrder.2.sublist List.filter_sublist).imp_of_mem ?_
    intro first second firstListed secondListed lower
    obtain ⟨firstTask, firstPresent, firstRequeued⟩ := requeued first firstListed
    obtain ⟨secondTask, secondPresent, secondRequeued⟩ := requeued second secondListed
    rw [priorityOf_of_present firstPresent, priorityOf_of_present secondPresent]
    exact lower firstTask secondTask firstPresent secondPresent firstRequeued secondRequeued
  · intro taskId listed other queued
    obtain ⟨task, present, again⟩ := requeued taskId listed
    rw [priorityOf_of_present present]
    exact inOrder.1 taskId task present again other queued

/-! ## Whole runs -/

theorem Ordered.executes (ordered : Ordered before) (intact : Intact before)
    (executes : ExecutesInOrder timing before next) : Ordered next := by
  obtain ⟨operation, valid, inOrder, rfl⟩ := executes
  cases operation with
  | enqueue task => exact ordered.enqueue valid.1
  | dequeue taskTypes claimedAt => exact ordered.dequeue timing taskTypes claimedAt
  | ack taskId result => exact ordered.ack timing taskId result
  | nack taskId error => exact ordered.nack timing inOrder
  | cancel taskId reason => exact ordered.cancel timing taskId reason
  | requeueStale now order => exact ordered.requeueStale intact valid.1 inOrder

/-- A worker is given a waiting task of its types such that no waiting task of these types has
a higher priority, or there is no waiting task of its types. -/
def HighestFirst (backend : MemoryDocketBackend Value) : Prop :=
  ∀ (taskTypes : List String) (claimedAt : String),
    match (backend.dequeue taskTypes claimedAt).1 with
    | none => ∀ (taskId : TaskId) (other : DocketTask Value),
      backend.tasks[taskId]? = some other → other.status = .pending →
        other.taskType ∉ taskTypes
    | some given => ∃ task, backend.tasks[given.id]? = some task ∧
      given = claimed task claimedAt ∧ task.status = .pending ∧ task.taskType ∈ taskTypes ∧
      ∀ (taskId : TaskId) (other : DocketTask Value), backend.tasks[taskId]? = some other →
        other.status = .pending → other.taskType ∈ taskTypes → other.priority ≤ task.priority

theorem Ordered.highestFirst (ordered : Ordered backend) (intact : Intact backend) :
    HighestFirst backend := by
  intro taskTypes claimedAt
  rcases dequeue_cases taskTypes claimedAt backend with
    ⟨unclaimable, left⟩ | ⟨front, id, back, task, parts, present, waiting, ⟨subscribed, first⟩, left⟩
  · rw [left]
    intro taskId other found otherWaits otherType
    have claimable : backend.isClaimable taskTypes taskId = true := by
      simp [isClaimable, found, otherWaits, otherType]
    rw [unclaimable taskId (intact.queued taskId other found otherWaits)] at claimable
    cases claimable
  · rw [left]
    have named := intact.filed id task present
    refine ⟨task, ?_, rfl, waiting, subscribed, fun taskId other found otherWaits otherType => ?_⟩
    · simpa [claimed, named] using present
    have claimable : backend.isClaimable taskTypes taskId = true := by
      simp [isClaimable, found, otherWaits, otherType]
    have queued := intact.queued taskId other found otherWaits
    rw [parts] at queued
    rcases List.mem_append.mp queued with before | behind
    · rw [first taskId before] at claimable
      cases claimable
    · rcases List.mem_cons.mp behind with rfl | later
      · cases Option.some.inj (found.symm.trans present)
        exact Int.le_refl _
      · have sorted := ordered.ordered
        rw [parts] at sorted
        have lower := (List.pairwise_cons.mp (List.pairwise_append.mp sorted).2.1).1 taskId later
        rwa [priorityOf_of_present found, priorityOf_of_present present] at lower

/-- As long as every task that is put at the end of the queue belongs there, workers are given
the tasks of the highest priority. -/
theorem dequeues_highest_first {timing : Timing} {backend : MemoryDocketBackend Value}
    (reached : Reachable (ExecutesInOrder timing) (MemoryDocketBackend.new Value) backend) :
    HighestFirst backend := by
  have both : Ordered backend ∧ Intact backend := by
    refine @Reachable.invariant _ _ _ _ (fun backend => Ordered backend ∧ Intact backend)
      reached ⟨.new, .new⟩ ?_
    rintro current next ⟨ordered, intact⟩ step
    exact ⟨ordered.executes intact step, intact.executes step.executes⟩
  exact both.1.highestFirst both.2

/-- An urgent task of the same type as the plain one. -/
def urgentJob : DocketTask Nat :=
  { plainJob with
    id := "urgent"
    priority := 10 }

/-- The urgent task is queued behind no task of a lower priority. -/
def urgentBackend : MemoryDocketBackend Nat :=
  ((MemoryDocketBackend.new Nat).enqueue urgentJob |>.enqueue plainJob)

theorem dequeues_highest_first_urgent :
    Reachable (ExecutesInOrder plainTiming) (MemoryDocketBackend.new Nat) urgentBackend ∧
      HighestFirst urgentBackend ∧
      (urgentBackend.dequeue ["work"] "").1.map DocketTask.id = some "urgent" := by
  have reached : Reachable (ExecutesInOrder plainTiming) (MemoryDocketBackend.new Nat)
      urgentBackend := by
    have first : ExecutesInOrder plainTiming (MemoryDocketBackend.new Nat)
        ((MemoryDocketBackend.new Nat).enqueue urgentJob) :=
      ⟨.enqueue urgentJob, ⟨by simp [Section.Admissible, MemoryDocketBackend.new], trivial, trivial⟩,
        trivial, rfl⟩
    have second : ExecutesInOrder plainTiming ((MemoryDocketBackend.new Nat).enqueue urgentJob)
        urgentBackend :=
      ⟨.enqueue plainJob, ⟨by unfold Section.Admissible; decide, trivial, trivial⟩,
        trivial, rfl⟩
    exact (Reachable.start.extend first).extend second
  exact ⟨reached, dequeues_highest_first reached, by decide⟩

/-- The urgent task is claimed, the plain one is enqueued, and the urgent one fails once. -/
def retriedBackend : MemoryDocketBackend Nat :=
  let claimedFirst := ((MemoryDocketBackend.new Nat).enqueue urgentJob).dequeue ["work"]
    "2026-07-28T00:00:01Z"
  ((claimedFirst.2.enqueue plainJob).nack "urgent" "failed").2

/-- The urgent task is tried again behind the plain one. -/
theorem retry_behind_lower_priority :
    Reachable (Executes plainTiming) (MemoryDocketBackend.new Nat) retriedBackend ∧
      (retriedBackend.dequeue ["work"] "").1.map DocketTask.id = some "job" ∧
      ¬ HighestFirst retriedBackend := by
  refine ⟨?_, by decide, fun highest => ?_⟩
  · refine (((Reachable.start.extend ⟨.enqueue urgentJob, ⟨?_, trivial, trivial⟩, rfl⟩).extend
      ⟨.dequeue ["work"] "2026-07-28T00:00:01Z", ⟨trivial, trivial⟩, rfl⟩).extend
      ⟨.enqueue plainJob, ⟨?_, trivial, trivial⟩, rfl⟩).extend
      ⟨.nack "urgent" "failed", ⟨trivial, trivial⟩, rfl⟩
    · simp [Section.Admissible, MemoryDocketBackend.new]
    · unfold Section.Admissible
      decide
  · have urgent : retriedBackend.tasks["urgent"]? = some (retried urgentJob "failed") := by
      decide
    have given : (retriedBackend.dequeue ["work"] "").1 = some (claimed plainJob "") := by
      decide
    have plain : retriedBackend.tasks["job"]? = some plainJob := by decide
    have found := highest ["work"] ""
    rw [given] at found
    obtain ⟨task, present, -, -, -, lower⟩ := found
    have same : plainJob = task := Option.some.inj (plain.symm.trans present)
    subst same
    exact absurd (lower "urgent" _ urgent rfl (by decide)) (by decide)

end FastMcp.Docket
