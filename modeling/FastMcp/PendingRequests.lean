import FastMcp.RequestIds
import FastMcp.WaiterLists

/-! # Pending server-to-client requests

The server numbers its own requests, upwards or, for a legacy client, downwards, and
keeps a waiter for each until a response comes or the request is given up. Pending
requests are found by the correlation key of a response. What has been issued is known
from the next number alone, so that late responses to a legacy server can be told from
unknown ones without remembering them.
-/

namespace FastMcp.Bidirectional

open JsonRpc IntegerText WaiterLists

/-! ## The tracker -/

def firstServerRequestId : Int64 := 1000000
def firstExactLegacyServerRequestId : Int64 := -1
def lastExactLegacyServerRequestId : Int64 := -9007199254740991

inductive PendingIdDomain where
  | positive
  | exactLegacyNegative
deriving DecidableEq

namespace PendingIdDomain

def firstId : PendingIdDomain → Int64
  | positive => firstServerRequestId
  | exactLegacyNegative => firstExactLegacyServerRequestId

def nextIdAfter (candidate : Int64) : PendingIdDomain → Option Int64
  | positive => if candidate = Int64.maxValue then none else some (candidate + 1)
  | exactLegacyNegative =>
    (if candidate = Int64.minValue then none else some (candidate - 1)).filter fun next =>
      lastExactLegacyServerRequestId ≤ next

def isIssuedNegativeSuffix (domain : PendingIdDomain) (nextId : Option Int64)
    (key : CorrelationKey) : Bool :=
  match domain, key with
  | exactLegacyNegative, .integer text =>
    match parseSigned 10 64 text.toList with
    | none => false
    | some id =>
      match nextId with
      | some next =>
        (lastExactLegacyServerRequestId ≤ next && next ≤ firstExactLegacyServerRequestId) &&
          next.toInt < id && id ≤ firstExactLegacyServerRequestId.toInt
      | none =>
        lastExactLegacyServerRequestId.toInt ≤ id && id ≤ firstExactLegacyServerRequestId.toInt
  | _, _ => false

end PendingIdDomain

inductive McpError where
  | requestCancelled
  | internalError (message : String)
deriving DecidableEq

def connectionClosedError : McpError := .internalError "Bidirectional connection closed"
def inFlightLimitError : McpError := .internalError "Bidirectional request limit reached"
def requestIdExhaustedError : McpError := .internalError "Bidirectional request IDs exhausted"

inductive PendingResponseDisposition where
  | delivered
  | retiredGeneric
  | unmatched
deriving DecidableEq

variable {Cancellation Answer : Type}

/-- A waiter is known by the number of the call that registered it. -/
structure PendingRequest (Cancellation : Type) where
  sender : Nat
  requestCancellation : Option Cancellation

/-- The identifier of a response, and what its validation makes of it. -/
structure Response (Answer : Type) where
  id : Option RequestId
  outcome : Except McpError Answer

/-- An outcome that is sent to a waiter. -/
abbrev Sent (Answer : Type) := Nat × Except McpError Answer

/-- The requests that wait for a response. No identifier is left if `nextId` is `none`. -/
structure PendingRequests (Cancellation : Type) where
  requests : List (CorrelationKey × PendingRequest Cancellation)
  nextId : Option Int64
  closed : Bool
  idDomain : PendingIdDomain
  maxInFlight : Nat

namespace PendingRequests

def newInDomain (idDomain : PendingIdDomain) (maxInFlight : Nat) : PendingRequests Cancellation :=
  ⟨[], some idDomain.firstId, false, idDomain, maxInFlight⟩

/-- The loop over candidates, for as many turns as there is fuel. -/
def allocate (request : PendingRequest Cancellation) :
    Nat → PendingRequests Cancellation → Except McpError Int64 × PendingRequests Cancellation
  | 0, tracker => (.error requestIdExhaustedError, tracker)
  | fuel + 1, tracker =>
    match tracker.nextId with
    | none => (.error requestIdExhaustedError, tracker)
    | some candidate =>
      match (RequestId.number candidate).correlationKey with
      | .error _ => (.error requestIdExhaustedError, tracker)
      | .ok key =>
        let tracker := { tracker with nextId := tracker.idDomain.nextIdAfter candidate }
        if tracker.requests.any fun entry => entry.1 = key then allocate request fuel tracker
        else (.ok candidate, { tracker with requests := tracker.requests ++ [(key, request)] })

def registerWithCancellation (tracker : PendingRequests Cancellation)
    (request : PendingRequest Cancellation) :
    Except McpError Int64 × PendingRequests Cancellation :=
  if tracker.closed then (.error connectionClosedError, tracker)
  else if tracker.requests.length ≥ tracker.maxInFlight then (.error inFlightLimitError, tracker)
  else allocate request (tracker.maxInFlight + 1) tracker

/-- The requests that remain when a key is removed. -/
def without (requests : List (CorrelationKey × PendingRequest Cancellation))
    (key : CorrelationKey) : List (CorrelationKey × PendingRequest Cancellation) :=
  requests.filter fun entry => entry.1 ≠ key

def routeResponseWithDisposition (tracker : PendingRequests Cancellation)
    (response : Response Answer) :
    PendingResponseDisposition × List (Sent Answer) × PendingRequests Cancellation :=
  match response.id with
  | none => (.unmatched, [], tracker)
  | some id =>
    match id.correlationKey with
    | .error _ => (.unmatched, [], tracker)
    | .ok key =>
      let removed := { tracker with requests := without tracker.requests key }
      match tracker.requests.find? fun entry => entry.1 = key with
      | some entry => (.delivered, [(entry.2.sender, response.outcome)], removed)
      | none =>
        if tracker.idDomain.isIssuedNegativeSuffix tracker.nextId key then
          (.retiredGeneric, [], removed)
        else (.unmatched, [], removed)

def remove (tracker : PendingRequests Cancellation) (id : RequestId) :
    PendingRequests Cancellation :=
  match id.correlationKey with
  | .error _ => tracker
  | .ok key => { tracker with requests := without tracker.requests key }

/-- Whether the request that a pending request belongs to is over. -/
def isCancelled (isTerminal : Cancellation → Bool) (request : PendingRequest Cancellation) : Bool :=
  request.requestCancellation.any isTerminal

def cancelCancelled (tracker : PendingRequests Cancellation) (isTerminal : Cancellation → Bool) :
    List (Sent Answer) × PendingRequests Cancellation :=
  let cancelled := tracker.requests.filter fun entry => isCancelled isTerminal entry.2
  (cancelled.map fun entry => (entry.2.sender, .error .requestCancelled),
    { tracker with requests := tracker.requests.filter fun entry => !isCancelled isTerminal entry.2 })

def cancelAll (tracker : PendingRequests Cancellation) :
    List (Sent Answer) × PendingRequests Cancellation :=
  (tracker.requests.map fun entry => (entry.2.sender, .error connectionClosedError),
    { tracker with requests := [], closed := true })

end PendingRequests

/-! ## Runs -/

inductive Call (Cancellation Answer : Type) where
  | register (cancellation : Option Cancellation)
  | route (response : Response Answer)
  | remove (id : RequestId)
  | cancelCancelled (isTerminal : Cancellation → Bool)
  | cancelAll

/-- A tracker together with what happened so far: how many calls there were, which identifiers were
issued, which of them are pending, and what was sent to the waiters. An identifier is pending from
its registration until a response or a removal that correlates with it, or a cancellation. -/
structure History (Cancellation Answer : Type) where
  tracker : PendingRequests Cancellation
  calls : Nat
  issued : List Int64
  pending : List (Int64 × PendingRequest Cancellation)
  sent : List (Sent Answer)

namespace History

def start (idDomain : PendingIdDomain) (maxInFlight : Nat) : History Cancellation Answer :=
  ⟨.newInDomain idDomain maxInFlight, 0, [], [], []⟩

/-- The pending identifiers that do not correlate with the given one. -/
def uncorrelated (pending : List (Int64 × PendingRequest Cancellation)) (id : RequestId) :
    List (Int64 × PendingRequest Cancellation) :=
  pending.filter fun entry => !id.correlatesWith (.number entry.1)

def step (history : History Cancellation Answer) :
    Call Cancellation Answer → History Cancellation Answer
  | .register cancellation =>
    let request := ⟨history.calls, cancellation⟩
    match history.tracker.registerWithCancellation request with
    | (.ok id, tracker) =>
      { history with
        tracker, calls := history.calls + 1, issued := history.issued ++ [id]
        pending := history.pending ++ [(id, request)] }
    | (.error _, tracker) => { history with tracker, calls := history.calls + 1 }
  | .route response =>
    let (_, sends, tracker) := history.tracker.routeResponseWithDisposition response
    { history with
      tracker, calls := history.calls + 1, sent := history.sent ++ sends
      pending := response.id.elim history.pending (uncorrelated history.pending) }
  | .remove id =>
    { history with
      tracker := history.tracker.remove id, calls := history.calls + 1
      pending := uncorrelated history.pending id }
  | .cancelCancelled isTerminal =>
    let (sends, tracker) := history.tracker.cancelCancelled isTerminal
    { history with
      tracker, calls := history.calls + 1, sent := history.sent ++ sends
      pending := history.pending.filter fun entry =>
        !PendingRequests.isCancelled isTerminal entry.2 }
  | .cancelAll =>
    let (sends, tracker) := history.tracker.cancelAll
    { history with
      tracker, calls := history.calls + 1, sent := history.sent ++ sends, pending := [] }

end History

/-! ## Issued identifiers -/

/-- The identifiers between the first one and the next one. -/
def Issued (nextId : Option Int64) (id : Int64) : PendingIdDomain → Prop
  | .positive => firstServerRequestId.toInt ≤ id.toInt ∧ ∀ next ∈ nextId, id.toInt < next.toInt
  | .exactLegacyNegative =>
    lastExactLegacyServerRequestId.toInt ≤ id.toInt ∧
      id.toInt ≤ firstExactLegacyServerRequestId.toInt ∧ ∀ next ∈ nextId, next.toInt < id.toInt

/-- The identifiers of a domain. -/
def Belongs (id : Int64) : PendingIdDomain → Prop
  | .positive => firstServerRequestId.toInt ≤ id.toInt
  | .exactLegacyNegative =>
    lastExactLegacyServerRequestId.toInt ≤ id.toInt ∧
      id.toInt ≤ firstExactLegacyServerRequestId.toInt

theorem toInt_firstId : firstServerRequestId.toInt = 1000000 ∧
    firstExactLegacyServerRequestId.toInt = -1 ∧
    lastExactLegacyServerRequestId.toInt = -9007199254740991 := by
  decide

theorem toInt_add_one {id : Int64} (notLast : id ≠ Int64.maxValue) :
    (id + 1).toInt = id.toInt + 1 := by
  have upper := Int64.toInt_lt id
  have lower := Int64.le_toInt id
  have below : id.toInt ≠ 2 ^ 63 - 1 := fun same =>
    notLast (Int64.toInt_inj.mp (by rw [same]; decide))
  rw [Int64.toInt_add, Int.bmod_eq_of_le] <;> simp <;> omega

theorem toInt_sub_one {id : Int64} (notFirst : id ≠ Int64.minValue) :
    (id - 1).toInt = id.toInt - 1 := by
  have upper := Int64.toInt_lt id
  have lower := Int64.le_toInt id
  have above : id.toInt ≠ -2 ^ 63 := fun same =>
    notFirst (Int64.toInt_inj.mp (by rw [same]; decide))
  rw [Int64.toInt_sub, Int.bmod_eq_of_le] <;> simp <;> omega

theorem not_issued_first (domain : PendingIdDomain) (id : Int64) :
    ¬ Issued (some domain.firstId) id domain := by
  cases domain with
  | positive =>
    rintro ⟨lower, upper⟩
    exact absurd (upper _ rfl) (by simpa [PendingIdDomain.firstId] using lower)
  | exactLegacyNegative =>
    rintro ⟨-, upper, lower⟩
    exact absurd (lower _ rfl) (by simpa [PendingIdDomain.firstId] using upper)

theorem belongs_first (domain : PendingIdDomain) : Belongs domain.firstId domain := by
  cases domain with
  | positive => exact Int.le_refl _
  | exactLegacyNegative => exact ⟨by decide, Int.le_refl _⟩

/-- With each registration one more identifier is issued, and the next one is in the domain. -/
theorem issued_nextIdAfter {domain : PendingIdDomain} {candidate : Int64}
    (belongs : Belongs candidate domain) (id : Int64) :
    (Issued (domain.nextIdAfter candidate) id domain ↔
      Issued (some candidate) id domain ∨ id = candidate) ∧
    ∀ next ∈ domain.nextIdAfter candidate, Belongs next domain := by
  obtain ⟨first, legacyFirst, legacyLast⟩ := toInt_firstId
  have upper := Int64.toInt_lt id
  rw [← Int64.toInt_inj]
  cases domain with
  | positive =>
    simp only [Belongs, Issued, PendingIdDomain.nextIdAfter, first, Option.mem_def,
      Option.some.injEq, forall_eq'] at belongs ⊢
    split
    next last =>
      have isLast : candidate.toInt = 2 ^ 63 - 1 := by rw [last]; decide
      simp only [reduceCtorEq, false_implies, implies_true, and_true]
      omega
    next notLast =>
      simp only [Option.some.injEq, forall_eq', toInt_add_one notLast]
      omega
  | exactLegacyNegative =>
    simp only [Belongs, Issued, PendingIdDomain.nextIdAfter, legacyFirst, legacyLast,
      Option.mem_def, Option.some.injEq, forall_eq'] at belongs ⊢
    have notFirst : candidate ≠ Int64.minValue := by
      rintro rfl
      exact absurd belongs.1 (by decide)
    simp only [if_neg notFirst, Option.filter_some, Int64.le_iff_toInt_le, legacyLast,
      toInt_sub_one notFirst, decide_eq_true_eq]
    split
    next =>
      simp only [Option.some.injEq, forall_eq', toInt_sub_one notFirst]
      omega
    next =>
      simp only [reduceCtorEq, false_implies, implies_true, and_true]
      omega

/-! ## Keys -/

/-- The key of an issued identifier. -/
def numberKey (id : Int64) : CorrelationKey := .integer (toString id.toInt)

theorem numberKey_inj {first second : Int64} :
    numberKey first = numberKey second ↔ first = second := by
  rw [numberKey, numberKey, CorrelationKey.integer.injEq, Int.toString_eq_repr,
    Int.toString_eq_repr, Int.repr_inj, Int64.toInt_inj]

theorem correlatesWith_number {id : RequestId} {key : CorrelationKey}
    (isKey : id.correlationKey = .ok key) (issued : Int64) :
    id.correlatesWith (.number issued) = true ↔ numberKey issued = key := by
  have issuedKey : (RequestId.number issued).correlationKey = .ok (numberKey issued) := rfl
  simp only [RequestId.correlatesWith, isKey, issuedKey, decide_eq_true_eq]
  exact eq_comm

/-- An identifier has the key of an issued one exactly if it is valid and denotes it. -/
theorem correlationKey_eq_numberKey_iff {id : RequestId} {issued : Int64} :
    id.correlationKey = .ok (numberKey issued) ↔
      id.validate = .ok () ∧ id.Denotes issued.toInt := by
  constructor
  · intro isKey
    have valid := RequestId.validate_of_key isKey
    refine ⟨valid, ?_⟩
    rcases (RequestId.Valid.correlationKey_eq_iff ⟨id, valid⟩ ⟨.number issued, rfl⟩).mp isKey with
      ⟨value, -, other⟩ | ⟨whole, denotes, issuedDenotes⟩
    · contradiction
    · cases issuedDenotes
      exact denotes
  · rintro ⟨valid, denotes⟩
    exact denotes.correlationKey valid

/-- The suffix that was issued, as it is computed from the next identifier. -/
theorem isIssuedNegativeSuffix_iff {domain : PendingIdDomain} {nextId : Option Int64}
    (belongs : ∀ next ∈ nextId, Belongs next domain) {key : CorrelationKey} {id : RequestId}
    (isKey : id.correlationKey = .ok key) :
    domain.isIssuedNegativeSuffix nextId key = true ↔
      domain = .exactLegacyNegative ∧ ∃ issued, key = numberKey issued ∧
        Issued nextId issued domain := by
  cases domain with
  | positive => simp [PendingIdDomain.isIssuedNegativeSuffix]
  | exactLegacyNegative =>
    have valid := RequestId.validate_of_key isKey
    simp only [true_and]
    rcases RequestId.Valid.string_or_denotes ⟨id, valid⟩ with ⟨value, rfl⟩ | ⟨whole, denotes⟩
    · obtain rfl := Except.ok.inj ((RequestId.correlationKey_string valid).symm.trans isKey)
      simp [PendingIdDomain.isIssuedNegativeSuffix, numberKey]
    · obtain rfl := Except.ok.inj ((denotes.correlationKey valid).symm.trans isKey)
      have sameKey (issued : Int64) :
          CorrelationKey.integer (toString whole) = numberKey issued ↔ whole = issued.toInt := by
        rw [numberKey, CorrelationKey.integer.injEq, Int.toString_eq_repr, Int.toString_eq_repr,
          Int.repr_inj]
      simp only [sameKey, PendingIdDomain.isIssuedNegativeSuffix, parseSigned_toString]
      by_cases inRange : -2 ^ (64 - 1) ≤ whole ∧ whole < 2 ^ (64 - 1)
      · obtain ⟨issued, rfl⟩ : ∃ issued : Int64, whole = issued.toInt :=
          ⟨Int64.ofInt whole, (Int64.toInt_ofInt_of_le inRange.1 inRange.2).symm⟩
        have single : (∃ other : Int64, issued.toInt = other.toInt ∧
            Issued nextId other .exactLegacyNegative) ↔
              Issued nextId issued .exactLegacyNegative := by
          simp only [Int64.toInt_inj, exists_eq_left']
        rw [single, if_pos inRange]
        cases nextId with
        | none => simp [Issued]
        | some next =>
          obtain ⟨lower, upper⟩ := belongs next rfl
          simp only [Issued, Int64.le_iff_toInt_le, Bool.and_eq_true, decide_eq_true_eq,
            Option.mem_def, Option.some.injEq, forall_eq']
          omega
      · rw [if_neg inRange]
        simp only [Bool.false_eq_true, false_iff]
        rintro ⟨issued, rfl, -⟩
        exact inRange ⟨Int64.le_toInt issued, Int64.toInt_lt issued⟩

/-! ## The invariant -/

/-- A pending request as the tracker stores it. -/
def keyed (entry : Int64 × PendingRequest Cancellation) :
    CorrelationKey × PendingRequest Cancellation :=
  (numberKey entry.1, entry.2)

/-- The tracker holds the pending requests under their keys, the issued identifiers are those before
the next one, and no waiter is pending or answered twice. -/
structure Consistent (history : History Cancellation Answer) (idDomain : PendingIdDomain)
    (maxInFlight : Nat) : Prop where
  domain : history.tracker.idDomain = idDomain
  limit : history.tracker.maxInFlight = maxInFlight
  requests : history.tracker.requests = history.pending.map keyed
  issued : ∀ id, id ∈ history.issued ↔ Issued history.tracker.nextId id idDomain
  belongs : ∀ next ∈ history.tracker.nextId, Belongs next idDomain
  issuedOnce : history.issued.Nodup
  pendingIssued : ∀ entry ∈ history.pending, entry.1 ∈ history.issued
  pendingOnce : (history.pending.map Prod.fst).Nodup
  few : history.pending.length ≤ maxInFlight
  waiters : (history.pending.map (·.2.sender) ++ history.sent.map Prod.fst).Nodup
  earlier : ∀ waiter ∈ history.pending.map (·.2.sender) ++ history.sent.map Prod.fst,
    waiter < history.calls
  closed : history.tracker.closed = true → history.pending = []

namespace Consistent

variable {history : History Cancellation Answer} {idDomain : PendingIdDomain} {maxInFlight : Nat}

theorem start : Consistent (History.start idDomain maxInFlight : History Cancellation Answer)
    idDomain maxInFlight where
  domain := rfl
  limit := rfl
  requests := rfl
  issued id := by simp [History.start, PendingRequests.newInDomain, not_issued_first]
  belongs := by
    rintro next ⟨⟩
    exact belongs_first idDomain
  issuedOnce := .nil
  pendingIssued := by simp [History.start]
  pendingOnce := .nil
  few := Nat.zero_le _
  waiters := .nil
  earlier := by simp [History.start]
  closed := fun _ => rfl

/-- Some pending requests are given up, and to some of their waiters an outcome is sent. -/
theorem retire (consistent : Consistent history idDomain maxInFlight)
    (gone : Int64 × PendingRequest Cancellation → Bool)
    (tracker : PendingRequests Cancellation) (sends : List (Sent Answer))
    (sameDomain : tracker.idDomain = history.tracker.idDomain)
    (sameLimit : tracker.maxInFlight = history.tracker.maxInFlight)
    (sameNext : tracker.nextId = history.tracker.nextId)
    (requests : tracker.requests = (history.pending.filter (!gone ·)).map keyed)
    (closed : tracker.closed = true → history.pending.filter (!gone ·) = [])
    (sent : (sends.map Prod.fst).Sublist ((history.pending.filter gone).map (·.2.sender))) :
    Consistent { history with
        tracker, calls := history.calls + 1, sent := history.sent ++ sends
        pending := history.pending.filter (!gone ·) } idDomain maxInFlight := by
  have fewer : (history.pending.filter (!gone ·)).Sublist history.pending := List.filter_sublist
  have before := subperm_of_retired (·.2.sender) gone (history.sent.map Prod.fst) sent
  rw [← List.map_append] at before
  constructor
  · exact sameDomain.trans consistent.domain
  · exact sameLimit.trans consistent.limit
  · exact requests
  · simpa only [sameNext] using consistent.issued
  · simpa only [sameNext] using consistent.belongs
  · exact consistent.issuedOnce
  · exact fun entry listed => consistent.pendingIssued entry (fewer.subset listed)
  · exact consistent.pendingOnce.sublist (fewer.map _)
  · exact fewer.length_le.trans consistent.few
  · exact nodup_of_subperm before consistent.waiters
  · exact fun waiter listed => Nat.lt_succ_of_lt (consistent.earlier waiter (before.subset listed))
  · exact closed

/-- A registration fails and changes nothing, or it issues the next identifier. -/
theorem register_cases (consistent : Consistent history idDomain maxInFlight)
    (request : PendingRequest Cancellation) :
    (∃ error, history.tracker.registerWithCancellation request = (.error error, history.tracker)) ∨
      ∃ candidate, history.tracker.nextId = some candidate ∧ history.tracker.closed = false ∧
        history.pending.length < maxInFlight ∧
        history.tracker.registerWithCancellation request =
          (.ok candidate, { history.tracker with
            requests := history.tracker.requests ++ [(numberKey candidate, request)]
            nextId := idDomain.nextIdAfter candidate }) := by
  unfold PendingRequests.registerWithCancellation
  split
  next => exact .inl ⟨_, rfl⟩
  next opened =>
  split
  next => exact .inl ⟨_, rfl⟩
  next room =>
    rw [consistent.requests, List.length_map, consistent.limit] at room
    unfold PendingRequests.allocate
    cases isNext : history.tracker.nextId with
    | none => exact .inl ⟨_, rfl⟩
    | some candidate =>
      have unused : ¬ (history.tracker.requests.any fun entry =>
          decide (entry.1 = numberKey candidate)) = true := by
        rw [consistent.requests]
        simp only [List.any_map, List.any_eq_true, Function.comp_apply, keyed, decide_eq_true_eq,
          numberKey_inj, not_exists, not_and]
        rintro entry listed rfl
        have issued := (consistent.issued _).mp (consistent.pendingIssued entry listed)
        rw [isNext] at issued
        cases idDomain with
        | positive => exact Int.lt_irrefl _ (issued.2 _ rfl)
        | exactLegacyNegative => exact Int.lt_irrefl _ (issued.2.2 _ rfl)
      refine .inr ⟨candidate, rfl, by simpa using opened, by omega, ?_⟩
      have isKey : (RequestId.number candidate).correlationKey = .ok (numberKey candidate) := rfl
      simp only [isKey, if_neg unused, consistent.domain]

theorem register (consistent : Consistent history idDomain maxInFlight)
    (cancellation : Option Cancellation) :
    Consistent (history.step (.register cancellation)) idDomain maxInFlight := by
  rcases consistent.register_cases ⟨history.calls, cancellation⟩ with
    ⟨error, failed⟩ | ⟨candidate, isNext, opened, room, registered⟩
  · simp only [History.step, failed]
    exact { consistent with
      earlier := fun waiter listed => Nat.lt_succ_of_lt (consistent.earlier waiter listed) }
  · simp only [History.step, registered]
    have belongs := consistent.belongs candidate isNext
    have fresh : ¬ Issued (some candidate) candidate idDomain := by
      cases idDomain with
      | positive => exact fun issued => Int.lt_irrefl _ (issued.2 _ rfl)
      | exactLegacyNegative => exact fun issued => Int.lt_irrefl _ (issued.2.2 _ rfl)
    have unissued : candidate ∉ history.issued := fun listed =>
      fresh (isNext ▸ (consistent.issued candidate).mp listed)
    have later : history.calls ∉
        history.pending.map (·.2.sender) ++ history.sent.map Prod.fst := fun listed =>
      Nat.lt_irrefl _ (consistent.earlier _ listed)
    constructor
    · exact consistent.domain
    · exact consistent.limit
    · simp [consistent.requests, keyed]
    · intro id
      rw [List.mem_append, consistent.issued, isNext, List.mem_singleton,
        (issued_nextIdAfter belongs id).1]
    · exact (issued_nextIdAfter belongs candidate).2
    · rw [List.nodup_append_comm, List.singleton_append, List.nodup_cons]
      exact ⟨unissued, consistent.issuedOnce⟩
    · intro entry listed
      rw [List.mem_append, List.mem_singleton] at listed
      rcases listed with listed | rfl
      · exact List.mem_append_left _ (consistent.pendingIssued entry listed)
      · exact List.mem_append_right _ (List.mem_singleton_self _)
    · rw [List.map_append, List.nodup_append_comm, List.map_singleton, List.singleton_append,
        List.nodup_cons]
      refine ⟨fun listed => ?_, consistent.pendingOnce⟩
      obtain ⟨entry, isPending, rfl⟩ := List.mem_map.mp listed
      exact unissued (consistent.pendingIssued entry isPending)
    · rw [List.length_append]
      exact room
    · rw [List.map_append]
      exact nodup_snoc later consistent.waiters
    · intro waiter listed
      rw [List.map_append, List.append_assoc, List.map_singleton, List.singleton_append,
        List.mem_append, List.mem_cons] at listed
      rcases listed with listed | rfl | listed
      · exact Nat.lt_succ_of_lt (consistent.earlier _ (List.mem_append_left _ listed))
      · exact Nat.lt_succ_self _
      · exact Nat.lt_succ_of_lt (consistent.earlier _ (List.mem_append_right _ listed))
    · exact fun closed => absurd closed (by simp [opened])

/-- The requests without a key are those whose identifiers do not correlate. -/
theorem without_eq (consistent : Consistent history idDomain maxInFlight) {id : RequestId}
    {key : CorrelationKey} (isKey : id.correlationKey = .ok key) :
    PendingRequests.without history.tracker.requests key =
      (History.uncorrelated history.pending id).map keyed := by
  rw [consistent.requests, PendingRequests.without, History.uncorrelated, List.filter_map]
  congr 2
  funext entry
  rw [Bool.eq_iff_iff]
  simp [keyed, ← correlatesWith_number isKey]

theorem uncorrelated_of_error {id : RequestId} {error : String}
    (isError : id.correlationKey = .error error)
    (pending : List (Int64 × PendingRequest Cancellation)) :
    History.uncorrelated pending id = pending := by
  simp [History.uncorrelated, RequestId.correlatesWith_of_error isError]

/-- What routing a response does, by its identifier. -/
theorem route_cases (consistent : Consistent history idDomain maxInFlight)
    (response : Response Answer) :
    ((∀ id ∈ response.id, ∃ error, id.correlationKey = .error error) ∧
        history.tracker.routeResponseWithDisposition response =
          (.unmatched, [], history.tracker)) ∨
      ∃ id key, response.id = some id ∧ id.correlationKey = .ok key ∧
        ((∃ entry, (history.pending.find? fun entry => id.correlatesWith (.number entry.1)) =
              some entry ∧
            history.tracker.routeResponseWithDisposition response =
              (.delivered, [(entry.2.sender, response.outcome)], { history.tracker with
                requests := (History.uncorrelated history.pending id).map keyed })) ∨
          ((∀ entry ∈ history.pending, id.correlatesWith (.number entry.1) = false) ∧
            history.tracker.routeResponseWithDisposition response =
              (if idDomain.isIssuedNegativeSuffix history.tracker.nextId key then .retiredGeneric
                else .unmatched, [], { history.tracker with
                  requests := (History.uncorrelated history.pending id).map keyed }))) := by
  unfold PendingRequests.routeResponseWithDisposition
  cases isId : response.id with
  | none => exact .inl ⟨by simp, rfl⟩
  | some id =>
    cases isKey : id.correlationKey with
    | error error =>
      refine .inl ⟨?_, by simp only [isKey]⟩
      rintro other ⟨⟩
      exact ⟨error, isKey⟩
    | ok key =>
      have found : (history.tracker.requests.find? fun entry => decide (entry.1 = key)) =
          (history.pending.find? fun entry => id.correlatesWith (.number entry.1)).map keyed := by
        rw [consistent.requests, List.find?_map]
        congr 2
        funext entry
        rw [Bool.eq_iff_iff]
        simp [keyed, ← correlatesWith_number isKey]
      refine .inr ⟨id, key, rfl, isKey, ?_⟩
      simp only [isKey, found, consistent.without_eq isKey, consistent.domain]
      cases isFound : history.pending.find? fun entry => id.correlatesWith (.number entry.1) with
      | some entry => exact .inl ⟨entry, rfl, rfl⟩
      | none =>
        refine .inr ⟨by simpa using isFound, ?_⟩
        simp only [Option.map_none]
        split <;> rfl

theorem route (consistent : Consistent history idDomain maxInFlight) (response : Response Answer) :
    Consistent (history.step (.route response)) idDomain maxInFlight := by
  rcases consistent.route_cases response with
    ⟨invalid, routed⟩ | ⟨id, key, isId, isKey, ⟨entry, found, routed⟩ | ⟨-, routed⟩⟩
  · have unchanged : response.id.elim history.pending (History.uncorrelated history.pending) =
        history.pending.filter (!(fun _ => false) ·) := by
      cases isId : response.id with
      | none => simp
      | some id =>
        obtain ⟨error, isError⟩ := invalid id isId
        simp [uncorrelated_of_error isError]
    simp only [History.step, routed, unchanged]
    refine consistent.retire (fun _ => false) _ _ rfl rfl rfl ?_ ?_ (List.nil_sublist _)
    · simpa using consistent.requests
    · simpa using consistent.closed
  · simp only [History.step, routed, isId, Option.elim_some]
    refine consistent.retire (fun entry => id.correlatesWith (.number entry.1)) _ _ rfl rfl rfl rfl
      ?_ ?_
    · intro closed
      rw [consistent.closed closed]
      rfl
    · exact (singleton_sublist_filter found).map fun entry => entry.2.sender
  · simp only [History.step, routed, isId, Option.elim_some]
    refine consistent.retire (fun entry => id.correlatesWith (.number entry.1)) _ _ rfl rfl rfl rfl
      ?_ ?_
    · intro closed
      rw [consistent.closed closed]
      rfl
    · exact List.nil_sublist _

theorem remove (consistent : Consistent history idDomain maxInFlight) (id : RequestId) :
    Consistent (history.step (.remove id)) idDomain maxInFlight := by
  have kept : (history.tracker.remove id).requests =
      (History.uncorrelated history.pending id).map keyed ∧
      (history.tracker.remove id).nextId = history.tracker.nextId ∧
      (history.tracker.remove id).closed = history.tracker.closed ∧
      (history.tracker.remove id).idDomain = history.tracker.idDomain ∧
      (history.tracker.remove id).maxInFlight = history.tracker.maxInFlight := by
    unfold PendingRequests.remove
    cases isKey : id.correlationKey with
    | error error => simp [uncorrelated_of_error isKey, consistent.requests]
    | ok key => simp [consistent.without_eq isKey]
  obtain ⟨requests, sameNext, sameClosed, sameDomain, sameLimit⟩ := kept
  have retired := consistent.retire (fun entry => id.correlatesWith (.number entry.1))
    (history.tracker.remove id) [] sameDomain sameLimit sameNext requests
    (fun closed => by rw [consistent.closed (sameClosed ▸ closed)]; rfl) (List.nil_sublist _)
  simpa [History.step, History.uncorrelated] using retired

theorem step (consistent : Consistent history idDomain maxInFlight)
    (call : Call Cancellation Answer) :
    Consistent (history.step call) idDomain maxInFlight := by
  cases call with
  | register cancellation => exact consistent.register cancellation
  | route response => exact consistent.route response
  | remove id => exact consistent.remove id
  | cancelCancelled isTerminal =>
    refine consistent.retire (fun entry => PendingRequests.isCancelled isTerminal entry.2) _ _ rfl
      rfl rfl ?_ ?_ ?_
    · simp [consistent.requests, List.filter_map, keyed, Function.comp_def]
    · intro closed
      rw [consistent.closed closed]
      rfl
    · simp [consistent.requests, List.filter_map, keyed, Function.comp_def]
  | cancelAll =>
    have retired := consistent.retire (fun _ => true)
      { history.tracker with requests := [], closed := true } history.tracker.cancelAll.1 rfl rfl rfl
      (by simp) (by simp)
      (by simp [PendingRequests.cancelAll, consistent.requests, keyed, Function.comp_def])
    simpa [History.step, PendingRequests.cancelAll] using retired

end Consistent

/-! ## Whole runs -/

/-- The history after some calls. -/
def run (idDomain : PendingIdDomain) (maxInFlight : Nat)
    (calls : List (Call Cancellation Answer)) : History Cancellation Answer :=
  calls.foldl History.step (.start idDomain maxInFlight)

theorem run_consistent (idDomain : PendingIdDomain) (maxInFlight : Nat)
    (calls : List (Call Cancellation Answer)) :
    Consistent (run idDomain maxInFlight calls) idDomain maxInFlight := by
  unfold run
  generalize started : History.start idDomain maxInFlight = history
  have consistent : Consistent history idDomain maxInFlight := started ▸ .start
  clear started
  induction calls generalizing history with
  | nil => exact consistent
  | cons call calls ih => exact ih _ (consistent.step call)

/-- A closed tracker remains closed. -/
theorem step_closed {history : History Cancellation Answer} (call : Call Cancellation Answer)
    (closed : history.tracker.closed = true) : (history.step call).tracker.closed = true := by
  cases call with
  | register cancellation =>
    simp [History.step, PendingRequests.registerWithCancellation, closed]
  | route response =>
    simp only [History.step, PendingRequests.routeResponseWithDisposition]
    split <;> try exact closed
    split <;> try exact closed
    split <;> try exact closed
    split <;> exact closed
  | remove id =>
    simp only [History.step, PendingRequests.remove]
    split <;> exact closed
  | cancelCancelled isTerminal => exact closed
  | cancelAll => rfl

theorem run_closed {idDomain : PendingIdDomain} {maxInFlight : Nat}
    {calls : List (Call Cancellation Answer)} (cancelled : .cancelAll ∈ calls) :
    (run idDomain maxInFlight calls).tracker.closed = true := by
  obtain ⟨before, after, rfl⟩ := List.append_of_mem cancelled
  rw [run, List.foldl_append, List.foldl_cons]
  have closed : ((before.foldl History.step (.start idDomain maxInFlight)).step
      .cancelAll).tracker.closed = true := rfl
  generalize (before.foldl History.step (.start idDomain maxInFlight)).step .cancelAll = history
    at closed ⊢
  clear cancelled
  induction after generalizing history with
  | nil => exact closed
  | cons call after ih => exact ih _ (step_closed call closed)

/-- A response whose identifier is that of a pending request. -/
def Correlates (history : History Cancellation Answer) (response : Response Answer)
    (entry : Int64 × PendingRequest Cancellation) : Prop :=
  entry ∈ history.pending ∧ ∃ id ∈ response.id, id.correlatesWith (.number entry.1) = true

/-- A response whose identifier denotes an issued one that is not pending any more. -/
def Retired (history : History Cancellation Answer) (response : Response Answer) : Prop :=
  ∃ id ∈ response.id, id.validate = .ok () ∧ ∃ issued ∈ history.issued,
    id.Denotes issued.toInt ∧ ∀ entry ∈ history.pending, entry.1 ≠ issued

/-- A response is about one pending request at most. -/
theorem Consistent.correlates_unique {history : History Cancellation Answer}
    {idDomain : PendingIdDomain} {maxInFlight : Nat}
    (consistent : Consistent history idDomain maxInFlight) {response : Response Answer}
    {first second : Int64 × PendingRequest Cancellation}
    (correlated : Correlates history response first)
    (alsoCorrelated : Correlates history response second) : first = second := by
  obtain ⟨isPending, id, isId, correlates⟩ := correlated
  obtain ⟨alsoPending, other, isOther, alsoCorrelates⟩ := alsoCorrelated
  obtain rfl := Option.some.inj (isId.symm.trans isOther)
  cases isKey : id.correlationKey with
  | error error =>
    rw [RequestId.correlatesWith_of_error isKey] at correlates
    contradiction
  | ok key =>
    have firstKey := (correlatesWith_number isKey first.1).mp correlates
    have secondKey := (correlatesWith_number isKey second.1).mp alsoCorrelates
    exact List.inj_on_of_nodup_map consistent.pendingOnce isPending alsoPending
      (numberKey_inj.mp (firstKey.trans secondKey.symm))

/-- The disposition of a response, and whom its outcome is sent to. -/
theorem Consistent.route_exact {history : History Cancellation Answer} {idDomain : PendingIdDomain}
    {maxInFlight : Nat} (consistent : Consistent history idDomain maxInFlight)
    (response : Response Answer) :
    ((history.tracker.routeResponseWithDisposition response).1 = .delivered ↔
        ∃ entry, Correlates history response entry) ∧
      ((history.tracker.routeResponseWithDisposition response).1 = .retiredGeneric ↔
        idDomain = .exactLegacyNegative ∧ Retired history response) ∧
      (∀ entry, Correlates history response entry →
        (history.tracker.routeResponseWithDisposition response).2.1 =
          [(entry.2.sender, response.outcome)]) ∧
      ∀ sent ∈ (history.tracker.routeResponseWithDisposition response).2.1,
        ∃ entry, Correlates history response entry ∧ sent = (entry.2.sender, response.outcome) := by
  rcases consistent.route_cases response with
    ⟨invalid, routed⟩ | ⟨id, key, isId, isKey, ⟨entry, found, routed⟩ | ⟨absent, routed⟩⟩
  · rw [routed]
    have unmatched (entry : Int64 × PendingRequest Cancellation) :
        ¬ Correlates history response entry := by
      rintro ⟨-, id, isId, correlates⟩
      obtain ⟨error, isError⟩ := invalid id isId
      rw [RequestId.correlatesWith_of_error isError] at correlates
      contradiction
    refine ⟨⟨nofun, fun ⟨entry, correlated⟩ => absurd correlated (unmatched entry)⟩, ⟨nofun, ?_⟩,
      fun entry correlated => absurd correlated (unmatched entry), by simp⟩
    · rintro ⟨-, id, isId, valid, issued, -, denotes, -⟩
      obtain ⟨error, isError⟩ := invalid id isId
      rw [denotes.correlationKey valid] at isError
      contradiction
  · have isPending := List.mem_of_find?_eq_some found
    have correlates : id.correlatesWith (.number entry.1) = true := by
      simpa using List.find?_some found
    have correlated : Correlates history response entry := ⟨isPending, id, isId, correlates⟩
    rw [routed]
    refine ⟨⟨fun _ => ⟨entry, correlated⟩, fun _ => rfl⟩, ⟨nofun, ?_⟩,
      fun other correlating => ?_, ?_⟩
    · rintro ⟨-, other, isOther, valid, issued, -, denotes, notPending⟩
      obtain rfl := Option.some.inj (isId.symm.trans isOther)
      have sameKey := (correlatesWith_number isKey entry.1).mp correlates
      rw [denotes.correlationKey valid] at isKey
      rw [← Except.ok.inj isKey] at sameKey
      exact absurd (numberKey_inj.mp sameKey) (notPending entry isPending)
    · rw [consistent.correlates_unique correlating correlated]
    · intro sent listed
      rw [List.mem_singleton] at listed
      exact ⟨entry, correlated, listed⟩
  · have unmatched : ¬ ∃ entry, Correlates history response entry := by
      rintro ⟨entry, isPending, other, isOther, correlates⟩
      obtain rfl := Option.some.inj (isId.symm.trans isOther)
      rw [absent entry isPending] at correlates
      contradiction
    have suffix := isIssuedNegativeSuffix_iff consistent.belongs isKey
    have retired : (idDomain.isIssuedNegativeSuffix history.tracker.nextId key = true) ↔
        idDomain = .exactLegacyNegative ∧ Retired history response := by
      rw [suffix]
      apply and_congr_right
      intro _
      constructor
      · rintro ⟨issued, rfl, isIssued⟩
        obtain ⟨valid, denotes⟩ := correlationKey_eq_numberKey_iff.mp isKey
        refine ⟨id, isId, valid, issued, (consistent.issued issued).mpr isIssued, denotes, ?_⟩
        rintro entry isPending rfl
        have correlates := (correlatesWith_number isKey entry.1).mpr rfl
        rw [absent entry isPending] at correlates
        contradiction
      · rintro ⟨other, isOther, valid, issued, isIssued, denotes, -⟩
        obtain rfl := Option.some.inj (isId.symm.trans isOther)
        refine ⟨issued, ?_, (consistent.issued issued).mp isIssued⟩
        exact Except.ok.inj (isKey.symm.trans (denotes.correlationKey valid))
    rw [routed, ← retired]
    refine ⟨?_, ?_, fun entry correlated => absurd ⟨entry, correlated⟩ unmatched, by simp⟩
    · refine ⟨fun delivered => ?_, fun correlated => absurd correlated unmatched⟩
      simp only at delivered
      split at delivered <;> contradiction
    · simp only
      split <;> simp_all

/-- After any calls, no identifier was issued twice, the pending requests are few, every waiter was
sent one outcome at most, every response is classified by whether its identifier is pending or was
issued and its outcome is sent to the waiter of the pending request and to nobody else, and nothing
is pending or registered after everything was cancelled. -/
theorem server_correlation_exact (idDomain : PendingIdDomain) (maxInFlight : Nat)
    (calls : List (Call Cancellation Answer)) :
    (run idDomain maxInFlight calls).issued.Nodup ∧
    (run idDomain maxInFlight calls).pending.length ≤ maxInFlight ∧
    (run idDomain maxInFlight calls).tracker.requests.length =
      (run idDomain maxInFlight calls).pending.length ∧
    ((run idDomain maxInFlight calls).sent.map Prod.fst).Nodup ∧
    (∀ response : Response Answer,
      let history := run idDomain maxInFlight calls
      let routed := history.tracker.routeResponseWithDisposition response
      (routed.1 = .delivered ↔ ∃ entry, Correlates history response entry) ∧
      (routed.1 = .retiredGeneric ↔
        idDomain = .exactLegacyNegative ∧ Retired history response) ∧
      (routed.1 = .unmatched ↔ (¬ ∃ entry, Correlates history response entry) ∧
        ¬ (idDomain = .exactLegacyNegative ∧ Retired history response)) ∧
      (∀ entry, Correlates history response entry →
        routed.2.1 = [(entry.2.sender, response.outcome)]) ∧
      ∀ sent ∈ routed.2.1, ∃ entry, Correlates history response entry ∧
        sent = (entry.2.sender, response.outcome)) ∧
    (.cancelAll ∈ calls → (run idDomain maxInFlight calls).pending = [] ∧
      ∀ request, ((run idDomain maxInFlight calls).tracker.registerWithCancellation request).1 =
        .error connectionClosedError) := by
  have consistent := run_consistent idDomain maxInFlight calls
  refine ⟨consistent.issuedOnce, consistent.few, ?_, ?_, fun response => ?_, fun cancelled => ?_⟩
  · rw [consistent.requests, List.length_map]
  · exact (List.nodup_append.mp consistent.waiters).2.1
  · obtain ⟨delivered, retired, sends⟩ := consistent.route_exact response
    refine ⟨delivered, retired, ?_, sends⟩
    rw [← delivered, ← retired]
    cases ((run idDomain maxInFlight calls).tracker.routeResponseWithDisposition response).1 <;>
      simp
  · have closed : (run idDomain maxInFlight calls).tracker.closed = true := run_closed cancelled
    refine ⟨consistent.closed closed, fun request => ?_⟩
    rw [PendingRequests.registerWithCancellation, if_pos closed]

end FastMcp.Bidirectional
