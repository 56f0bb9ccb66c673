import FastMcp.CodecSteps
import FastMcp.RawJsonAdmission

/-! # The two admission scanners agree

A frame that the codec's scanner accepts as an object is one that the
protocol's scanner accepts, and conversely. The scanners are compared step by
step: as long as no duplicate member was met, the codec's cursor moves exactly
as the protocol's does.
-/

namespace FastMcp.TransportCodec

open ByteText RawAdmission JsonGrammar JsonNumbers Outcomes

namespace JsonAdmission

open RawJsonScanner (Stop located)

/-! ## Simulation -/

/-- A scan that succeeds at a cursor without having met a duplicate member. -/
def CleanAt (result : Except JsonAdmissionFailure JsonAdmission) (cursor : Cursor) : Prop :=
  ∃ reached, result = .ok reached ∧ reached.duplicateObjectMember = false ∧
    reached.cursor = cursor

/-- From a state, the codec reaches a cursor cleanly exactly when the state is
clean and the protocol reaches the cursor. -/
def Agrees (state : JsonAdmission) (codec : Except JsonAdmissionFailure JsonAdmission)
    (protocol : Except Stop Cursor) : Prop :=
  ∀ next, CleanAt codec next ↔ state.duplicateObjectMember = false ∧ protocol = .ok next

theorem agrees_ok (state : JsonAdmission) (cursor : Cursor) :
    Agrees state (.ok { state with cursor := cursor }) (.ok cursor) := by
  intro next
  constructor
  · rintro ⟨reached, equal, clean, rfl⟩
    obtain rfl := Except.ok.inj equal
    exact ⟨clean, rfl⟩
  · rintro ⟨clean, equal⟩
    exact ⟨_, rfl, clean, Except.ok.inj equal⟩

theorem agrees_error (state : JsonAdmission) (failure : JsonAdmissionFailure) (stop : Stop) :
    Agrees state (.error failure) (.error stop) := by
  intro next
  simp [CleanAt]

variable {state : JsonAdmission}
  {codecNext next : JsonAdmission → Except JsonAdmissionFailure JsonAdmission}
  {protocolNext : Cursor → Except Stop Cursor} {path : List RawJsonPathSegment} {close : Char}

variable {codec result : Except JsonAdmissionFailure JsonAdmission} {protocol : Except Stop Cursor}
  {other reached : JsonAdmission} {depth : Nat}

theorem Agrees.bind (first : Agrees state codec protocol)
    (second : ∀ reached, Agrees reached (codecNext reached) (protocolNext reached.cursor)) :
    Agrees state (codec.bind codecNext) (protocol.bind protocolNext) := by
  intro next
  constructor
  · rintro ⟨last, continued, lastClean, lastCursor⟩
    obtain ⟨reached, codecOk, codecContinued⟩ := bind_eq_ok.mp continued
    obtain ⟨reachedClean, protocolContinued⟩ :=
      (second reached next).mp ⟨last, codecContinued, lastClean, lastCursor⟩
    obtain ⟨stateClean, protocolOk⟩ := (first reached.cursor).mp ⟨reached, codecOk, reachedClean, rfl⟩
    exact ⟨stateClean, bind_eq_ok.mpr ⟨_, protocolOk, protocolContinued⟩⟩
  · rintro ⟨stateClean, continued⟩
    obtain ⟨cursor, protocolOk, protocolContinued⟩ := bind_eq_ok.mp continued
    obtain ⟨reached, codecOk, reachedClean, rfl⟩ := (first cursor).mpr ⟨stateClean, protocolOk⟩
    obtain ⟨last, codecContinued, lastClean, lastCursor⟩ :=
      (second reached next).mpr ⟨reachedClean, protocolContinued⟩
    exact ⟨last, bind_eq_ok.mpr ⟨reached, codecOk, codecContinued⟩, lastClean, lastCursor⟩

/-- A step with a result of its own, after which both scanners go on. -/
theorem agrees_attached {Result : Type} {codec : Except JsonAdmissionError Result}
    {protocol : Except RawJsonAdmissionError Result}
    {codecNext : Result → Except JsonAdmissionFailure JsonAdmission}
    {protocolNext : Result → Except Stop Cursor}
    (same : ∀ result, codec = .ok result ↔ protocol = .ok result)
    (next : ∀ result, Agrees state (codecNext result) (protocolNext result)) :
    Agrees state ((attached state codec).bind codecNext)
      ((located path protocol).bind protocolNext) := by
  cases protocolOk : protocol with
  | ok result =>
    rw [(same result).mpr protocolOk]
    exact next result
  | error stop =>
    cases codecOk : codec with
    | ok result =>
      rw [(same result).mp codecOk] at protocolOk
      contradiction
    | error failure => exact agrees_error state _ _

/-- A step that only moves the cursor. -/
theorem agrees_moved {codec : Except JsonAdmissionError Cursor}
    {protocol : Except RawJsonAdmissionError Cursor}
    (same : ∀ cursor, codec = .ok cursor ↔ protocol = .ok cursor) :
    Agrees state (moved state codec) (located path protocol) := by
  have bound : (located path protocol).bind (fun cursor => .ok cursor) = located path protocol := by
    cases protocol <;> rfl
  rw [← bound]
  exact agrees_attached same fun cursor => agrees_ok state cursor

theorem Agrees.of_same_flag (agrees : Agrees other codec protocol)
    (sameFlag : state.duplicateObjectMember = other.duplicateObjectMember) :
    Agrees state codec protocol := by
  intro next
  rw [sameFlag]
  exact agrees next

theorem agrees_openContainer
    {codecEntries : Nat → JsonAdmission → Except JsonAdmissionFailure JsonAdmission}
    {protocolEntries : Nat → Cursor → Except Stop Cursor} (entries : ∀ nested reached,
      Agrees reached (codecEntries nested reached) (protocolEntries nested reached.cursor))
    (state : JsonAdmission) :
    Agrees state (openContainer close codecEntries depth state)
      (RawJsonScanner.openContainer close protocolEntries depth path state.cursor) := by
  refine agrees_attached (fun _ => enterContainer_iff) fun nested => ?_
  simp only
  cases closing : Cursor.consume
      (Cursor.skipWhitespace { state.cursor with rest := state.cursor.rest.tail }) close with
  | some closed => exact agrees_ok state closed
  | none => exact (entries nested { state with cursor := _ }).of_same_flag rfl

theorem agrees_closeOrContinue
    (next : ∀ reached, Agrees reached (codecNext reached) (protocolNext reached.cursor))
    (state : JsonAdmission) :
    Agrees state (closeOrContinue close codecNext state)
      (RawJsonScanner.closeOrContinue close path protocolNext state.cursor) := by
  unfold closeOrContinue RawJsonScanner.closeOrContinue
  cases closing : state.cursor.skipWhitespace.consume close with
  | some closed => exact agrees_ok state closed
  | none =>
    cases separating : state.cursor.skipWhitespace.consume ',' with
    | none => exact agrees_error state _ _
    | some separated => exact (next { state with cursor := _ }).of_same_flag rfl

/-! ## The recursion -/

section Recursion

variable (stringLimit fuel : Nat)

def AgreesOnValues : Prop :=
  ∀ depth path state, Agrees state (parseValue stringLimit fuel depth state)
    (RawJsonScanner.parseValue stringLimit fuel depth path state.cursor)

def AgreesOnElements : Prop :=
  ∀ depth path index state, Agrees state (parseElements stringLimit fuel depth state)
    (RawJsonScanner.parseElements stringLimit fuel depth path index state.cursor)

def AgreesOnMembers : Prop :=
  ∀ isRoot depth path names state,
    Agrees state (parseMembers stringLimit fuel isRoot depth names state)
      (RawJsonScanner.parseMembers stringLimit fuel depth path names state.cursor)

end Recursion

variable {stringLimit fuel : Nat}

theorem agreesOnElements_step (values : AgreesOnValues stringLimit fuel)
    (elements : AgreesOnElements stringLimit fuel) : AgreesOnElements stringLimit (fuel + 1) := by
  intro depth path index state
  rw [parseElements, RawJsonScanner.parseElements]
  refine (agrees_moved fun _ => chargeContainerEntry_iff).bind fun charged => ?_
  refine (values depth _ charged).bind fun reached => ?_
  exact agrees_closeOrContinue (fun next => elements depth path (index + 1) next) reached

/-- A duplicate name stops the protocol's scanner, and leaves the codec's with
a state from which no clean one can be reached. -/
theorem agrees_noteName (state : JsonAdmission) (isRoot : Bool) (name : String)
    (names : List String) (stop : Stop)
    (next : ∀ reached, Agrees reached (codecNext reached) (protocolNext reached.cursor)) :
    Agrees state (codecNext (noteName isRoot name (name ∈ names) state))
      (if name ∈ names then .error stop else protocolNext state.cursor) := by
  have agrees := next (noteName isRoot name (name ∈ names) state)
  by_cases duplicate : name ∈ names
  · intro reached
    rw [agrees reached]
    simp [noteName, duplicate]
  · rw [if_neg duplicate]
    exact agrees.of_same_flag (by simp [noteName, duplicate])

theorem agrees_parseMemberValue (isRoot : Bool) (name : String) (path : List RawJsonPathSegment)
    {codecValue : JsonAdmission → Except JsonAdmissionFailure JsonAdmission}
    {protocolValue : Cursor → Except Stop Cursor}
    (value : ∀ reached, Agrees reached (codecValue reached) (protocolValue reached.cursor))
    (next : ∀ reached, Agrees reached (codecNext reached) (protocolNext reached.cursor))
    (named : JsonAdmission) :
    Agrees named (parseMemberValue isRoot name codecValue codecNext named)
      (RawJsonScanner.parseMemberValue path name protocolValue protocolNext named.cursor) := by
  unfold parseMemberValue RawJsonScanner.parseMemberValue
  cases colon : named.cursor.skipWhitespace.consume ':' with
  | none => exact agrees_error named _ _
  | some afterColon =>
    have scanned := value { named with cursor := afterColon.skipWhitespace }
    refine Agrees.of_same_flag (scanned.bind fun reached => ?_) rfl
    have noted (start : Nat) : Agrees reached
        (closeOrContinue '\x7d' codecNext (noteValue isRoot name start reached))
        (RawJsonScanner.closeOrContinue '\x7d' path protocolNext reached.cursor) := by
      cases isRoot with
      | true => exact (agrees_closeOrContinue next { reached with envelope := _ }).of_same_flag rfl
      | false => exact agrees_closeOrContinue next reached
    exact noted _

theorem agreesOnMembers_step (values : AgreesOnValues stringLimit fuel)
    (members : AgreesOnMembers stringLimit fuel) : AgreesOnMembers stringLimit (fuel + 1) := by
  intro isRoot depth path names state
  rw [parseMembers, RawJsonScanner.parseMembers]
  refine (agrees_moved fun _ => chargeContainerEntry_iff).bind fun charged => ?_
  refine agrees_attached (fun _ => parseString_iff) fun parsed => ?_
  obtain ⟨found, afterName⟩ := parsed
  cases found with
  | none => exact agrees_error charged _ _
  | some name =>
    have agrees := agrees_noteName { charged with cursor := afterName } isRoot name names
      ⟨.duplicateObjectMember, path ++ [.member name]⟩
      (agrees_parseMemberValue isRoot name path (values depth (path ++ [.member name]))
        (members isRoot depth path (name :: names)))
    exact agrees.of_same_flag rfl

theorem noteRoot_flag (depth : Nat) (state : JsonAdmission) :
    (noteRoot depth state).duplicateObjectMember = state.duplicateObjectMember ∧
      (noteRoot depth state).cursor = state.cursor := by
  unfold noteRoot
  split <;> exact ⟨rfl, rfl⟩

theorem agreesOnValues_step (elements : AgreesOnElements stringLimit fuel)
    (members : AgreesOnMembers stringLimit fuel) : AgreesOnValues stringLimit (fuel + 1) := by
  intro depth path state
  rw [parseValue, RawJsonScanner.parseValue]
  cases equal : state.cursor.rest with
  | nil => exact agrees_error state _ _
  | cons first text =>
    simp only
    split
    · obtain ⟨sameFlag, sameCursor⟩ := noteRoot_flag depth state
      rw [← sameCursor]
      exact (agrees_openContainer (fun nested reached => members _ nested path [] reached)
        (noteRoot depth state)).of_same_flag sameFlag.symm
    split
    · exact agrees_openContainer (fun nested reached => elements nested path 0 reached) state
    split
    · have read : (located path (RawJsonScanner.parseString stringLimit false state.cursor)).map
          Prod.snd = located path
            ((RawJsonScanner.parseString stringLimit false state.cursor).map Prod.snd) := by
        cases RawJsonScanner.parseString stringLimit false state.cursor <;> rfl
      rw [read]
      refine agrees_moved fun cursor => ?_
      simp only [map_eq_ok, parseString_iff]
    split
    · exact agrees_moved fun _ => parseLiteral_iff
    split
    · exact agrees_moved fun _ => parseLiteral_iff
    split
    · exact agrees_moved fun _ => parseLiteral_iff
    split
    · exact agrees_moved fun _ => parseNumber_iff
    · exact agrees_error state _ _

/-- The codec's scanner simulates the protocol's on every text. -/
theorem agrees (stringLimit fuel : Nat) :
    AgreesOnValues stringLimit fuel ∧ AgreesOnElements stringLimit fuel ∧
      AgreesOnMembers stringLimit fuel := by
  induction fuel with
  | zero =>
    refine ⟨?_, ?_, ?_⟩
    · intro depth path state
      rw [parseValue, RawJsonScanner.parseValue]
      exact agrees_error state _ _
    · intro depth path index state
      rw [parseElements, RawJsonScanner.parseElements]
      exact agrees_error state _ _
    · intro isRoot depth path names state
      rw [parseMembers, RawJsonScanner.parseMembers]
      exact agrees_error state _ _
  | succ fuel ih =>
    obtain ⟨values, elements, members⟩ := ih
    exact ⟨agreesOnValues_step elements members, agreesOnElements_step values elements,
      agreesOnMembers_step values members⟩

/-! ## The kind of the top-level value -/

/-- A scan that does not change whether the frame is known to be an object. -/
def KeepsRoot (state : JsonAdmission) (result : Except JsonAdmissionFailure JsonAdmission) : Prop :=
  ∀ reached, result = .ok reached → reached.envelope.rootIsObject = state.envelope.rootIsObject

theorem keepsRoot_ok (same : reached.envelope.rootIsObject = state.envelope.rootIsObject) :
    KeepsRoot state (.ok reached) := by
  intro other equal
  rw [← Except.ok.inj equal, same]

theorem keepsRoot_error (state : JsonAdmission) (failure : JsonAdmissionFailure) :
    KeepsRoot state (.error failure) := by
  intro reached equal
  contradiction

theorem KeepsRoot.bind (first : KeepsRoot state result)
    (second : ∀ reached, KeepsRoot reached (next reached)) :
    KeepsRoot state (result.bind next) := by
  intro last continued
  obtain ⟨reached, equal, nextEqual⟩ := bind_eq_ok.mp continued
  rw [second reached last nextEqual, first reached equal]

theorem KeepsRoot.of_same (keeps : KeepsRoot other result)
    (same : other.envelope.rootIsObject = state.envelope.rootIsObject) : KeepsRoot state result :=
  fun reached equal => (keeps reached equal).trans same

theorem keepsRoot_moved (state : JsonAdmission) (result : Except JsonAdmissionError Cursor) :
    KeepsRoot state (moved state result) := by
  intro reached equal
  obtain ⟨cursor, -, rfl⟩ := map_eq_ok.mp equal
  rfl

theorem keepsRoot_openContainer
    {entries : Nat → JsonAdmission → Except JsonAdmissionFailure JsonAdmission}
    (keeps : ∀ reached, KeepsRoot reached (entries (depth + 1) reached)) (state : JsonAdmission) :
    KeepsRoot state (openContainer close entries depth state) := by
  intro reached opened
  obtain ⟨nested, entered, continued⟩ := bind_eq_ok.mp opened
  obtain ⟨-, rfl⟩ := codecScanProfile.enterContainer_eq_ok.mp (mapError_eq_ok.mp entered)
  simp only at continued
  split at continued
  · rw [← Except.ok.inj continued]
  · have kept := keeps _ reached continued
    exact kept

theorem keepsRoot_closeOrContinue (keeps : ∀ reached, KeepsRoot reached (next reached))
    (state : JsonAdmission) : KeepsRoot state (closeOrContinue close next state) := by
  unfold closeOrContinue
  split
  · exact keepsRoot_ok rfl
  · split
    · exact keepsRoot_error state _
    · exact (keeps _).of_same rfl

theorem noteMember_root (envelope : RawEnvelopeShape) (name : String) :
    (envelope.noteMember name).rootIsObject = envelope.rootIsObject := by
  unfold RawEnvelopeShape.noteMember
  repeat' split
  all_goals rfl

theorem noteName_root (isRoot : Bool) (name : String) (duplicate : Bool) (state : JsonAdmission) :
    (noteName isRoot name duplicate state).envelope.rootIsObject = state.envelope.rootIsObject := by
  unfold noteName RawEnvelopeShape.noteDuplicateMember
  simp only
  repeat' split
  all_goals simp [noteMember_root]

theorem noteValue_root (isRoot : Bool) (name : String) (start : Nat) (state : JsonAdmission) :
    (noteValue isRoot name start state).envelope.rootIsObject = state.envelope.rootIsObject := by
  unfold noteValue RawEnvelopeShape.noteValueSpan
  repeat' split
  all_goals rfl

theorem keepsRoot_parseMemberValue {isRoot : Bool} {name : String}
    {scanValue : JsonAdmission → Except JsonAdmissionFailure JsonAdmission}
    (value : ∀ reached, KeepsRoot reached (scanValue reached))
    (keeps : ∀ reached, KeepsRoot reached (next reached)) (named : JsonAdmission) :
    KeepsRoot named (parseMemberValue isRoot name scanValue next named) := by
  unfold parseMemberValue
  split
  · exact keepsRoot_error named _
  · refine KeepsRoot.of_same ((value _).bind fun reached => ?_) rfl
    exact (keepsRoot_closeOrContinue keeps _).of_same (noteValue_root isRoot name _ reached)

/-- Only the top-level value decides whether the frame is an object. -/
theorem keepsRoot (stringLimit fuel : Nat) :
    (∀ depth state, KeepsRoot state (parseValue stringLimit fuel (depth + 1) state)) ∧
      (∀ depth state, KeepsRoot state (parseElements stringLimit fuel (depth + 1) state)) ∧
      ∀ isRoot depth names state,
        KeepsRoot state (parseMembers stringLimit fuel isRoot (depth + 1) names state) := by
  induction fuel with
  | zero =>
    refine ⟨?_, ?_, ?_⟩
    · intro depth state
      rw [parseValue]
      exact keepsRoot_error state _
    · intro depth state
      rw [parseElements]
      exact keepsRoot_error state _
    · intro isRoot depth names state
      rw [parseMembers]
      exact keepsRoot_error state _
  | succ fuel ih =>
    obtain ⟨values, elements, members⟩ := ih
    refine ⟨?_, ?_, ?_⟩
    · intro depth state
      rw [parseValue]
      split
      · exact keepsRoot_error state _
      · split
        · rw [noteRoot, if_neg (Nat.succ_ne_zero depth)]
          exact keepsRoot_openContainer (members _ (depth + 1) []) state
        split
        · exact keepsRoot_openContainer (elements (depth + 1)) state
        repeat' split
        all_goals first | exact keepsRoot_moved state _ | exact keepsRoot_error state _
    · intro depth state
      rw [parseElements]
      refine (keepsRoot_moved state _).bind fun charged => ?_
      exact (values depth charged).bind (keepsRoot_closeOrContinue (elements depth))
    · intro isRoot depth names state
      rw [parseMembers]
      refine (keepsRoot_moved state _).bind fun charged => ?_
      intro reached scanned
      obtain ⟨parsed, -, continued⟩ := bind_eq_ok.mp scanned
      split at continued
      · contradiction
      · rename_i name _
        have kept := keepsRoot_parseMemberValue (values depth) (members isRoot depth (name :: names))
          _ reached continued
        rw [kept, noteName_root]

/-- A frame is known to be an object exactly if it begins with a brace. -/
theorem parseValue_root {stringLimit fuel : Nat} (fresh : state.envelope.rootIsObject = false)
    (scanned : parseValue stringLimit fuel 0 state = .ok reached) :
    reached.envelope.rootIsObject = true ↔ state.cursor.rest.head? = some '\x7b' := by
  cases fuel with
  | zero =>
    rw [parseValue] at scanned
    contradiction
  | succ fuel =>
    obtain ⟨-, elements, members⟩ := keepsRoot stringLimit fuel
    rw [parseValue] at scanned
    split at scanned
    · contradiction
    · rename_i first text equal
      rw [equal, List.head?_cons, Option.some.injEq]
      by_cases brace : first = '\x7b'
      · rw [if_pos brace] at scanned
        have kept := keepsRoot_openContainer (members _ 0 []) _ reached scanned
        simp [kept, noteRoot, brace]
      · rw [if_neg brace] at scanned
        have kept : KeepsRoot state (.ok reached) := by
          rw [← scanned]
          split
          · exact keepsRoot_openContainer (elements 0) state
          · repeat' split
            all_goals first | exact keepsRoot_moved state _ | exact keepsRoot_error state _
        rw [kept reached rfl, fresh]
        simp [brace]

theorem admitFrame_eq_ok {input : String} {limit : Nat} {envelope : RawEnvelopeShape} :
    admitFrame input limit = .ok envelope ↔
      ∃ reached, parseValue limit
          (RawJsonScanner.fuelFor (Cursor.new (input.toList.dropWhile isWhitespace))) 0
          { new input with cursor := Cursor.new (input.toList.dropWhile isWhitespace) } =
            .ok reached ∧
        reached.duplicateObjectMember = false ∧ reached.cursor.skipWhitespace.rest = [] ∧
        reached.envelope = envelope := by
  unfold admitFrame
  rw [bind_eq_ok]
  refine exists_congr fun reached => and_congr Iff.rfl ?_
  split
  · rename_i ended
    cases reached.duplicateObjectMember <;> simp [ended]
  · rename_i more
    simp [more]

end JsonAdmission

open JsonAdmission in
/-- On a frame that is UTF-8 without a byte-order mark and within the size
limit, the codec's scanner finds an object exactly if the protocol's admission
of JSON-RPC documents accepts the frame. -/
theorem admitFrame_root_object_iff (frame : Bytes) (text : String) (maxMessageSize : Nat)
    (valid : fromUtf8 frame = some text) (unmarked : ¬[0xef, 0xbb, 0xbf] <:+: frame)
    (small : frame.length ≤ maxMessageSize) :
    (∃ envelope, admitFrame text maxMessageSize = .ok envelope ∧ envelope.rootIsObject = true) ↔
      admitRawJsonrpcDocument frame maxMessageSize = .ok () := by
  have noMark : containsByteOrderMark frame = false := by
    rw [← Bool.not_eq_true, containsByteOrderMark_eq_true]
    exact unmarked
  have simulated := (agrees maxMessageSize
    (RawJsonScanner.fuelFor (Cursor.new (text.toList.dropWhile isWhitespace)))).1 0 []
      { new text with cursor := Cursor.new (text.toList.dropWhile isWhitespace) }
  rw [admitRawJsonrpcDocument_eq_ok small noMark valid]
  simp only [admitFrame_eq_ok]
  constructor
  · rintro ⟨envelope, ⟨reached, scanned, clean, ended, rfl⟩, root⟩
    obtain ⟨-, protocolScanned⟩ := (simulated reached.cursor).mp ⟨reached, scanned, clean, rfl⟩
    exact ⟨(parseValue_root rfl scanned).mp root, reached.cursor, protocolScanned, ended⟩
  · rintro ⟨brace, next, protocolScanned, ended⟩
    obtain ⟨reached, scanned, clean, rfl⟩ := (simulated next).mpr ⟨rfl, protocolScanned⟩
    exact ⟨reached.envelope, ⟨reached, scanned, clean, ended, rfl⟩,
      (parseValue_root rfl scanned).mpr brace⟩

/-- A request frame that both scanners accept. -/
theorem admitFrame_root_object_request :
    ∃ envelope, JsonAdmission.admitFrame "\x7b\"id\":1,\"method\":\"ping\"\x7d" 64 =
      .ok envelope ∧ envelope.rootIsObject = true := by
  refine (admitFrame_root_object_iff (bytes "\x7b\"id\":1,\"method\":\"ping\"\x7d") _ 64
    (fromUtf8_bytes _) ?_ ?_).mpr ?_
  all_goals decide +kernel

end FastMcp.TransportCodec
