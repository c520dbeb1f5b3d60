import Redic.Server

/-! # Replies fit the buffer

The strings of a command are shorter than the buffer it was read into by more than the framing of
a reply. Every stored value is such a string or a printed integer, and replay stores nothing
else, so no reply reaches the end of the buffer.
-/
namespace Redic
open Command DecimalText EventRun FrameOutcome KeyStore RecordStream

/-- A string that a message in the buffer has room for. -/
def Storable (string : DataString) : Prop :=
  (RESPValue.bulkString string).wire.length + 3 ≤ 4096
  deriving Decidable

def mutationStrings : SepticTankMutation → List DataString
  | .set mutation => [mutation.key, mutation.value]
  | .del key => [key]
  | .expire mutation => [mutation.key]

theorem Storable.length_lt {string : DataString} (h : Storable string) :
    string.length < 2 ^ 64 := by
  simp only [Storable, RESPValue.wire, crlf, List.length_cons, List.length_append] at h
  omega

theorem storable_int64 (value : Int64) : Storable (dataStringFromInt64 value) := by
  have hlength := intText_length_le value
  have hdigits : (natText (dataStringFromInt64 value).length).length ≤ 2 :=
    natText_length_le (by decide) (Nat.lt_of_le_of_lt hlength (by decide))
  simp only [dataStringFromInt64] at hdigits ⊢
  simp only [Storable, RESPValue.wire, crlf, List.length_cons, List.length_append,
    List.length_nil]
  omega

theorem outcome_strings {operation : SepticTankOperation} {live : Option DataEntry}
    {ts : Timespec} {mutation : SepticTankMutation}
    (h : (outcome operation live ts).resolvedMutation = some mutation) :
    ∀ string ∈ mutationStrings mutation,
      string ∈ operationStrings operation ∨ ∃ value, string = dataStringFromInt64 value := by
  cases operation with
  | set op =>
    simp only [outcome, setOutcome] at h
    split at h
    · cases h
      exact fun string hmem => Or.inl hmem
    · cases h
  | del key =>
    simp only [outcome, delOutcome] at h
    split at h
    · cases h
      exact fun string hmem => Or.inl hmem
    · cases h
  | expire op =>
    simp only [outcome, expireOutcome] at h
    split at h
    · cases h
    · split at h
      · cases h
      · split at h <;>
        · cases h
          exact fun string hmem => Or.inl hmem
  | incrby op =>
    simp only [outcome, incrByOutcome] at h
    split at h
    · cases h
    · split at h
      · cases h
      · cases h
        intro string hmem
        rcases List.mem_cons.mp hmem with rfl | hmem
        · exact Or.inl List.mem_cons_self
        · exact Or.inr ⟨_, List.mem_singleton.mp hmem⟩
  | get key => cases h
  | ttl key => cases h
  | «exists» key => cases h

theorem outcome_resultString {operation : SepticTankOperation} {live : Option DataEntry}
    {ts : Timespec} {string : DataString}
    (h : resultString (outcome operation live ts).value = some string) :
    ∃ entry, live = some entry ∧ entry.value = string := by
  cases operation with
  | set op =>
    simp only [outcome, setOutcome, resultString] at h
    split at h
    · exact Option.map_eq_some_iff.mp h
    · cases h
  | get key => exact Option.map_eq_some_iff.mp h
  | expire op =>
    simp only [outcome, expireOutcome] at h
    split at h
    · cases h
    · split at h <;> cases h
  | incrby op =>
    simp only [outcome, incrByOutcome] at h
    split at h
    · cases h
    · split at h <;> cases h
  | _ => cases h

variable {S : Type} [KeyStore S]

/-- The strings of a resolved mutation come from the operation or were printed. -/
theorem resolvedMutation_storable {tank : SepticTank S} {operation : SepticTankOperation}
    {ts₁ ts₂ : Timespec} {mutation : SepticTankMutation}
    (hstrings : ∀ string ∈ operationStrings operation, Storable string)
    (h : (septicTankResolve tank operation ts₁ ts₂).2.resolvedMutation = some mutation) :
    ∀ string ∈ mutationStrings mutation, Storable string := by
  cases htests : operation.testsExpiry with
  | true =>
    rw [septicTankResolve_outcome tank htests] at h
    intro string hmem
    rcases outcome_strings h string hmem with hstring | ⟨value, rfl⟩
    · exact hstrings string hstring
    · exact storable_int64 value
  | false =>
    cases operation with
    | ttl key =>
      rw [septicTankResolve, septicTankTtl_resolvedMutation] at h
      cases h
    | _ => cases htests

section Round

variable {server : Server S} {clock : CommandClock} {buffer : ByteBuffer 4096} {bytes : SocketRead}

theorem holdsWords_of_handleClientSocket {server' : Server S} {reply : RESPValue}
    {write : SocketWrite} {written : ByteBuffer 4096}
    (h : Command.handleClientSocket server clock buffer bytes write =
      .ok (server', reply, written)) :
    ∃ stored command args, buffer.store 0 bytes.bytes = some stored ∧
      HoldsWords stored.bytes (command :: args) := by
  simp only [Command.handleClientSocket, bind_eq_ok] at h
  obtain ⟨stored, hstore, value, hvalue, ⟨_, _⟩, hcommand, -⟩ := h
  unfold Command.processCommand at hcommand
  split at hcommand
  · rename_i command args hwords
    refine ⟨stored, command, args, ?_, holdsWords_iff.mpr ⟨value, ?_, hwords⟩⟩
    · cases hbuffer : buffer.store 0 bytes.bytes with
      | none =>
        rw [hbuffer] at hstore
        cases hstore
      | some found =>
        rw [hbuffer] at hstore
        cases hstore
        rfl
    · cases hparse : parsedValue (respParseInput stored.bytes) with
      | none =>
        rw [hparse] at hvalue
        cases hvalue
      | some found =>
        rw [hparse] at hvalue
        cases hvalue
        rfl
  · cases hcommand

theorem write_returned {write : SocketWrite} {result : Server S × RESPValue × ByteBuffer 4096}
    (h : Command.handleClientSocket server clock buffer bytes write = .ok result) :
    write = .returned := by
  cases write with
  | returned => rfl
  | brokenPipe =>
    simp only [Command.handleClientSocket, bind_eq_ok] at h
    obtain ⟨_, -, _, -, _, -, _, -, _, hwrite, -⟩ := h
    cases hwrite

end Round

variable [ConservativeStore S]

def TankSized (tank : SepticTank S) : Prop :=
  ∀ entry ∈ ConservativeStore.entries tank.data, Storable entry.value

def LogSized (log : List SepticTankMutation) : Prop :=
  ∀ mutation ∈ log, ∀ string ∈ mutationStrings mutation, Storable string

structure LoggedTank.Sized (state : LoggedTank S) : Prop where
  tank : TankSized state.tank
  log : LogSized state.log

theorem TankSized.resolve {tank : SepticTank S} (h : TankSized tank)
    (operation : SepticTankOperation) (ts₁ ts₂ : Timespec) :
    TankSized (septicTankResolve tank operation ts₁ ts₂).1 := by
  rcases septicTankResolve_tank tank operation ts₁ ts₂ with heq | heq
  · rwa [heq]
  · rw [heq]
    intro entry hmem
    exact h entry (ConservativeStore.entries_remove tank.data _ hmem)

theorem TankSized.apply {tank : SepticTank S} (h : TankSized tank)
    {mutation : SepticTankMutation}
    (hstrings : ∀ string ∈ mutationStrings mutation, Storable string) :
    TankSized (septicTankApplyMutation tank mutation) := by
  intro entry hmem
  cases mutation with
  | set mutation =>
    rcases ConservativeStore.entries_put tank.data mutation.key _ hmem with rfl | hmem
    · exact hstrings mutation.value (by simp [mutationStrings])
    · exact h entry hmem
  | del key => exact h entry (ConservativeStore.entries_remove tank.data _ hmem)
  | expire mutation =>
    simp only [septicTankApplyMutation, septicTankApplyExpire] at hmem
    split at hmem
    · exact h entry hmem
    · rcases ConservativeStore.entries_modify tank.data mutation.key _ hmem with
        hmem | ⟨old, hold, rfl⟩
      · exact h entry hmem
      · exact h old hold

theorem LoggedTank.Sized.digest {state : LoggedTank S} (h : state.Sized) {input : DigestInput}
    (hstrings : ∀ string ∈ operationStrings input.operation, Storable string) :
    (state.step (.digest input)).Sized := by
  have hresolve := h.tank.resolve input.operation input.ts₁ input.ts₂
  simp only [LoggedTank.step, SepticTank.digest]
  rcases septicTankDigest_cases state.tank input.operation input.ts₁ input.ts₂ with
    ⟨mutation, hmutation, heq⟩ | ⟨-, heq⟩
  · have hmutation := resolvedMutation_storable hstrings hmutation
    rw [heq]
    refine ⟨hresolve.apply hmutation, ?_⟩
    intro logged hmem
    rcases List.mem_append.mp hmem with hmem | hmem
    · exact h.log logged hmem
    · split at hmem
      · rw [List.mem_singleton.mp hmem]
        exact hmutation
      · cases hmem
  · rw [heq]
    refine ⟨hresolve, ?_⟩
    intro logged hmem
    rw [Option.toList_none, List.append_nil] at hmem
    exact h.log logged hmem

theorem pottyTrainerTrain_sized {log : List SepticTankMutation} (hlog : LogSized log)
    {tank : SepticTank S} (h : TankSized tank) : TankSized (pottyTrainerTrain tank log) := by
  induction log generalizing tank with
  | nil => exact h
  | cons mutation log ih =>
    obtain ⟨hfirst, hrest⟩ := List.forall_mem_cons.mp hlog
    exact ih hrest (h.apply hfirst)

theorem serverBoot_sized {log : List SepticTankMutation} (hlog : LogSized log) :
    LoggedTank.Sized (⟨serverBoot log, log⟩ : LoggedTank S) := by
  refine ⟨?_, hlog⟩
  apply pottyTrainerTrain_sized hlog
  intro entry hmem
  have hempty : entry ∈ (∅ : Set DataEntry) := ConservativeStore.entries_new (S := S) ▸ hmem
  cases hempty

theorem bootRecords_take {log records : List SepticTankMutation} (hlog : LogSized log)
    {file : List UInt8} (hfile : file <+: serializedLog log)
    (h : bootRecords file = some records) : ∃ n, records = log.take n := by
  have hfits : ∀ mutation ∈ log, mutation.Fits := by
    intro mutation hmem
    have hsized := hlog mutation hmem
    cases mutation with
    | set mutation => exact ⟨(hsized _ (by simp [mutationStrings])).length_lt,
        (hsized _ (by simp [mutationStrings])).length_lt⟩
    | del key => exact (hsized _ (by simp [mutationStrings])).length_lt
    | expire mutation => exact (hsized _ (by simp [mutationStrings])).length_lt
  rw [serializedLog_eq] at hfile
  obtain ⟨n, -, -, -, hread⟩ := pottyCodec.readAll_prefix log hfits hfile
  have hall : readAll (pottyParserRead noReadError enoughMemory) (file.length + 1) file =
      (log.take n, _) :=
    hread (file.length + 1) (Nat.lt_succ_self _)
  refine ⟨n, ?_⟩
  rw [bootRecords, hall] at h
  split at h
  · rename_i heq
    cases h
    exact (congrArg Prod.fst heq).symm
  · cases h

theorem HoldsWords.storable {bytes : List UInt8} {words : List (List UInt8)}
    (h : HoldsWords bytes words) (hlength : bytes.length ≤ 4096) :
    ∀ word ∈ words, Storable word := by
  obtain ⟨-, length, hframe⟩ := h
  intro word hmem
  have hword := hframe.array_string_length rfl (by omega) (List.mem_map_of_mem hmem)
  have hwithin : length ≤ bytes.length := hframe.within.2
  unfold Storable
  omega

theorem feed_resultString_storable {server : Server S} (h : server.tank.Sized)
    {operation : SepticTankOperation} {clock : CommandClock} {string : DataString}
    (hstring : resultString (septicTankFeed server operation clock).2.value = some string) :
    Storable string := by
  cases htests : operation.testsExpiry with
  | true =>
    rw [feed_result server clock operation htests] at hstring
    obtain ⟨entry, hlive, rfl⟩ := outcome_resultString hstring
    exact h.tank entry (ConservativeStore.mem_of_get (visible_eq_some.mp hlive).1)
  | false =>
    cases operation with
    | ttl key =>
      obtain ⟨ttl, hresult⟩ := feed_ttl server clock key
      rw [hresult] at hstring
      cases hstring
    | _ => cases htests

theorem serves_sized {server server' : Server S} {clock : CommandClock}
    {args : List (List UInt8)} {reply : RESPValue} (h : server.tank.Sized)
    (hargs : ∀ arg ∈ args, Storable arg) (hserves : Serves server clock args server' reply) :
    server'.tank.Sized ∧ reply.wire.length + 1 ≤ 4096 := by
  have hall : ∀ string ∈ [] :: args, Storable string :=
    List.forall_mem_cons.mpr ⟨by decide +kernel, hargs⟩
  have hstring : ∀ {string : DataString}, Storable string →
      (RESPValue.bulkString string).wire.length + 1 ≤ 4096 :=
    fun hstring => Nat.le_trans (Nat.add_le_add_left (by decide) _) hstring
  have hshort : ∀ {reply : RESPValue}, Short reply → reply.wire.length + 1 ≤ 4096 :=
    fun hshort => Nat.le_trans (Nat.succ_le_succ hshort) (by decide)
  cases hserves with
  | quiet hquiet => exact ⟨h, hshort hquiet⟩
  | echo hmem => exact ⟨h, hstring (hall _ hmem)⟩
  | feeds hstrings hreply =>
    refine ⟨h.digest fun string hmem => hall string (hstrings string hmem), ?_⟩
    rcases hreply with hquiet | ⟨string, rfl, hresult⟩
    · exact hshort hquiet
    · exact hstring (feed_resultString_storable h hresult)

theorem handleClientSocket_of_holdsWords {server : Server S} (h : server.tank.Sized)
    (clock : CommandClock) {buffer stored : ByteBuffer 4096} {bytes : SocketRead}
    (hstore : buffer.store 0 bytes.bytes = some stored) {command : List UInt8}
    {args : List (List UInt8)} (hwords : HoldsWords stored.bytes (command :: args)) :
    ∃ server' reply written,
      processCommandHelper server clock command args = .ok (server', reply) ∧
      respSerializeValue stored reply = some (written, reply.wire.length) ∧
      Command.handleClientSocket server clock buffer bytes .returned =
        .ok (server', reply, written) ∧
      server'.tank.Sized := by
  obtain ⟨server', reply, hreply, hserves⟩ := processCommandHelper_serves server clock command args
  have hargs : ∀ arg ∈ args, Storable arg := by
    intro arg hmem
    exact hwords.storable stored.length_bytes.le arg (List.mem_cons_of_mem _ hmem)
  obtain ⟨hsized, hfits⟩ := serves_sized h hargs hserves
  obtain ⟨value, hvalue, hparsed⟩ := holdsWords_iff.mp hwords
  have hsome : (respSerializeValue stored reply).isSome = true :=
    (respSerializeValue_isSome stored reply).mpr hfits
  obtain ⟨⟨written, length⟩, hwritten⟩ := Option.isSome_iff_exists.mp hsome
  have hlength : length = reply.wire.length := by
    rw [respSerializeValue_eq] at hwritten
    obtain ⟨_, -, heq⟩ := Option.bind_eq_some_iff.mp hwritten
    cases heq
    rfl
  subst hlength
  refine ⟨server', reply, written, hreply, hwritten, ?_, hsized⟩
  simp only [Command.handleClientSocket, hstore, hvalue, Command.processCommand, hparsed, hreply,
    inMemory, hwritten, socketWrite, bind, Except.bind]

/-- In every state that a server reaches, the tank and the log are storable. -/
theorem RedicState.step_sized {state state' : RedicState S} {event : RedicEvent}
    (h : state.server.tank.Sized) (hstep : state.step event = some state') :
    state'.server.tank.Sized := by
  cases event with
  | connect client buffer =>
    cases hstep
    exact h
  | close client =>
    cases hstep
    exact h
  | read client bytes clock write =>
    simp only [RedicState.step] at hstep
    split at hstep
    · cases hstep
    · rename_i server reply buffer hround
      cases hstep
      obtain ⟨stored, command, args, hstore, hwords⟩ := holdsWords_of_handleClientSocket hround
      obtain ⟨server', reply', written, -, -, heq, hsized⟩ :=
        handleClientSocket_of_holdsWords h clock hstore hwords
      obtain rfl := write_returned hround
      cases hround.symm.trans heq
      exact hsized
  | restart file =>
    simp only [RedicState.step] at hstep
    split at hstep
    · rename_i hfile
      obtain ⟨records, hrecords, rfl⟩ := Option.map_eq_some_iff.mp hstep
      obtain ⟨n, rfl⟩ := bootRecords_take h.log hfile hrecords
      apply serverBoot_sized
      intro mutation hmem
      exact h.log mutation (List.mem_of_mem_take hmem)
    · cases hstep

theorem RedicState.run_sized {maybeMaster : Bool} {buffers : ℕ → ByteBuffer 4096}
    {events : List RedicEvent} {state : RedicState S}
    (h : run RedicState.step (RedicState.start maybeMaster buffers) events = some state) :
    state.server.tank.Sized := by
  have hinit : (RedicState.start maybeMaster buffers : RedicState S).server.tank.Sized := by
    refine ⟨?_, fun mutation hmem => absurd hmem List.not_mem_nil⟩
    intro entry hmem
    have hempty : entry ∈ (∅ : Set DataEntry) := ConservativeStore.entries_new (S := S) ▸ hmem
    cases hempty
  refine @run_preserves _ _ _ _ _ _ (fun state : RedicState S => state.server.tank.Sized) hinit ?_ h
  intro state event state' hsized hstep
  exact RedicState.step_sized hsized hstep

/-- `*3 $3 SET $1 k $2 hi`. -/
def readSetHi : SocketRead :=
  ⟨[42, 51, 13, 10, 36, 51, 13, 10, 83, 69, 84, 13, 10, 36, 49, 13, 10, 107, 13, 10, 36, 50, 13,
    10, 104, 105, 13, 10], by decide, by decide⟩

/-- `*2 $3 GET $1 k`. -/
def readGetHi : SocketRead :=
  ⟨[42, 50, 13, 10, 36, 51, 13, 10, 71, 69, 84, 13, 10, 36, 49, 13, 10, 107, 13, 10],
    by decide, by decide⟩

end Redic
