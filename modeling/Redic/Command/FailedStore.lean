import Redic.Command.Handlers
import Redic.Hashmap.Denied
import Redic.Hashmap.Store
import Redic.SepticTank.SetExpiry

/-! # A SET for which there is no memory

The tank ignores the status of `hashmap_put`, so a failed put is answered and logged like any
other. The reply and the log are right when the largest table that is granted has room for the
stored keys and the new one, or for the stored keys while nobody is told that the new one was set.
-/
namespace Redic.Command
open KeyStore Hashmap HashmapMap

def setReply (get : Bool) (result : SepticTankResult) : Except ServerStop RESPValue :=
  if !result.success then .ok (failureReply result)
  else if get then do
    let oldValue ← setOldValue result.value
    match oldValue with
    | some string => pure (.bulkString string)
    | none => pure .null
  else if result.resolvedMutation.isSome then .ok (createSimpleString "OK")
  else .ok .null

theorem processSet_eq {S : Type} [KeyStore S] (server : Server S) (clock : CommandClock)
    (args : List CommandArg) : processSet server clock args =
      (setOperation args clock.now).bind fun operation =>
        let fed := septicTankFeed server (.set operation) clock
        (setReply operation.get fed.2).map fun reply => (fed.1, reply) := by
  unfold processSet setReply
  cases setOperation args clock.now with
  | error stop => rfl
  | ok operation =>
    simp only [Except.bind, bind, pure, Except.pure, Except.map]
    generalize septicTankFeed server (.set operation) clock = fed
    obtain ⟨server, result⟩ := fed
    dsimp only
    cases result.success with
    | false => rfl
    | true =>
      cases operation.get with
      | false => cases result.resolvedMutation.isSome <;> rfl
      | true =>
        simp only [Bool.not_true, Bool.false_eq_true, if_false, if_true]
        cases setOldValue result.value with
        | error stop => rfl
        | ok oldValue => cases oldValue <;> rfl

/-- The client is answered OK: the operation is that of a SET, and its handler says so. -/
def AnsweredOk : SepticTankOperation → SepticTankResult → Prop
  | .set operation, result => setReply operation.get result = .ok (createSimpleString "OK")
  | _, _ => False

theorem answeredOk_iff_processSet {S : Type} [KeyStore S] {server : Server S}
    {clock : CommandClock} {args : List CommandArg} {operation : SepticTankSetOperation}
    (hoperation : setOperation args clock.now = .ok operation) :
    AnsweredOk (.set operation) (septicTankFeed server (.set operation) clock).2 ↔
      ∃ server', processSet server clock args = .ok (server', createSimpleString "OK") := by
  rw [processSet_eq, hoperation]
  simp only [AnsweredOk, Except.bind]
  cases setReply operation.get (septicTankFeed server (.set operation) clock).2 with
  | error stop => simp [Except.map]
  | ok reply => simp [Except.map]

/-- A SET that does not ask for the old value. -/
def PlainSet : SepticTankOperation → Prop
  | .set operation => operation.get = false
  | _ => False

def setEntry (mutation : SepticTankSetMutation) : DataEntry :=
  dataCreateStringEntry (decodeDeadline mutation.expiresAt) mutation.value

theorem answeredOk_iff {operation : SepticTankOperation} {result : SepticTankResult}
    (hsuccess : result.success = true) (hmutation : result.resolvedMutation.isSome = true) :
    AnsweredOk operation result ↔ PlainSet operation := by
  cases operation with
  | set operation =>
    simp only [AnsweredOk, PlainSet, setReply, hsuccess, hmutation, Bool.not_true,
      Bool.false_eq_true, if_false, if_true]
    cases operation.get with
    | false => simp
    | true =>
      cases setOldValue result.value with
      | error stop => simp [bind, Except.bind]
      | ok oldValue =>
        cases oldValue <;> simp [bind, Except.bind, pure, Except.pure, createSimpleString]
  | _ => rfl

variable {grants : ℕ → Bool}

/-- What is asked of an operation that comes to store a value: a put without memory loses no entry
and is neither answered OK nor logged; and what is answered OK is found by a GET right after it,
unless its deadline has passed. -/
structure StoresSafely (tank : SepticTank (ScarceStore grants)) (input : DigestInput)
    (mutation : SepticTankSetMutation) : Prop where
  failure : ∀ fuel m', hashmapPut hashmapKeyHash (scarceCalloc grants) fuel
      (tank.resolve input).1.data.map mutation.key (setEntry mutation) = some (m', .omem) →
    (∀ key entry, hashmapGet (tank.resolve input).1.data key = some entry →
      hashmapGet (tank.digest input).1.data key = some entry) ∧
    ¬ AnsweredOk input.operation (tank.digest input).2.1 ∧ (tank.digest input).2.2 = none
  success : AnsweredOk input.operation (tank.digest input).2.1 →
    ∀ ts, dataIsExpired (setEntry mutation) ts = false →
      (septicTankGet (tank.digest input).1 mutation.key ts).2 =
        ⟨.get, .getResult (some mutation.value), none, true, none⟩

section Digest

variable {tank : SepticTank (ScarceStore grants)} {input : DigestInput}
  {mutation : SepticTankSetMutation}

theorem resolve_wellFormed (hm : tank.data.map.WellFormed hashmapKeyHash) :
    (tank.resolve input).1.data.map.WellFormed hashmapKeyHash := by
  rcases septicTankResolve_tank tank input.operation input.ts₁ input.ts₂ with hsame | hevict
  · rwa [SepticTank.resolve, hsame]
  · rw [SepticTank.resolve, hevict]
    exact (hm.remove input.operation.key).1

/-- The table behind the digest is the one that the put leaves, whatever it reports. -/
theorem digest_map (hset : (tank.resolve input).2.resolvedMutation = some (.set mutation)) :
    ∃ status, hashmapPut hashmapKeyHash (scarceCalloc grants) 23
      (tank.resolve input).1.data.map mutation.key (setEntry mutation) =
        some ((tank.digest input).1.data.map, status) := by
  rw [SepticTank.digest_tank, hset]
  exact ScarceStore.put_map (tank.resolve input).1.data mutation.key (setEntry mutation)

theorem digest_answeredOk_iff
    (hset : (tank.resolve input).2.resolvedMutation = some (.set mutation)) :
    AnsweredOk input.operation (tank.digest input).2.1 ↔ PlainSet input.operation := by
  rw [SepticTank.digest_result]
  refine answeredOk_iff ?_ (by rw [hset]; rfl)
  exact septicTankResolve_success tank input.operation input.ts₁ input.ts₂ hset

theorem digest_logs (hset : (tank.resolve input).2.resolvedMutation = some (.set mutation)) :
    (tank.digest input).2.2 = none ↔ tank.aofEnabled = false := by
  rcases septicTankDigest_cases tank input.operation input.ts₁ input.ts₂ with
    ⟨logged, hlogged, hdigest⟩ | ⟨hnone, -⟩
  · rw [SepticTank.digest, hdigest]
    cases tank.aofEnabled <;> simp
  · rw [SepticTank.resolve, hnone] at hset
    cases hset

end Digest

/-- The largest table that is granted has a place for each stored key and the new one; or for each
stored key, and nobody is told that the new one was stored. -/
def StoreFits (tank : SepticTank (ScarceStore grants)) (input : DigestInput) (key : DataString) :
    Prop :=
  let m := (tank.resolve input).1.data.map
  let largest := largestTable (scarceCalloc grants) m.tableSize
  Fits hashmapKeyHash largest m key ∨
    (MovesFit hashmapKeyHash largest m ∧ ¬ PlainSet input.operation ∧ tank.aofEnabled = false)

/-- A value that fits is stored safely, and while the largest table that is granted has room for the
stored keys no other value is. -/
theorem digest_storesSafely (tank : SepticTank (ScarceStore grants)) (input : DigestInput)
    (mutation : SepticTankSetMutation) (hm : tank.data.map.WellFormed hashmapKeyHash)
    (hset : (tank.resolve input).2.resolvedMutation = some (.set mutation)) :
    let m := (tank.resolve input).1.data.map
    (StoreFits tank input mutation.key → StoresSafely tank input mutation) ∧
      (MovesFit hashmapKeyHash (largestTable (scarceCalloc grants) m.tableSize) m →
        (StoresSafely tank input mutation ↔ StoreFits tank input mutation.key)) := by
  intro m
  have hresolved : m.WellFormed hashmapKeyHash := resolve_wellFormed hm
  obtain ⟨status, hput⟩ := digest_map hset
  obtain ⟨hup, level, hlevel⟩ := levelOf_largestTable (scarceCalloc_denied grants)
    (tank.resolve input).1.data.within
  have hsafe : StoreFits tank input mutation.key → StoresSafely tank input mutation := by
    rintro (hfits | ⟨hmoves, hplain, haof⟩)
    · obtain ⟨fuel, m', hstored⟩ := put_of_fits hup hlevel hfits (setEntry mutation)
      cases hashmapPut_unique hput hstored
      constructor
      · intro fuel m' homem
        cases hashmapPut_unique hput homem
      · intro _ ts hlive
        have hget : hashmapGet (tank.digest input).1.data mutation.key = some (setEntry mutation) :=
          get_of_put hresolved hput
        simp only [septicTankGet, hget, hlive]
        rfl
    · constructor
      · intro fuel m' homem
        cases hashmapPut_unique hput homem
        obtain ⟨hafter, hperm⟩ := put_omem_keeps hup hlevel hresolved hmoves hput
        refine ⟨?_, ?_, (digest_logs hset).mpr haof⟩
        · intro key entry hget
          have hmem := hresolved.get_eq_some.mp hget
          exact hafter.get_eq_some.mpr (hperm.mem_iff.mpr hmem)
        · rwa [digest_answeredOk_iff hset]
      · intro hanswer
        rw [digest_answeredOk_iff hset] at hanswer
        exact absurd hanswer hplain
  refine ⟨hsafe, ?_⟩
  intro hmoves
  refine ⟨?_, hsafe⟩
  intro h
  by_cases hfits : Fits hashmapKeyHash (largestTable (scarceCalloc grants) m.tableSize) m mutation.key
  · exact Or.inl hfits
  · rcases hashmapPut_status 23 hput with rfl | ⟨rfl, -⟩
    · exact absurd hput (put_of_not_fits hup hlevel hmoves hfits)
    · obtain ⟨-, hanswer, hlog⟩ := h.failure 23 _ hput
      rw [digest_answeredOk_iff hset] at hanswer
      exact Or.inr ⟨hmoves, hanswer, (digest_logs hset).mp hlog⟩

section Crowd

def crowdEntry : DataEntry := dataCreateStringEntry none [118]

/-- The next key with the home of the crowd. -/
def nextKey : DataString := [104, 116, 121]

def nextSet (get : Bool) : SepticTankSetOperation :=
  ⟨nextKey, [118], false, false, get, ⟨.noExpire, 0⟩⟩

def nextInput (get : Bool) (now : Timespec) : DigestInput := setInput (nextSet get) now

def nextMutation : SepticTankSetMutation := ⟨nextKey, [118], stMutationNoExpiry⟩

/-- The table of the crowd: the window of the next key is full. -/
structure Crowded (m : HashmapMap DataEntry) : Prop where
  grown : Grown hashmapKeyHash m
  within : Within initialSize maxTableSize 22 m
  tableSize : m.tableSize = 256
  keys : m.keys = crowd.toFinset
  full : Hashmap.hashmapHash hashmapKeyHash m nextKey = none
  absent : Hashmap.hashmapGet hashmapKeyHash m nextKey = none

theorem run_crowd {m : HashmapMap DataEntry} (h : EventRun.run (storeElement hashmapKeyHash)
    hashmapNew (crowd.map fun key => ⟨key, crowdEntry⟩) = some m) : Crowded m := by
  have hrun : (EventRun.run (storeElement hashmapKeyHash) hashmapNew
      (crowd.map fun key => ⟨key, crowdEntry⟩)).map (fun m => (m.tableSize,
        decide (m.keys = crowd.toFinset), Hashmap.hashmapHash hashmapKeyHash m nextKey,
        Hashmap.hashmapGet hashmapKeyHash m nextKey)) = some (256, true, none, none) := by
    decide +kernel
  rw [h, Option.map_some, Option.some.injEq] at hrun
  simp only [Prod.mk.injEq, decide_eq_true_eq] at hrun
  obtain ⟨hsize, hkeys, hfull, habsent⟩ := hrun
  exact ⟨run_storeElement h, (reachable_stored h).within, hsize, hkeys, hfull, habsent⟩

theorem Crowded.resolve {m : HashmapMap DataEntry} (h : Crowded m) (grants : ℕ → Bool)
    (aofEnabled get : Bool) (now : Timespec) :
    let tank : SepticTank (ScarceStore grants) := ⟨⟨m, h.within⟩, aofEnabled⟩
    tank.resolve (nextInput get now) =
      (tank, ⟨.set, .setResult none, some (.set nextMutation), true, none⟩) := by
  intro tank
  have habsent : KeyStore.hashmapGet tank.data nextKey = none := h.absent
  cases get <;>
    simp only [SepticTank.resolve, nextInput, nextSet, setInput, septicTankResolve,
      septicTankResolveSet, habsent] <;> rfl

theorem crowd_isSome : (EventRun.run (storeElement hashmapKeyHash) Hashmap.hashmapNew
    (crowd.map fun key => ⟨key, crowdEntry⟩)).isSome = true := by
  decide +kernel

theorem crowd_fits {largest : ℕ} (hsize : 256 < largest) (hlargest : 9 < largest / 2)
    (hfew : ∀ key ∈ insert nextKey crowd.toFinset, ∀ extra < 9,
      (around hashmapKeyHash largest crowd.toFinset key extra).card < extra + maxChainLength)
    {m : HashmapMap DataEntry} (h : Crowded m) : Fits hashmapKeyHash largest m nextKey := by
  have hcard : crowd.toFinset.card = 9 := by decide
  refine Or.inr ⟨by rw [h.tableSize]; exact hsize, by rw [h.keys, hcard]; exact hlargest, ?_, ?_⟩
  · rw [h.keys]
    intro key hkey
    exact not_blocked (hcard.symm ▸ hfew key (Finset.mem_insert_of_mem hkey))
  · rw [h.keys]
    exact not_blocked (hcard.symm ▸ hfew nextKey (Finset.mem_insert_self _ _))

/-- With 1024 slots granted and 2048 denied the table is doubled twice and the key is stored. When
the first request is denied the put fails: a SET that asks for the old value in a tank that does not
log is answered rightly, a plain one in a tank that logs is not. -/
theorem digest_storesSafely_crowd : ∃ (m : HashmapMap DataEntry) (h : Crowded m),
    let now := Timespec.atSecond 1 (by decide) (by decide)
    let roomy : SepticTank (ScarceStore fun slots => decide (slots ≤ 1024)) := ⟨⟨m, h.within⟩, true⟩
    let quiet : SepticTank (ScarceStore fun slots => decide (slots ≤ 256)) := ⟨⟨m, h.within⟩, false⟩
    let logging : SepticTank (ScarceStore fun slots => decide (slots ≤ 256)) := ⟨⟨m, h.within⟩, true⟩
    StoresSafely roomy (nextInput false now) nextMutation ∧
      hashmapPut hashmapKeyHash (scarceCalloc fun slots => decide (slots ≤ 256)) 23 m nextKey
        crowdEntry = some (m, .omem) ∧
      StoresSafely quiet (nextInput true now) nextMutation ∧
      ¬ StoresSafely logging (nextInput false now) nextMutation := by
  obtain ⟨m, hrun⟩ := Option.isSome_iff_exists.mp crowd_isSome
  have h := run_crowd hrun
  refine ⟨m, h, ?_⟩
  intro now roomy quiet logging
  have hroomy : roomy.resolve (nextInput false now) =
      (roomy, ⟨.set, .setResult none, some (.set nextMutation), true, none⟩) := h.resolve _ _ _ _
  have hquiet : quiet.resolve (nextInput true now) =
      (quiet, ⟨.set, .setResult none, some (.set nextMutation), true, none⟩) := h.resolve _ _ _ _
  have hlogging : logging.resolve (nextInput false now) =
      (logging, ⟨.set, .setResult none, some (.set nextMutation), true, none⟩) := h.resolve _ _ _ _
  have hlargest : largestTable (scarceCalloc fun slots => decide (slots ≤ 1024)) 256 = 1024 := by
    decide
  have hsmallest : largestTable (scarceCalloc fun slots => decide (slots ≤ 256)) 256 = 256 := by
    decide
  have hmoves : MovesFit hashmapKeyHash
      (largestTable (scarceCalloc fun slots => decide (slots ≤ 256)) m.tableSize) m := by
    rw [h.tableSize, hsmallest]
    exact Or.inl h.tableSize
  have hdenied : scarceCalloc (fun slots => decide (slots ≤ 256)) (2 * m.tableSize) = false := by
    rw [h.tableSize]
    decide
  refine ⟨?_, ?_, ?_, ?_⟩
  · refine (digest_storesSafely roomy (nextInput false now) nextMutation h.grown.wellFormed
      (by rw [hroomy])).1 (Or.inl ?_)
    rw [hroomy]
    change Fits hashmapKeyHash (largestTable _ m.tableSize) m nextKey
    rw [h.tableSize, hlargest]
    exact crowd_fits (by decide) (by decide) (by decide +kernel) h
  · exact hashmapPut_mono (Nat.le_add_left 1 22) (put_of_largest hdenied h.full)
  · refine (digest_storesSafely quiet (nextInput true now) nextMutation h.grown.wellFormed
      (by rw [hquiet])).1 (Or.inr ?_)
    rw [hquiet]
    refine ⟨hmoves, ?_, rfl⟩
    rintro ⟨⟩
  · have hset : (logging.resolve (nextInput false now)).2.resolvedMutation =
        some (.set nextMutation) :=
      by rw [hlogging]
    have hexact := (digest_storesSafely logging (nextInput false now) nextMutation h.grown.wellFormed
      hset).2
    rw [hlogging] at hexact
    rw [hexact hmoves]
    rintro (hfits | ⟨-, hplain, -⟩)
    · rw [hlogging] at hfits
      change Fits hashmapKeyHash (largestTable _ m.tableSize) m nextKey at hfits
      rw [h.tableSize, hsmallest] at hfits
      rcases hfits with hfound | ⟨hlt, -⟩
      · exact hfound h.full
      · rw [h.tableSize] at hlt
        exact absurd hlt (by decide)
    · exact hplain rfl

/-- When 512 slots are granted and 1024 are denied, the key from the first slot is moved before the
others and takes a slot of theirs, and the last of them finds no place: it is lost, the new key is
not there, and the client is answered OK. -/
theorem storesSafely_loses : ∃ (tank : SepticTank (ScarceStore fun slots => decide (slots ≤ 512)))
    (input : DigestInput) (mutation : SepticTankSetMutation),
    tank.data.map.WellFormed hashmapKeyHash ∧
      (tank.resolve input).2.resolvedMutation = some (.set mutation) ∧
      AnsweredOk input.operation (tank.digest input).2.1 ∧
      hashmapGet tank.data [103, 104, 113] = some crowdEntry ∧
      hashmapGet (tank.digest input).1.data [103, 104, 113] = none ∧
      hashmapGet (tank.digest input).1.data mutation.key = none ∧
      ¬ StoresSafely tank input mutation := by
  let calloc := scarceCalloc fun slots => decide (slots ≤ 512)
  have hrun : (EventRun.run (storeElement hashmapKeyHash) Hashmap.hashmapNew
      (crowd.map fun key => ⟨key, crowdEntry⟩)).bind (fun m =>
        (hashmapPut hashmapKeyHash calloc 23 m nextKey crowdEntry).map fun result =>
          (Hashmap.hashmapGet hashmapKeyHash m [103, 104, 113],
            Hashmap.hashmapGet hashmapKeyHash result.1 [103, 104, 113],
            Hashmap.hashmapGet hashmapKeyHash result.1 nextKey, result.2)) =
      some (some crowdEntry, none, none, .omem) := by
    decide +kernel
  obtain ⟨m, hm, hresult⟩ := Option.bind_eq_some_iff.mp hrun
  obtain ⟨⟨m', status⟩, hput, heq⟩ := Option.map_eq_some_iff.mp hresult
  simp only [Prod.mk.injEq] at heq
  obtain ⟨hold, hlost, hmissing, rfl⟩ := heq
  have h := run_crowd hm
  let tank : SepticTank (ScarceStore fun slots => decide (slots ≤ 512)) := ⟨⟨m, h.within⟩, true⟩
  let now := Timespec.atSecond 1 (by decide) (by decide)
  have hresolve : tank.resolve (nextInput false now) =
      (tank, ⟨.set, .setResult none, some (.set nextMutation), true, none⟩) := h.resolve _ _ _ _
  have hset : (tank.resolve (nextInput false now)).2.resolvedMutation = some (.set nextMutation) := by
    rw [hresolve]
  obtain ⟨status, hdigest⟩ := digest_map hset
  rw [hresolve] at hdigest
  obtain ⟨hmap, -⟩ := Prod.mk.inj (Option.some.inj (hdigest.symm.trans hput))
  have hanswer : AnsweredOk (nextInput false now).operation (tank.digest (nextInput false now)).2.1 :=
    (digest_answeredOk_iff hset).mpr rfl
  refine ⟨tank, nextInput false now, nextMutation, h.grown.wellFormed, hset, hanswer, hold,
    ?_, ?_, ?_⟩
  · change Hashmap.hashmapGet hashmapKeyHash (tank.digest (nextInput false now)).1.data.map _ = none
    rw [hmap]
    exact hlost
  · change Hashmap.hashmapGet hashmapKeyHash (tank.digest (nextInput false now)).1.data.map _ = none
    rw [hmap]
    exact hmissing
  · intro hsafe
    refine (hsafe.failure 23 m' ?_).2.1 hanswer
    rw [hresolve]
    exact hput

end Crowd

end Redic.Command
