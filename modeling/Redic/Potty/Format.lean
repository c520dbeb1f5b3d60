import Redic.Foundation.RecordFormat
import Redic.Potty.Parser

/-! # What the parser accepts

The parser returns only mutations whose record is in the file, and it reports an unexpected end
only inside something that could still have become a record. A length field for whose string the
arena has no block ends the process, whatever follows. So any file, whatever wrote it, is whole
records and a tail, in one way, and the reason to stop says what the tail is.
-/
namespace Redic
open HostWord RecordStream

theorem fread_recognizes (count : ℕ) : Recognizes .unexpectedEof (fread noReadError count true)
    fun bytes encoded => bytes = encoded ∧ encoded.length = count where
  sound stream bytes rest h := by
    by_cases hcount : count ≤ stream.length
    · rw [fread_of_le hcount] at h
      cases h
      exact ⟨_, ⟨rfl, List.length_take_of_le hcount⟩, (List.take_append_drop count stream).symm⟩
    · rw [fread_of_lt (Nat.not_le.mp hcount)] at h
      cases h
  stops stream stop h := by
    by_cases hcount : count ≤ stream.length
    · rw [fread_of_le hcount] at h
      cases h
    · rw [fread_of_lt (Nat.not_le.mp hcount)] at h
      cases h
      have hmissing : 0 < count - stream.length := by omega
      refine ⟨rfl, _, stream ++ List.replicate (count - stream.length) 0, ⟨rfl, ?_⟩, ?_, ?_⟩
      · rw [List.length_append, List.length_replicate]
        omega
      · exact List.prefix_append _ _
      · intro heq
        have hlen := congrArg List.length heq
        rw [List.length_append, List.length_replicate] at hlen
        omega

theorem int64Bytes_word {bytes : List UInt8} (h : bytes.length = 8) :
    int64Bytes (UInt64.ofNat (bytesWord bytes)).toInt64 = bytes := by
  have hlt := bytesWord_lt bytes
  rw [h] at hlt
  rw [int64Bytes, UInt64.toUInt64_toInt64, UInt64.toNat_ofNat_of_lt' hlt, ← h, wordBytes_bytesWord]

theorem freadInt64_recognizes : Recognizes .unexpectedEof (freadInt64 noReadError true)
    fun value encoded => encoded = int64Bytes value := by
  refine ((fread_recognizes 8).map _).mono ?_
  rintro value encoded ⟨bytes, rfl, rfl, hlen⟩
  exact (int64Bytes_word hlen).symm

theorem freadString_recognizes : Recognizes .unexpectedEof
    (freadString noReadError enoughMemory true)
    fun str encoded => str.length < 2 ^ 64 ∧ encoded = stringBytes str := by
  have hcontents : ∀ bytes : List UInt8, Recognizes .unexpectedEof
      ((allocString enoughMemory (bytesWord bytes)).andThen fun _ =>
        if 0 < bytesWord bytes then fread noReadError (bytesWord bytes) true else Reader.pure [])
      fun str encoded => str = encoded ∧ str.length = bytesWord bytes := by
    intro bytes
    change Recognizes _ (if 0 < bytesWord bytes then _ else _) _
    split
    · refine (fread_recognizes _).mono ?_
      rintro str encoded ⟨rfl, hlen⟩
      exact ⟨rfl, hlen⟩
    · rename_i hzero
      refine (recognizes_pure []).mono ?_
      rintro str encoded ⟨rfl, rfl⟩
      exact ⟨rfl, by simp; omega⟩
  have hsome : ∀ bytes : List UInt8, ∃ str encoded : List UInt8,
      str = encoded ∧ str.length = bytesWord bytes :=
    fun bytes => ⟨List.replicate (bytesWord bytes) 0, _, rfl, List.length_replicate⟩
  refine ((fread_recognizes 8).andThen hcontents hsome).mono ?_
  rintro str encoded ⟨bytes, front, back, ⟨rfl, hlen⟩, ⟨rfl, hback⟩, rfl⟩
  have hlt := bytesWord_lt bytes
  rw [hlen] at hlt
  refine ⟨by rw [hback]; exact hlt, ?_⟩
  rw [stringBytes, hback, ← hlen, wordBytes_bytesWord]

def FieldsOf (type : UInt8) (mutation : SepticTankMutation) (encoded : List UInt8) : Prop :=
  mutation.type.tag = type ∧ mutation.Fits ∧ encoded = mutationFields mutation

theorem freadFields_recognizes {type : UInt8}
    (h : ∃ mutation : SepticTankMutation, mutation.type.tag = type) :
    Recognizes .unexpectedEof (freadFields noReadError enoughMemory type) (FieldsOf type) := by
  have hstring : ∃ str encoded, str.length < 2 ^ 64 ∧ encoded = stringBytes str :=
    ⟨[], _, by simp, rfl⟩
  have hint : ∃ value encoded, encoded = int64Bytes value := ⟨0, _, rfl⟩
  obtain ⟨kind, rfl⟩ := h
  cases kind with
  | set kind =>
    have hvalue := fun expiresAt key => freadString_recognizes.map
      fun value => SepticTankMutation.set ⟨key, value, expiresAt⟩
    have hkey := fun expiresAt => freadString_recognizes.andThen (hvalue expiresAt) fun key =>
      ⟨_, _, [], rfl, by simp, rfl⟩
    have hset := freadInt64_recognizes.andThen hkey fun expiresAt =>
      ⟨_, _, [], _, _, ⟨by simp, rfl⟩, ⟨[], rfl, by simp, rfl⟩, rfl⟩
    refine hset.mono ?_
    rintro _ _ ⟨expiresAt, _, _, rfl, ⟨key, _, _, ⟨hfits, rfl⟩, ⟨value, rfl, hfits', rfl⟩, rfl⟩, rfl⟩
    exact ⟨rfl, ⟨hfits, hfits'⟩, rfl⟩
  | del kind =>
    refine (freadString_recognizes.map SepticTankMutation.del).mono ?_
    rintro _ _ ⟨key, rfl, hfits, rfl⟩
    exact ⟨rfl, hfits, rfl⟩
  | expire kind =>
    have hexpires := fun key => freadInt64_recognizes.map
      fun expiresAt => SepticTankMutation.expire ⟨key, expiresAt⟩
    refine (freadString_recognizes.andThen hexpires fun key => ⟨_, _, 0, rfl, rfl⟩).mono ?_
    rintro _ _ ⟨key, _, _, ⟨hfits, rfl⟩, ⟨expiresAt, rfl, rfl⟩, rfl⟩
    exact ⟨rfl, hfits, rfl⟩

theorem freadFields_unreachable {arenaAlloc : List UInt8 → ℕ → Bool} {type : UInt8}
    (h : ∀ mutation : SepticTankMutation, mutation.type.tag ≠ type) :
    freadFields noReadError arenaAlloc type = fun _ => .error .unreachable := by
  have hset : SepticTankOperationType.set.tag ≠ type := h (.set ⟨[], [], 0⟩)
  have hdel : SepticTankOperationType.del.tag ≠ type := h (.del [])
  have hexpire : SepticTankOperationType.expire.tag ≠ type := h (.expire ⟨[], 0⟩)
  unfold freadFields
  rw [if_neg hset.symm, if_neg hdel.symm, if_neg hexpire.symm]

section Memory
variable (arenaAlloc : List UInt8 → ℕ → Bool)

/-- The bytes of a record in front of a string. -/
inductive BeforeString : List UInt8 → Prop
  | setKey (expiresAt : Int64) :
    BeforeString (SepticTankOperationType.set.tag :: int64Bytes expiresAt)
  | setValue (expiresAt : Int64) (key : DataString) (hkey : key.length < 2 ^ 64) :
    BeforeString (SepticTankOperationType.set.tag :: (int64Bytes expiresAt ++ stringBytes key))
  | delKey : BeforeString [SepticTankOperationType.del.tag]
  | expireKey : BeforeString [SepticTankOperationType.expire.tag]

/-- The arena has no block for the string whose length the stream begins with. -/
def StringDenied (stream : List UInt8) : Prop :=
  ∃ len rest, len < 2 ^ 64 ∧ stream = wordBytes 8 len ++ rest ∧
    arenaAlloc rest (sizeofDataString + len) = false

/-- The stream begins like a record up to a string that the arena has no block for. -/
def Denied (stream : List UInt8) : Prop :=
  ∃ front rest, BeforeString front ∧ stream = front ++ rest ∧ StringDenied arenaAlloc rest

variable {arenaAlloc} {stream rest : List UInt8} {type : UInt8} {mutation : SepticTankMutation}
  {stop : PottyParserStop}

theorem freadInt64_ok_iff {value : Int64} : freadInt64 noReadError true stream = .ok (value, rest) ↔
    stream = int64Bytes value ++ rest := by
  constructor
  · intro h
    obtain ⟨_, rfl, rfl⟩ := freadInt64_recognizes.sound _ _ _ h
    rfl
  · rintro rfl
    exact (freadInt64_delivers value).1 rest

theorem freadString_ok_iff {str : DataString} :
    freadString noReadError enoughMemory true stream = .ok (str, rest) ↔
      str.length < 2 ^ 64 ∧ stream = stringBytes str ++ rest := by
  constructor
  · intro h
    obtain ⟨_, ⟨hlen, rfl⟩, rfl⟩ := freadString_recognizes.sound _ _ _ h
    exact ⟨hlen, rfl⟩
  · rintro ⟨hlen, rfl⟩
    exact (freadString_delivers hlen).1 rest

theorem allocString_refuses (len : ℕ) : Refuses .noMemory (allocString arenaAlloc len)
    (allocString enoughMemory len) fun stream =>
      arenaAlloc stream (sizeofDataString + len) = false where
  refuses stream hrefused := by
    rw [allocString, hrefused]
    rfl
  grants stream hgranted := by
    rw [allocString, Bool.eq_true_of_not_eq_false hgranted]
    rfl

theorem freadString_refuses : Refuses .noMemory (freadString noReadError arenaAlloc true)
    (freadString noReadError enoughMemory true) (StringDenied arenaAlloc) := by
  refine ((refuses_never .noMemory (fread noReadError 8 true)).andThen fun bytes =>
    (allocString_refuses (bytesWord bytes)).andThen fun _ => refuses_never .noMemory
      (if 0 < bytesWord bytes then fread noReadError (bytesWord bytes) true else .pure [])).congr ?_
  intro stream
  constructor
  · rintro (hnever | ⟨bytes, rest, hread, hdenied | ⟨_, _, _, hnever⟩⟩)
    · exact hnever.elim
    · obtain ⟨_, ⟨rfl, hlen⟩, rfl⟩ := (fread_recognizes 8).sound _ _ _ hread
      have hlt := bytesWord_lt bytes
      rw [hlen] at hlt
      refine ⟨bytesWord bytes, rest, hlt, ?_, hdenied⟩
      rw [← hlen, wordBytes_bytesWord]
    · exact hnever.elim
  · rintro ⟨len, rest, hlen, rfl, hdenied⟩
    have hread := (fread_delivers (wordBytes 8 len)).1 rest
    rw [length_wordBytes] at hread
    refine Or.inr ⟨_, rest, hread, Or.inl ?_⟩
    rw [bytesWord_wordBytes hlen]
    exact hdenied

theorem denied_cons : Denied arenaAlloc (type :: stream) ↔
    (type = SepticTankOperationType.set.tag ∧ ∃ expiresAt rest,
      stream = int64Bytes expiresAt ++ rest ∧ (StringDenied arenaAlloc rest ∨
        ∃ key rest', key.length < 2 ^ 64 ∧ rest = stringBytes key ++ rest' ∧
          StringDenied arenaAlloc rest')) ∨
    ((type = SepticTankOperationType.del.tag ∨ type = SepticTankOperationType.expire.tag) ∧
      StringDenied arenaAlloc stream) := by
  constructor
  · rintro ⟨front, rest, hfront, hstream, hdenied⟩
    cases hfront with
    | setKey expiresAt =>
      obtain ⟨rfl, rfl⟩ := List.cons.inj hstream
      exact Or.inl ⟨rfl, expiresAt, rest, rfl, Or.inl hdenied⟩
    | setValue expiresAt key hkey =>
      obtain ⟨rfl, rfl⟩ := List.cons.inj hstream
      exact Or.inl ⟨rfl, expiresAt, _, List.append_assoc .., Or.inr ⟨key, rest, hkey, rfl, hdenied⟩⟩
    | delKey =>
      obtain ⟨rfl, rfl⟩ := List.cons.inj hstream
      exact Or.inr ⟨Or.inl rfl, hdenied⟩
    | expireKey =>
      obtain ⟨rfl, rfl⟩ := List.cons.inj hstream
      exact Or.inr ⟨Or.inr rfl, hdenied⟩
  · rintro (⟨rfl, expiresAt, rest, rfl, hdenied | ⟨key, rest', hkey, rfl, hdenied⟩⟩ |
      ⟨rfl | rfl, hdenied⟩)
    · exact ⟨_, rest, .setKey expiresAt, rfl, hdenied⟩
    · exact ⟨_, rest', .setValue expiresAt key hkey, by simp, hdenied⟩
    · exact ⟨_, stream, .delKey, rfl, hdenied⟩
    · exact ⟨_, stream, .expireKey, rfl, hdenied⟩

theorem freadFields_refuses (type : UInt8) : Refuses .noMemory
    (freadFields noReadError arenaAlloc type) (freadFields noReadError enoughMemory type)
    fun stream => Denied arenaAlloc (type :: stream) := by
  have hint := refuses_never PottyParserStop.noMemory (freadInt64 noReadError true)
  have hstring : Refuses .noMemory (freadString noReadError arenaAlloc true)
      (freadString noReadError enoughMemory true) (StringDenied arenaAlloc) := freadString_refuses
  unfold freadFields
  split
  · rename_i hset
    refine (hint.andThen fun expiresAt => hstring.andThen fun key =>
      hstring.map fun value => SepticTankMutation.set ⟨key, value, expiresAt⟩).congr fun stream => ?_
    subst hset
    simp only [denied_cons, freadInt64_ok_iff, freadString_ok_iff, and_assoc]
    simp [SepticTankOperationType.tag]
  · split
    · rename_i hset hdel
      refine (hstring.map SepticTankMutation.del).congr fun stream => ?_
      subst hdel
      simp [denied_cons, hset]
    · split
      · rename_i hset hdel hexpire
        refine (hstring.andThen fun key => hint.map
          fun expiresAt => SepticTankMutation.expire ⟨key, expiresAt⟩).congr fun stream => ?_
        subst hexpire
        simp [denied_cons, hset]
      · rename_i hset hdel hexpire
        refine (refuses_never PottyParserStop.noMemory _).congr fun stream => ?_
        simp [denied_cons, hset, hdel, hexpire]

theorem pottyParserRead_cons (arenaAlloc : List UInt8 → ℕ → Bool) (type : UInt8)
    (rest : List UInt8) : pottyParserRead noReadError arenaAlloc (type :: rest) =
      freadFields noReadError arenaAlloc type rest := by
  have hbyte : freadByte noReadError false (type :: rest) = .ok (type, rest) := by
    simp [freadByte, Reader.map, Reader.andThen, Reader.pure, fread, noReadError]
  simp only [pottyParserRead, Reader.andThen, hbyte]

/-- A record with a string that is refused is not read, and every other one is as with memory for
all of them. -/
theorem pottyParserRead_refuses : Refuses .noMemory (pottyParserRead noReadError arenaAlloc)
    (pottyParserRead noReadError enoughMemory) (Denied arenaAlloc) where
  refuses stream hdenied := by
    cases stream with
    | nil =>
      obtain ⟨front, rest, hfront, hstream, -⟩ := hdenied
      cases hfront <;> cases hstream
    | cons type stream =>
      rw [pottyParserRead_cons]
      exact (freadFields_refuses type).refuses stream hdenied
  grants stream hgranted := by
    cases stream with
    | nil => rfl
    | cons type stream =>
      rw [pottyParserRead_cons, pottyParserRead_cons]
      exact (freadFields_refuses type).grants stream hgranted

theorem pottyParserRead_ok_iff :
    pottyParserRead noReadError arenaAlloc stream = .ok (mutation, rest) ↔
      mutation.Fits ∧ stream = mutationRecord mutation ++ rest ∧ ¬ Denied arenaAlloc stream := by
  have hfull : pottyParserRead noReadError enoughMemory stream = .ok (mutation, rest) ↔
      mutation.Fits ∧ stream = mutationRecord mutation ++ rest := by
    constructor
    · intro h
      cases stream with
      | nil => cases h
      | cons type stream =>
        rw [pottyParserRead_cons] at h
        by_cases htag : ∃ mutation : SepticTankMutation, mutation.type.tag = type
        · obtain ⟨encoded, ⟨rfl, hfits, rfl⟩, rfl⟩ := (freadFields_recognizes htag).sound _ _ _ h
          exact ⟨hfits, rfl⟩
        · rw [freadFields_unreachable (not_exists.mp htag)] at h
          cases h
    · rintro ⟨hfits, rfl⟩
      exact pottyCodec.read_encode mutation hfits rest
  by_cases hdenied : Denied arenaAlloc stream
  · rw [pottyParserRead_refuses.refuses stream hdenied]
    simp [hdenied]
  · rw [pottyParserRead_refuses.grants stream hdenied, hfull]
    simp [hdenied]

/-- What is left of the file where the parser stops. -/
def PottyParserStop.Leaves (arenaAlloc : List UInt8 → ℕ → Bool) :
    PottyParserStop → List UInt8 → Prop
  | eof, tail => tail = []
  | unexpectedEof, tail => ¬ Denied arenaAlloc tail ∧ tail ≠ [] ∧
      ∃ mutation : SepticTankMutation, mutation.Fits ∧
        tail <+: mutationRecord mutation ∧ tail ≠ mutationRecord mutation
  | unreachable, tail => ∃ type rest, tail = type :: rest ∧
      ∀ mutation : SepticTankMutation, mutation.type.tag ≠ type
  | noMemory, tail => Denied arenaAlloc tail
  | readError, _ => False

theorem denied_type (h : Denied arenaAlloc (type :: stream)) :
    ∃ mutation : SepticTankMutation, mutation.type.tag = type := by
  rcases denied_cons.mp h with ⟨rfl, -⟩ | ⟨rfl | rfl, -⟩
  · exact ⟨.set ⟨[], [], 0⟩, rfl⟩
  · exact ⟨.del [], rfl⟩
  · exact ⟨.expire ⟨[], 0⟩, rfl⟩

theorem pottyParserRead_error_iff :
    pottyParserRead noReadError arenaAlloc stream = .error stop ↔ stop.Leaves arenaAlloc stream := by
  by_cases hdenied : Denied arenaAlloc stream
  · rw [pottyParserRead_refuses.refuses stream hdenied]
    constructor
    · intro h
      cases h
      exact hdenied
    · intro h
      cases stop with
      | eof =>
        cases h
        obtain ⟨front, rest, hfront, hstream, -⟩ := hdenied
        cases hfront <;> cases hstream
      | unexpectedEof => exact absurd hdenied h.1
      | readError => cases h
      | unreachable =>
        obtain ⟨type, rest, rfl, htag⟩ := h
        obtain ⟨mutation, hmutation⟩ := denied_type hdenied
        exact absurd hmutation (htag mutation)
      | noMemory => rfl
  · rw [pottyParserRead_refuses.grants stream hdenied]
    constructor
    · intro h
      cases stream with
      | nil =>
        cases h
        rfl
      | cons type rest =>
        rw [pottyParserRead_cons] at h
        by_cases htag : ∃ mutation : SepticTankMutation, mutation.type.tag = type
        · obtain ⟨rfl, mutation, _, ⟨rfl, hfits, rfl⟩, hcut, hne⟩ :=
            (freadFields_recognizes htag).stops _ _ h
          refine ⟨hdenied, List.cons_ne_nil _ _, mutation, hfits, ?_, ?_⟩
          · exact List.cons_prefix_cons.mpr ⟨rfl, hcut⟩
          · intro heq
            exact hne (List.cons.inj heq).2
        · rw [freadFields_unreachable (not_exists.mp htag)] at h
          cases h
          exact ⟨type, rest, rfl, not_exists.mp htag⟩
    · intro h
      cases stop with
      | eof =>
        cases h
        rfl
      | unexpectedEof =>
        obtain ⟨-, hnil, mutation, hfits, hcut, hne⟩ := h
        exact pottyCodec.read_torn mutation hfits stream hcut hne hnil
      | readError => cases h
      | unreachable =>
        obtain ⟨type, rest, rfl, htag⟩ := h
        rw [pottyParserRead_cons, freadFields_unreachable htag]
      | noMemory => exact absurd h hdenied

end Memory

/-- The file is these records, whose strings all get memory, and a tail in which the parser stops. -/
structure SplitsFile (arenaAlloc : List UInt8 → ℕ → Bool) (file : List UInt8)
    (mutations : List SepticTankMutation) (stop : PottyParserStop) (tail : List UInt8) : Prop where
  fits : ∀ mutation ∈ mutations, mutation.Fits
  file_eq : file = serializedLog mutations ++ tail
  granted : ∀ unread, unread <:+ mutations → unread ≠ [] →
    ¬ Denied arenaAlloc (serializedLog unread ++ tail)
  leaves : stop.Leaves arenaAlloc tail

section Splits
variable {arenaAlloc : List UInt8 → ℕ → Bool} {file : List UInt8}
  {mutations : List SepticTankMutation} {stop : PottyParserStop}

theorem serializedLog_cons (mutation : SepticTankMutation) (mutations : List SepticTankMutation) :
    serializedLog (mutation :: mutations) = mutationRecord mutation ++ serializedLog mutations := by
  rw [serializedLog_eq, serializedLog_eq, List.flatMap_cons]

theorem takes_pottyParser_iff {tail : List UInt8} :
    Takes (pottyParserRead noReadError arenaAlloc) mutations file tail ↔
      (∀ mutation ∈ mutations, mutation.Fits) ∧ file = serializedLog mutations ++ tail ∧
        ∀ unread, unread <:+ mutations → unread ≠ [] →
          ¬ Denied arenaAlloc (serializedLog unread ++ tail) := by
  induction mutations generalizing file with
  | nil =>
    constructor
    · intro h
      cases h
      exact ⟨by simp, rfl, fun unread hunread hne => absurd (List.suffix_nil.mp hunread) hne⟩
    · rintro ⟨-, rfl, -⟩
      exact .nil _
  | cons mutation mutations ih =>
    constructor
    · intro h
      cases h with
      | cons hfirst hrest =>
        obtain ⟨hfit, hfile, hgranted⟩ := pottyParserRead_ok_iff.mp hfirst
        obtain ⟨hfits, rfl, hlater⟩ := ih.mp hrest
        rw [← List.append_assoc, ← serializedLog_cons] at hfile
        refine ⟨List.forall_mem_cons.mpr ⟨hfit, hfits⟩, hfile, fun unread hunread hne => ?_⟩
        rcases List.suffix_cons_iff.mp hunread with rfl | hunread
        · exact hfile ▸ hgranted
        · exact hlater unread hunread hne
    · rintro ⟨hfits, rfl, hgranted⟩
      obtain ⟨hfit, hfits⟩ := List.forall_mem_cons.mp hfits
      have hfirst := hgranted (mutation :: mutations) List.suffix_rfl (List.cons_ne_nil _ _)
      refine .cons (pottyParserRead_ok_iff.mpr ⟨hfit, ?_, hfirst⟩) (ih.mpr ⟨hfits, rfl, ?_⟩)
      · rw [serializedLog_cons, List.append_assoc]
      · exact fun unread hunread => hgranted unread (hunread.trans (List.suffix_cons _ _))

theorem pottyParserRead_shortens (stream : List UInt8) (mutation : SepticTankMutation)
    (rest : List UInt8) (h : pottyParserRead noReadError arenaAlloc stream = .ok (mutation, rest)) :
    rest.length < stream.length := by
  obtain ⟨-, rfl, -⟩ := pottyParserRead_ok_iff.mp h
  simp [mutationRecord]

/-- Reading a file to its stop finds its records and no others. -/
theorem readAll_pottyParser_iff :
    readAll (pottyParserRead noReadError arenaAlloc) (file.length + 1) file =
        (mutations, some stop) ↔
      ∃ tail, SplitsFile arenaAlloc file mutations stop tail := by
  rw [readAll_iff_takes pottyParserRead_shortens (Nat.lt_succ_self _)]
  refine exists_congr fun tail => ?_
  rw [takes_pottyParser_iff, pottyParserRead_error_iff]
  constructor
  · rintro ⟨⟨hfits, hfile, hgranted⟩, hleaves⟩
    exact ⟨hfits, hfile, hgranted, hleaves⟩
  · rintro ⟨hfits, hfile, hgranted, hleaves⟩
    exact ⟨⟨hfits, hfile, hgranted⟩, hleaves⟩

theorem readAll_pottyParser_stops (arenaAlloc : List UInt8 → ℕ → Bool) (file : List UInt8) :
    ∃ mutations stop, readAll (pottyParserRead noReadError arenaAlloc) (file.length + 1) file =
      (mutations, some stop) :=
  readAll_stops pottyParserRead_shortens (Nat.lt_succ_self _)

end Splits

/-- Whatever memory the arena gets, any file is whole records and a tail in exactly one way. The
parser returns the records, and its reason to stop says whether the tail is empty, part of a
record, no record at all, or up to a string for which there is no memory. -/
theorem pottyParser_splits_file (arenaAlloc : List UInt8 → ℕ → Bool) (file : List UInt8) :
    ∃ mutations stop tail,
      readAll (pottyParserRead noReadError arenaAlloc) (file.length + 1) file =
        (mutations, some stop) ∧
      SplitsFile arenaAlloc file mutations stop tail ∧
      ∀ (mutations' : List SepticTankMutation) (stop' : PottyParserStop) (tail' : List UInt8),
        SplitsFile arenaAlloc file mutations' stop' tail' →
          mutations' = mutations ∧ stop' = stop ∧ tail' = tail := by
  obtain ⟨mutations, stop, hread⟩ := readAll_pottyParser_stops arenaAlloc file
  obtain ⟨tail, hsplits⟩ := readAll_pottyParser_iff.mp hread
  refine ⟨mutations, stop, tail, hread, hsplits, ?_⟩
  intro mutations' stop' tail' hsplits'
  have hread' := readAll_pottyParser_iff.mpr ⟨tail', hsplits'⟩
  rw [hread] at hread'
  cases hread'
  exact ⟨rfl, rfl, List.append_cancel_left (hsplits'.file_eq.symm.trans hsplits.file_eq)⟩

end Redic
