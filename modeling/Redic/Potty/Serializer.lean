import Redic.Foundation.HostWord
import Redic.SepticTank.Operation

/-! # Writing the append-only file

A record opens with the tag of its operation type. Integers are 8-byte words; a string is its
length as a word and then its bytes. The writers use the output file through `fwrite` alone, so
the file is a parameter: plain bytes here, a buffered file for the flusher.
-/
namespace Redic
open HostWord

/-- The enumerator's value, as it is stored on disk. -/
def SepticTankOperationType.tag : SepticTankOperationType → UInt8
  | set => 0
  | del => 1
  | expire => 2
  | incrby => 3
  | get => 4
  | ttl => 5
  | .exists => 6

def SepticTankMutation.type : SepticTankMutation → SepticTankOperationType
  | set _ => .set
  | del _ => .del
  | expire _ => .expire

section Writers
variable {F : Type} (fwrite : F → List UInt8 → F)

def fwriteByte (file : F) (value : UInt8) : F := fwrite file [value]

def fwriteInt64 (file : F) (value : Int64) : F :=
  fwrite file (wordBytes 8 value.toUInt64.toNat)

def fwriteString (file : F) (str : DataString) : F :=
  let file := fwrite file (wordBytes 8 str.length)
  if str.length = 0 then file else fwrite file str

def pottySerializeMutation (file : F) (mutation : SepticTankMutation) : F :=
  let file := fwriteByte fwrite file mutation.type.tag
  match mutation with
  | .set mutation =>
    let file := fwriteInt64 fwrite file mutation.expiresAt
    let file := fwriteString fwrite file mutation.key
    fwriteString fwrite file mutation.value
  | .del key => fwriteString fwrite file key
  | .expire mutation =>
    let file := fwriteString fwrite file mutation.key
    fwriteInt64 fwrite file mutation.expiresAt

end Writers

def int64Bytes (value : Int64) : List UInt8 := wordBytes 8 value.toUInt64.toNat

def stringBytes (str : DataString) : List UInt8 := wordBytes 8 str.length ++ str

def mutationFields : SepticTankMutation → List UInt8
  | .set mutation =>
    int64Bytes mutation.expiresAt ++ (stringBytes mutation.key ++ stringBytes mutation.value)
  | .del key => stringBytes key
  | .expire mutation => stringBytes mutation.key ++ int64Bytes mutation.expiresAt

def mutationRecord (mutation : SepticTankMutation) : List UInt8 :=
  mutation.type.tag :: mutationFields mutation

/-- Only the bytes matter, not how they are split into calls. -/
structure WritesBytes {F : Type} (fwrite : F → List UInt8 → F) : Prop where
  nil : ∀ file, fwrite file [] = file
  append : ∀ file xs ys, fwrite file (xs ++ ys) = fwrite (fwrite file xs) ys

section WritesBytes
variable {F : Type} {fwrite : F → List UInt8 → F}

theorem fwriteString_eq (h : WritesBytes fwrite) (file : F) (str : DataString) :
    fwriteString fwrite file str = fwrite file (stringBytes str) := by
  unfold fwriteString stringBytes
  split
  · rename_i hlen
    rw [List.length_eq_zero_iff.mp hlen, List.append_nil]
  · rw [h.append]

theorem pottySerializeMutation_eq (h : WritesBytes fwrite) (file : F)
    (mutation : SepticTankMutation) :
    pottySerializeMutation fwrite file mutation = fwrite file (mutationRecord mutation) := by
  have hrecord : fwrite file (mutationRecord mutation) =
      fwrite (fwrite file [mutation.type.tag]) (mutationFields mutation) := h.append file [_] _
  rw [hrecord]
  cases mutation with
  | set mutation =>
    simp only [pottySerializeMutation, fwriteByte, fwriteInt64, fwriteString_eq h,
      mutationFields, h.append, int64Bytes]
  | del key => simp only [pottySerializeMutation, fwriteByte, fwriteString_eq h, mutationFields]
  | expire mutation =>
    simp only [pottySerializeMutation, fwriteByte, fwriteInt64, fwriteString_eq h,
      mutationFields, h.append, int64Bytes]

theorem serializeAll_eq (h : WritesBytes fwrite) (file : F)
    (mutations : List SepticTankMutation) :
    mutations.foldl (pottySerializeMutation fwrite) file =
      fwrite file (mutations.flatMap mutationRecord) := by
  induction mutations generalizing file with
  | nil => exact (h.nil file).symm
  | cons mutation mutations ih =>
    rw [List.foldl_cons, ih, pottySerializeMutation_eq h, List.flatMap_cons, h.append]

end WritesBytes

/-- The bytes that writing a whole log leaves in an empty file. -/
def serializedLog (mutations : List SepticTankMutation) : List UInt8 :=
  mutations.foldl (pottySerializeMutation (· ++ ·)) []

theorem serializedLog_eq (mutations : List SepticTankMutation) :
    serializedLog mutations = mutations.flatMap mutationRecord := by
  have hplain : WritesBytes fun file bytes : List UInt8 => file ++ bytes :=
    ⟨fun _ => List.append_nil _, fun _ _ _ => (List.append_assoc ..).symm⟩
  exact serializeAll_eq hplain [] mutations

end Redic
