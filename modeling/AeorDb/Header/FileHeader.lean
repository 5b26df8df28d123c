import AeorDb.Library.ByteCodec

/-! The file header and its 256 bytes on disk. -/

namespace AeorDb.Header

open Library Library.Reader List

inductive HashAlgorithm where
  | blake3_256 | sha256 | sha512 | sha3_256 | sha3_512
  deriving DecidableEq

namespace HashAlgorithm

def hashLength : HashAlgorithm → ℕ
  | .blake3_256 => 32
  | .sha256 => 32
  | .sha512 => 64
  | .sha3_256 => 32
  | .sha3_512 => 64

def toU16 : HashAlgorithm → UInt16
  | .blake3_256 => 1
  | .sha256 => 2
  | .sha512 => 3
  | .sha3_256 => 4
  | .sha3_512 => 5

def fromU16 (value : UInt16) : Option HashAlgorithm :=
  if value = 1 then some .blake3_256
  else if value = 2 then some .sha256
  else if value = 3 then some .sha512
  else if value = 4 then some .sha3_256
  else if value = 5 then some .sha3_512
  else none

lemma fromU16_toU16 (algo : HashAlgorithm) : fromU16 algo.toU16 = some algo := by
  cases algo <;> rfl

lemma hashLength_eq (algo : HashAlgorithm) : algo.hashLength = 32 ∨ algo.hashLength = 64 := by
  cases algo <;> decide

variable {algo : HashAlgorithm}

lemma ne_of_hashLength (h : algo.hashLength = 32) : algo ≠ .sha512 ∧ algo ≠ .sha3_512 := by
  constructor <;> (rintro rfl; cases h)

lemma hashLength_of_ne (hsha : algo ≠ .sha512) (hsha3 : algo ≠ .sha3_512) : algo.hashLength = 32 := by
  cases algo <;> first | rfl | exact absurd rfl hsha | exact absurd rfl hsha3

end HashAlgorithm

structure FileHeader where
  headerVersion : UInt8
  hashAlgo : HashAlgorithm
  sequence : UInt64
  createdAt : Int64
  updatedAt : Int64
  kvBlockOffset : UInt64
  kvBlockLength : UInt64
  kvBlockVersion : UInt8
  nvtOffset : UInt64
  nvtLength : UInt64
  nvtVersion : UInt8
  headHash : List UInt8
  entryCount : UInt64
  resizeInProgress : Bool
  bufferKvsOffset : UInt64
  bufferNvtOffset : UInt64
  hotTailOffset : UInt64
  kvBlockStage : UInt8
  resizeTargetStage : UInt8
  backupType : UInt8
  baseHash : List UInt8
  targetHash : List UInt8
  deriving DecidableEq

inductive HeaderError where
  | invalidMagic
  | invalidEntryVersion (version : UInt8)
  | crcMismatch (stored computed : ℕ)
  | invalidHashAlgorithm (value : UInt16)
  | outOfRange
  deriving DecidableEq

def fileHeaderSize : ℕ := 256
def headerCrcSize : ℕ := 4
def fileMagic : List UInt8 := [65, 69, 79, 82]
def supportedHeaderVersion : UInt8 := 3

abbrev Crc32 := List UInt8 → BitVec 32

namespace FileHeader

variable (crc32 : Crc32) (h : FileHeader)

def resizeFlag : UInt8 := if h.resizeInProgress then 1 else 0

def fields : List UInt8 :=
  leBytes 2 h.hashAlgo.toU16.toNat ++ leBytes 8 h.sequence.toNat ++ leBytes 8 h.createdAt.toUInt64.toNat ++
    leBytes 8 h.updatedAt.toUInt64.toNat ++ leBytes 8 h.kvBlockOffset.toNat ++ leBytes 8 h.kvBlockLength.toNat ++
    leBytes 1 h.kvBlockVersion.toNat ++ leBytes 8 h.nvtOffset.toNat ++ leBytes 8 h.nvtLength.toNat ++
    leBytes 1 h.nvtVersion.toNat ++ fixedBytes h.hashAlgo.hashLength h.headHash ++ leBytes 8 h.entryCount.toNat ++
    leBytes 1 h.resizeFlag.toNat ++ leBytes 8 h.bufferKvsOffset.toNat ++
    leBytes 8 h.bufferNvtOffset.toNat ++ leBytes 8 h.hotTailOffset.toNat ++ leBytes 1 h.kvBlockStage.toNat ++
    leBytes 1 h.resizeTargetStage.toNat ++ leBytes 1 h.backupType.toNat ++ fixedBytes h.hashAlgo.hashLength h.baseHash ++
    fixedBytes h.hashAlgo.hashLength h.targetHash

def body : List UInt8 := fixedBytes (fileHeaderSize - headerCrcSize) (fileMagic ++ h.headerVersion :: h.fields)

def serialize : List UInt8 := h.body ++ leBytes headerCrcSize (crc32 h.body).toNat

def readFields (headerVersion : UInt8) : Reader HeaderError FileHeader := do
  let raw ← takeU16 .outOfRange
  match HashAlgorithm.fromU16 raw with
  | none => throw (.invalidHashAlgorithm raw)
  | some hashAlgo =>
    let sequence ← takeU64 .outOfRange
    let createdAt ← takeI64 .outOfRange
    let updatedAt ← takeI64 .outOfRange
    let kvBlockOffset ← takeU64 .outOfRange
    let kvBlockLength ← takeU64 .outOfRange
    let kvBlockVersion ← takeU8 .outOfRange
    let nvtOffset ← takeU64 .outOfRange
    let nvtLength ← takeU64 .outOfRange
    let nvtVersion ← takeU8 .outOfRange
    let headHash ← takeBytes .outOfRange hashAlgo.hashLength
    let entryCount ← takeU64 .outOfRange
    let resizing ← takeU8 .outOfRange
    let bufferKvsOffset ← takeU64 .outOfRange
    let bufferNvtOffset ← takeU64 .outOfRange
    let hotTailOffset ← takeU64 .outOfRange
    let kvBlockStage ← takeU8 .outOfRange
    let resizeTargetStage ← takeU8 .outOfRange
    let backupType ← takeU8 .outOfRange
    let baseHash ← takeBytes .outOfRange hashAlgo.hashLength
    let targetHash ← takeBytes .outOfRange hashAlgo.hashLength
    return ⟨headerVersion, hashAlgo, sequence, createdAt, updatedAt, kvBlockOffset, kvBlockLength, kvBlockVersion, nvtOffset,
      nvtLength, nvtVersion, headHash, entryCount, resizing ≠ 0, bufferKvsOffset, bufferNvtOffset, hotTailOffset, kvBlockStage,
      resizeTargetStage, backupType, baseHash, targetHash⟩

def storedCrc (bytes : List UInt8) : ℕ := leValue (bytes.drop (fileHeaderSize - headerCrcSize))

def computedCrc (bytes : List UInt8) : ℕ := (crc32 (bytes.take (fileHeaderSize - headerCrcSize))).toNat

def deserialize (bytes : List UInt8) : Except HeaderError FileHeader :=
  if bytes.take 4 ≠ fileMagic then .error .invalidMagic
  else
    let headerVersion := bytes.getD 4 0
    if headerVersion ≠ supportedHeaderVersion then .error (.invalidEntryVersion headerVersion)
    else if storedCrc bytes ≠ computedCrc crc32 bytes then .error (.crcMismatch (storedCrc bytes) (computedCrc crc32 bytes))
    else (readFields headerVersion (bytes.drop 5)).map Prod.fst

structure Valid (h : FileHeader) : Prop where
  version : h.headerVersion = supportedHeaderVersion
  fits : h.hashAlgo.hashLength = 32
  head : h.headHash.length = h.hashAlgo.hashLength
  base : h.baseHash.length = h.hashAlgo.hashLength
  target : h.targetHash.length = h.hashAlgo.hashLength

variable {crc32 h}

lemma readFields_fields (version : UInt8) (hv : h.Valid) (rest : List UInt8) :
    readFields version (h.fields ++ rest) = .ok ({ h with headerVersion := version }, rest) := by
  have hresizing : decide (h.resizeFlag ≠ 0) = h.resizeInProgress := by
    rw [resizeFlag]
    cases h.resizeInProgress <;> decide
  unfold fields
  simp only [append_assoc, fixedBytes_of_length hv.head, fixedBytes_of_length hv.base, fixedBytes_of_length hv.target]
  refine (bind_of_ok (takeU16_append _ _ _)).trans ?_
  rw [HashAlgorithm.fromU16_toU16]
  refine (bind_of_ok (takeU64_append _ _ _)).trans ?_
  refine (bind_of_ok (takeI64_append _ _ _)).trans ?_
  refine (bind_of_ok (takeI64_append _ _ _)).trans ?_
  refine (bind_of_ok (takeU64_append _ _ _)).trans ?_
  refine (bind_of_ok (takeU64_append _ _ _)).trans ?_
  refine (bind_of_ok (takeU8_append _ _ _)).trans ?_
  refine (bind_of_ok (takeU64_append _ _ _)).trans ?_
  refine (bind_of_ok (takeU64_append _ _ _)).trans ?_
  refine (bind_of_ok (takeU8_append _ _ _)).trans ?_
  refine (bind_of_ok (takeBytes_append _ _ hv.head)).trans ?_
  refine (bind_of_ok (takeU64_append _ _ _)).trans ?_
  refine (bind_of_ok (takeU8_append _ _ _)).trans ?_
  refine (bind_of_ok (takeU64_append _ _ _)).trans ?_
  refine (bind_of_ok (takeU64_append _ _ _)).trans ?_
  refine (bind_of_ok (takeU64_append _ _ _)).trans ?_
  refine (bind_of_ok (takeU8_append _ _ _)).trans ?_
  refine (bind_of_ok (takeU8_append _ _ _)).trans ?_
  refine (bind_of_ok (takeU8_append _ _ _)).trans ?_
  refine (bind_of_ok (takeBytes_append _ _ hv.base)).trans ?_
  refine (bind_of_ok (takeBytes_append _ _ hv.target)).trans ?_
  rw [hresizing]
  rfl

lemma length_body (h : FileHeader) : h.body.length = fileHeaderSize - headerCrcSize := length_fixedBytes _ _

lemma length_serialize (crc32 : Crc32) (h : FileHeader) : (h.serialize crc32).length = fileHeaderSize := by
  rw [serialize, length_append, length_body, length_leBytes, fileHeaderSize, headerCrcSize]

lemma length_fields (hv : h.Valid) : h.fields.length = 192 := by
  unfold fields
  simp only [length_append, length_leBytes, length_fixedBytes, hv.fits]

lemma body_eq (hv : h.Valid) : ∃ rest, h.body = fileMagic ++ h.headerVersion :: (h.fields ++ rest) := by
  have hlen : (fileMagic ++ h.headerVersion :: h.fields).length ≤ fileHeaderSize - headerCrcSize := by
    simp [length_fields hv, fileMagic, fileHeaderSize, headerCrcSize]
  refine ⟨List.replicate (252 - (fileMagic ++ h.headerVersion :: h.fields).length) 0, ?_⟩
  rw [body, fixedBytes, take_of_length_le hlen]
  simp [fileHeaderSize, headerCrcSize]

lemma storedCrc_serialize (crc32 : Crc32) (h : FileHeader) : storedCrc (h.serialize crc32) = (crc32 h.body).toNat := by
  rw [storedCrc, serialize, drop_left' (length_body h)]
  exact leValue_leBytes_of_lt (crc32 h.body).isLt

lemma deserialize_serialize (crc32 : Crc32) (hv : h.Valid) : deserialize crc32 (h.serialize crc32) = .ok h := by
  obtain ⟨rest, hbody⟩ := body_eq hv
  have hcrc : storedCrc (h.serialize crc32) = computedCrc crc32 (h.serialize crc32) := by
    rw [storedCrc_serialize, computedCrc, serialize, take_left' (length_body h)]
  have hbytes : h.serialize crc32 = fileMagic ++ h.headerVersion :: (h.fields ++ (rest ++ leBytes headerCrcSize (crc32 h.body).toNat)) := by
    rw [serialize]
    nth_rewrite 1 [hbody]
    simp
  simp only [deserialize, if_neg (not_not.mpr hcrc)]
  rw [hbytes]
  simp only [fileMagic, cons_append, nil_append, take_succ_cons, take_zero, ne_eq, not_true_eq_false, if_false,
    getD_cons_succ, getD_cons_zero, hv.version, drop_succ_cons, drop_zero, readFields_fields _ hv]
  rw [Except.map, ← hv.version]

lemma deserialize_zeros (crc32 : Crc32) (n : ℕ) : deserialize crc32 (List.replicate n 0) = .error .invalidMagic := by
  rw [deserialize, if_pos]
  rw [take_replicate, fileMagic]
  intro heq
  have h0 : (65 : UInt8) ∈ List.replicate (min 4 n) 0 := heq ▸ by simp
  exact absurd (eq_of_mem_replicate h0) (by decide)

end FileHeader

end AeorDb.Header
