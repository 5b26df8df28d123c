import AeorDb.Header.FileHeader

/-! Writing a header into its slot field by field, for every hash algorithm. -/

namespace AeorDb.Header.FileHeader

open Library List Field

variable (crc32 : Crc32) (h : FileHeader)

-- at most the algorithm's length is copied, and the next field starts behind that length
def hashField (hash : List UInt8) : Field := ⟨h.hashAlgo.hashLength, hash.take h.hashAlgo.hashLength⟩

def number (width value : ℕ) : Field := ⟨width, leBytes width value⟩

def layoutBeforeTarget : List Field :=
  [⟨4, fileMagic⟩, ⟨1, [h.headerVersion]⟩, number 2 h.hashAlgo.toU16.toNat, number 8 h.sequence.toNat,
    number 8 h.createdAt.toUInt64.toNat, number 8 h.updatedAt.toUInt64.toNat, number 8 h.kvBlockOffset.toNat,
    number 8 h.kvBlockLength.toNat, number 1 h.kvBlockVersion.toNat, number 8 h.nvtOffset.toNat, number 8 h.nvtLength.toNat,
    number 1 h.nvtVersion.toNat, h.hashField h.headHash, number 8 h.entryCount.toNat, number 1 h.resizeFlag.toNat,
    number 8 h.bufferKvsOffset.toNat, number 8 h.bufferNvtOffset.toNat, number 8 h.hotTailOffset.toNat,
    number 1 h.kvBlockStage.toNat, number 1 h.resizeTargetStage.toNat, number 1 h.backupType.toNat, h.hashField h.baseHash]

def layout : List Field := h.layoutBeforeTarget ++ [h.hashField h.targetHash]

def serializeChecked : Except HeaderError (List UInt8) := do
  let buffer ← write .outOfRange h.layout 0 (List.replicate fileHeaderSize 0)
  let checked := buffer.take (fileHeaderSize - headerCrcSize)
  return checked ++ leBytes headerCrcSize (crc32 checked).toNat

structure HashesSized (h : FileHeader) : Prop where
  head : h.headHash.length = h.hashAlgo.hashLength
  base : h.baseHash.length = h.hashAlgo.hashLength
  target : h.targetHash.length = h.hashAlgo.hashLength

variable {h}

lemma total_layoutBeforeTarget (h : FileHeader) : total h.layoutBeforeTarget = 101 + 2 * h.hashAlgo.hashLength := by
  simp only [total, layoutBeforeTarget, number, hashField, map_cons, map_nil, sum_cons, sum_nil]
  omega

lemma total_layout (h : FileHeader) : total h.layout = 101 + 3 * h.hashAlgo.hashLength := by
  have hbefore := total_layoutBeforeTarget h
  rw [total] at hbefore ⊢
  rw [layout, map_append, sum_append, hbefore]
  simp only [hashField, map_cons, map_nil, sum_cons, sum_nil]
  omega

lemma length_le_width (h : FileHeader) : ∀ f ∈ h.layout, f.bytes.length ≤ f.width := by
  have hhash (hash : List UInt8) : (h.hashField hash).bytes.length ≤ (h.hashField hash).width := length_take_le _ _
  simp only [layout, layoutBeforeTarget, cons_append, nil_append, forall_mem_cons]
  simp only [number, length_leBytes, le_refl, true_and, hhash, fileMagic, length_cons, length_nil]
  simp

lemma padded_number (width value : ℕ) : (number width value).padded = leBytes width value :=
  fixedBytes_of_length (length_leBytes _ _)

lemma padded_hashField (h : FileHeader) (hash : List UInt8) : (h.hashField hash).padded = fixedBytes h.hashAlgo.hashLength hash := by
  rw [hashField, padded, fixedBytes, fixedBytes, take_take, min_self, length_take]
  dsimp only
  congr 2
  omega

lemma flatMap_layout (h : FileHeader) : h.layout.flatMap padded = fileMagic ++ h.headerVersion :: h.fields := by
  have hmagic : (⟨4, fileMagic⟩ : Field).padded = fileMagic := rfl
  have hversion : (⟨1, [h.headerVersion]⟩ : Field).padded = [h.headerVersion] := rfl
  unfold fields layout layoutBeforeTarget
  simp only [flatMap_cons, flatMap_nil, padded_number, padded_hashField, hmagic, hversion,
    append_assoc, append_nil, nil_append, cons_append]

lemma length_flatMap_padded (fields : List Field) : (fields.flatMap padded).length = total fields := by
  rw [length_flatMap, total]
  simp only [padded, length_fixedBytes]

lemma serializeChecked_eq (hlen : h.hashAlgo.hashLength = 32) : h.serializeChecked crc32 = .ok (h.serialize crc32) := by
  have htotal : total h.layout = 197 := by rw [total_layout, hlen]
  have hlayout : (fileMagic ++ h.headerVersion :: h.fields).length = 197 := by
    have hpadded := length_flatMap_padded h.layout
    rwa [flatMap_layout, htotal] at hpadded
  have hwrite := write_empty HeaderError.outOfRange (length_le_width h) (n := fileHeaderSize) (by rw [htotal]; decide)
  rw [flatMap_layout, htotal] at hwrite
  have hbody : ((fileMagic ++ h.headerVersion :: h.fields) ++ List.replicate (fileHeaderSize - 197) 0).take
      (fileHeaderSize - headerCrcSize) = h.body := by
    rw [body, fixedBytes, take_append, hlayout, take_replicate]
    rfl
  rw [serializeChecked, hwrite]
  change Except.ok _ = _
  rw [hbody, serialize]

lemma serializeChecked_outOfRange (hlen : h.hashAlgo.hashLength = 64) (htarget : h.targetHash.length = h.hashAlgo.hashLength) :
    h.serializeChecked crc32 = .error .outOfRange := by
  have htotal : total h.layoutBeforeTarget = 229 := by rw [total_layoutBeforeTarget, hlen]
  have hwidth : ∀ f ∈ h.layoutBeforeTarget, f.bytes.length ≤ f.width := fun f hf => length_le_width h f (mem_append_left _ hf)
  have hwrite := write_empty HeaderError.outOfRange hwidth (n := fileHeaderSize) (by rw [htotal]; decide)
  have hfield : (h.hashField h.targetHash).bytes.length = 64 := by
    rw [hashField, length_take, htarget, min_self, hlen]
  have hbuffer : (h.layoutBeforeTarget.flatMap padded ++ List.replicate (fileHeaderSize - 229) 0).length = 256 := by
    rw [length_append, length_flatMap_padded, htotal, length_replicate]
    rfl
  rw [htotal] at hwrite
  rw [serializeChecked, layout, write_append, hwrite, htotal]
  change (write _ _ _ _ >>= _) = _
  rw [write, if_neg (by rw [hbuffer, hfield]; decide)]
  rfl

lemma version_of_deserialize {bytes : List UInt8} (hread : deserialize crc32 bytes = .ok h) (hbytes : bytes.getD 4 0 = h.headerVersion) :
    h.headerVersion = supportedHeaderVersion := by
  by_contra hversion
  have herror : deserialize crc32 bytes = .error .invalidMagic ∨
      deserialize crc32 bytes = .error (.invalidEntryVersion h.headerVersion) := by
    rw [deserialize]
    by_cases hmagic : bytes.take 4 = fileMagic
    · rw [if_neg (not_not.mpr hmagic)]
      dsimp only
      rw [hbytes, if_pos hversion]
      exact Or.inr rfl
    · exact Or.inl (if_pos hmagic)
  rw [hread] at herror
  simp at herror

lemma getD_serialize_version (h : FileHeader) : (h.serialize crc32).getD 4 0 = h.headerVersion := by
  rw [serialize, body, fixedBytes, fileMagic]
  simp [fileHeaderSize, headerCrcSize]

theorem header_roundTrip_iff (hs : h.HashesSized) :
    (∃ bytes, h.serializeChecked crc32 = .ok bytes ∧ deserialize crc32 bytes = .ok h) ↔
      h.headerVersion = supportedHeaderVersion ∧ h.hashAlgo ≠ .sha512 ∧ h.hashAlgo ≠ .sha3_512 := by
  obtain hlen | hlen := h.hashAlgo.hashLength_eq
  · have halgo := HashAlgorithm.ne_of_hashLength hlen
    constructor
    · rintro ⟨bytes, hwrite, hread⟩
      rw [serializeChecked_eq crc32 hlen] at hwrite
      cases hwrite
      exact ⟨version_of_deserialize crc32 hread (getD_serialize_version crc32 h), halgo⟩
    · rintro ⟨hversion, -⟩
      exact ⟨_, serializeChecked_eq crc32 hlen, deserialize_serialize crc32 ⟨hversion, hlen, hs.head, hs.base, hs.target⟩⟩
  · constructor
    · rintro ⟨bytes, hwrite, -⟩
      rw [serializeChecked_outOfRange crc32 hlen hs.target] at hwrite
      cases hwrite
    · rintro ⟨-, hsha, hsha3⟩
      rw [HashAlgorithm.hashLength_of_ne hsha hsha3] at hlen
      cases hlen

def blank (algo : HashAlgorithm) : FileHeader :=
  let zeros := List.replicate algo.hashLength 0
  ⟨3, algo, 1, 0, 0, 512, 65536, 1, 0, 0, 1, zeros, 0, false, 0, 0, 0, 0, 0, 0, zeros, zeros⟩

lemma hashesSized_blank (algo : HashAlgorithm) : (blank algo).HashesSized :=
  ⟨length_replicate, length_replicate, length_replicate⟩

theorem header_roundTrip_sha256 :
    (blank .sha256).HashesSized ∧ ∃ bytes, (blank .sha256).serializeChecked (fun _ => 0) = .ok bytes ∧
      deserialize (fun _ => 0) bytes = .ok (blank .sha256) :=
  ⟨hashesSized_blank _, (header_roundTrip_iff _ (hashesSized_blank _)).mpr ⟨rfl, by decide, by decide⟩⟩

theorem header_sha512_panics : (blank .sha512).HashesSized ∧ (blank .sha512).serializeChecked (fun _ => 0) = .error .outOfRange :=
  ⟨hashesSized_blank _, serializeChecked_outOfRange _ rfl rfl⟩

end AeorDb.Header.FileHeader
