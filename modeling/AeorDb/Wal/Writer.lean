import AeorDb.Wal.Damage
import AeorDb.Wal.HotTail

/-! The bytes of an entry as they are written, which read back as the entry. -/

namespace AeorDb.Wal

open Library Store Header List ByteFile EntryHeader

def CompressionAlgorithm.toU8 : CompressionAlgorithm → UInt8
  | .none => 0
  | .zstd => 1

namespace EntryHeader

def fixedPart (h : EntryHeader) : List UInt8 :=
  entryMagic ++ [h.entryVersion, entryTypeToU8 h.entryType, h.flags] ++ leBytes 2 h.hashAlgo.toU16.toNat ++
    [h.compressionAlgo.toU8, h.encryptionAlgo] ++ leBytes 4 h.keyLength ++ leBytes 4 h.valueLength ++
    leBytes 8 h.timestamp.toUInt64.toNat ++ leBytes 4 h.totalLength

def serialize (h : EntryHeader) : List UInt8 := h.fixedPart ++ h.hash

structure Fits (h : EntryHeader) : Prop where
  keyLength : h.keyLength < 2 ^ 32
  valueLength : h.valueLength < 2 ^ 32
  totalLength : h.totalLength < 2 ^ 32
  hash : h.hash.length = h.hashAlgo.hashLength

variable {h : EntryHeader}

@[simp] lemma length_fixedPart (h : EntryHeader) : h.fixedPart.length = fixedHeaderSize := by
  simp [fixedPart, entryMagic, fixedHeaderSize]

lemma length_serialize (hfits : h.Fits) : h.serialize.length = h.headerSize := by
  rw [serialize, length_append, length_fixedPart, hfits.hash, headerSize]

lemma take_fixedPart (h : EntryHeader) : h.fixedPart.take 4 = entryMagic := by simp [fixedPart, entryMagic]

lemma fixedPart_bytes (h : EntryHeader) : h.fixedPart.getD 4 0 = h.entryVersion ∧ h.fixedPart.getD 5 0 = entryTypeToU8 h.entryType ∧
    h.fixedPart.getD 6 0 = h.flags ∧ h.fixedPart.getD 9 0 = h.compressionAlgo.toU8 ∧ h.fixedPart.getD 10 0 = h.encryptionAlgo := by
  simp [fixedPart, entryMagic, leBytes]

lemma littleEndian_concat {pre : List UInt8} {position width k : ℕ} (hpre : pre.length = position) (hk : k < 2 ^ (8 * width)) :
    littleEndian (pre ++ leBytes width k) position width = k := by
  simpa using littleEndian_append_of_lt hpre hk []

-- the fields behind the one that is read are dropped first
lemma fixedPart_hashAlgo (h : EntryHeader) : littleEndian h.fixedPart 7 2 = h.hashAlgo.toU16.toNat := by
  rw [fixedPart]
  iterate 5 rw [littleEndian_append_left (by simp [entryMagic])]
  exact littleEndian_concat (by simp [entryMagic]) h.hashAlgo.toU16.toBitVec.isLt

lemma fixedPart_keyLength (hfits : h.Fits) : littleEndian h.fixedPart 11 4 = h.keyLength := by
  rw [fixedPart]
  iterate 3 rw [littleEndian_append_left (by simp [entryMagic])]
  exact littleEndian_concat (by simp [entryMagic]) hfits.keyLength

lemma fixedPart_valueLength (hfits : h.Fits) : littleEndian h.fixedPart 15 4 = h.valueLength := by
  rw [fixedPart]
  iterate 2 rw [littleEndian_append_left (by simp [entryMagic])]
  exact littleEndian_concat (by simp [entryMagic]) hfits.valueLength

lemma fixedPart_timestamp (h : EntryHeader) : littleEndian h.fixedPart 19 8 = h.timestamp.toUInt64.toNat := by
  rw [fixedPart, littleEndian_append_left (by simp [entryMagic])]
  exact littleEndian_concat (by simp [entryMagic]) h.timestamp.toUInt64.toBitVec.isLt

lemma fixedPart_totalLength (hfits : h.Fits) : littleEndian h.fixedPart 27 4 = h.totalLength :=
  littleEndian_concat (by simp [entryMagic]) hfits.totalLength

lemma entryTypeFromU8_toU8 (t : EntryType) : entryTypeFromU8 (entryTypeToU8 t) = some t := by cases t <;> decide

lemma compressionFromU8_toU8 (c : CompressionAlgorithm) : CompressionAlgorithm.fromU8 c.toU8 = some c := by cases c <;> decide

lemma deserialize_of_bytes {f : ByteFile} {p : ℕ} (hfits : h.Fits) (hfixed : f.readExact p fixedHeaderSize = some h.fixedPart)
    (hhash : f.readExact (p + fixedHeaderSize) h.hashAlgo.hashLength = some h.hash) : deserialize f p = .ok h := by
  obtain ⟨hversion, htype, hflags, hcompression, hencryption⟩ := fixedPart_bytes h
  rw [deserialize, hfixed]
  simp only [take_fixedPart, not_true_eq_false, if_false, hversion, htype, hflags, hcompression, hencryption, entryTypeFromU8_toU8,
    compressionFromU8_toU8, fixedPart_hashAlgo, UInt16.ofNat_toNat, HashAlgorithm.fromU16_toU16, hhash, fixedPart_keyLength hfits,
    fixedPart_valueLength hfits, fixedPart_timestamp, fixedPart_totalLength hfits, UInt64.ofNat_toNat, ne_eq]
  rfl

end EntryHeader

variable {blake3 : Blake3} {f : ByteFile} {p : ℕ} {e : ScannedEntry}

lemma wellFormed_write (f : ByteFile) (p : ℕ) {h : EntryHeader} {key value : List UInt8} (hfits : h.Fits) (hkey : key.length = h.keyLength)
    (hvalue : value.length = h.valueLength) (htotal : h.totalLength = h.headerSize + (h.keyLength + h.valueLength))
    (hverify : h.verify blake3 key value = true) : WellFormed blake3 (f.write p (h.serialize ++ key ++ value)) ⟨p, h, key, value⟩ := by
  have hserial := length_serialize hfits
  have hlength : (h.serialize ++ key ++ value).length = h.headerSize + h.keyLength + h.valueLength := by
    rw [length_append, length_append, hserial, hkey, hvalue]
  have hheader : h.headerSize = fixedHeaderSize + h.hashAlgo.hashLength := rfl
  have hread : ∀ k n, k + n ≤ (h.serialize ++ key ++ value).length →
      (f.write p (h.serialize ++ key ++ value)).readExact (p + k) n = some (((h.serialize ++ key ++ value).drop k).take n) := by
    intro k n hk
    apply readExact_write_part f p hk
    rw [hlength, hheader, fixedHeaderSize]
    omega
  refine ⟨deserialize_of_bytes hfits ?_ ?_, htotal, ?_, ?_, hverify⟩
  · refine (hread 0 fixedHeaderSize (by omega)).trans (congrArg some ?_)
    rw [drop_zero, serialize, append_assoc, append_assoc, take_left' (length_fixedPart h)]
  · refine (hread fixedHeaderSize h.hashAlgo.hashLength (by omega)).trans (congrArg some ?_)
    rw [serialize, append_assoc, append_assoc, drop_left' (length_fixedPart h),
      take_left' hfits.hash]
  · refine (hread h.headerSize h.keyLength (by omega)).trans (congrArg some ?_)
    rw [append_assoc, drop_left' hserial, take_left' hkey]
  · have hlast := hread (h.headerSize + h.keyLength) h.valueLength hlength.ge
    rw [← Nat.add_assoc] at hlast
    refine hlast.trans (congrArg some ?_)
    rw [drop_left' (by rw [length_append, hserial, hkey]), take_of_length_le hvalue.le]

lemma WellFormed.entryEnd_le (h : WellFormed blake3 f e) : e.entryEnd ≤ f.size := by
  have hvalue := (ByteFile.readExact_eq_some.mp h.value).1
  rw [ScannedEntry.entryEnd, h.length]
  omega

lemma WellFormed.of_write (h : WellFormed blake3 f e) {bytes : List UInt8} (hapart : e.entryEnd ≤ p ∨ p + bytes.length ≤ e.offset) :
    WellFormed blake3 (f.write p bytes) e := by
  have hend := h.entryEnd_le
  have hsize := f.size_le_write p bytes
  refine h.congr fun offset length hstart hlength => ?_
  rw [ByteFile.readExact, ByteFile.readExact, if_pos (by omega), if_pos (by omega)]
  congr 1
  apply region_congr
  intro i hi
  rcases hapart with hbefore | hbehind
  · exact data_write_of_lt f bytes (by omega)
  · exact data_write_of_ge f bytes (by omega)

end AeorDb.Wal
