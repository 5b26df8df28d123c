import AeorDb.Wal.IndexBlock

/-! The bytes of the hot tail. Its checksum covers the header only. -/

namespace AeorDb.Wal

open Library Store Header Index List

section

def writeRecordVersion : UInt8 := 1

def voidRecordVersion : UInt8 := 1

def writeRecordBytes (hashLength : ℕ) (x : KVEntry Key) : List UInt8 :=
  writeRecordVersion :: (fixedBytes hashLength x.hash ++ x.typeFlags :: (leBytes 8 x.offset ++ leBytes 4 x.totalLength))

def voidRecordBytes (v : VoidRecord) : List UInt8 := voidRecordVersion :: (leBytes 8 v.offset ++ leBytes 4 v.size)

-- the counts are cut off at 32 bits
def hotTailCounts (p : HotTailPayload Key) : List UInt8 :=
  hotTailMagic ++ hotTailFormatVersion :: (leBytes 4 p.writes.length ++ leBytes 4 p.voids.length)

variable (crc32 : Crc32)

def hotTailHeader (p : HotTailPayload Key) : List UInt8 := hotTailCounts p ++ leBytes 4 (crc32 (hotTailCounts p)).toNat

def hotTailRecords (hashLength : ℕ) (p : HotTailPayload Key) : List UInt8 :=
  p.writes.flatMap (writeRecordBytes hashLength) ++ p.voids.flatMap voidRecordBytes

def serializeHotTail (p : HotTailPayload Key) (hashLength : ℕ) : List UInt8 := hotTailHeader crc32 p ++ hotTailRecords hashLength p

def readWriteRecord (hashLength : ℕ) (data : List UInt8) : KVEntry Key :=
  ⟨data.getD (1 + hashLength) 0, (data.drop 1).take hashLength, littleEndian data (1 + hashLength + 1) 8,
    littleEndian data (1 + hashLength + 9) 4⟩

def readVoidRecord (data : List UInt8) : VoidRecord := ⟨littleEndian data 1 8, littleEndian data 9 4⟩

def deserializeHotTail (data : List UInt8) (hashLength : ℕ) : Option (HotTailPayload Key) :=
  if data.length < hotTailHeaderSize then none
  else if data.take 5 ≠ hotTailMagic then none
  else if data.getD 5 0 ≠ hotTailFormatVersion then none
  else if littleEndian data 14 4 ≠ (crc32 (data.take 14)).toNat then none
  else
    let writeCount := littleEndian data 6 4
    let voidCount := littleEndian data 10 4
    let writesSize := writeCount * writeRecordSize hashLength
    if data.length < hotTailHeaderSize + writesSize + voidCount * voidRecordSize then none
    else
      let records := data.drop hotTailHeaderSize
      some ⟨readMany (readWriteRecord hashLength) (writeRecordSize hashLength) writeCount records,
        readMany readVoidRecord voidRecordSize voidCount (records.drop writesSize)⟩

variable {crc32} {p : HotTailPayload Key} {hashLength : ℕ} {pre : List UInt8}

lemma littleEndian_append {position : ℕ} (hpre : pre.length = position) (width k : ℕ) (rest : List UInt8) :
    littleEndian (pre ++ (leBytes width k ++ rest)) position width = k % 256 ^ width := by
  rw [littleEndian, drop_left' hpre, take_left' (length_leBytes width k), leValue_leBytes]

lemma littleEndian_append_of_lt {position width k : ℕ} (hpre : pre.length = position) (hk : k < 2 ^ (8 * width))
    (rest : List UInt8) : littleEndian (pre ++ (leBytes width k ++ rest)) position width = k := by
  rw [littleEndian_append hpre, Nat.mod_eq_of_lt]
  rwa [pow_mul] at hk

lemma length_hotTailCounts (p : HotTailPayload Key) : (hotTailCounts p).length = 14 := by simp [hotTailCounts, hotTailMagic]

lemma length_hotTailHeader (p : HotTailPayload Key) : (hotTailHeader crc32 p).length = hotTailHeaderSize := by
  simp [hotTailHeader, length_hotTailCounts, hotTailHeaderSize]

lemma length_writeRecordBytes (x : KVEntry Key) : (writeRecordBytes hashLength x).length = writeRecordSize hashLength := by
  simp [writeRecordBytes, writeRecordSize]
  omega

lemma length_voidRecordBytes (v : VoidRecord) : (voidRecordBytes v).length = voidRecordSize := by
  simp [voidRecordBytes, voidRecordSize]

lemma length_hotTailRecords (p : HotTailPayload Key) :
    (hotTailRecords hashLength p).length = p.writes.length * writeRecordSize hashLength + p.voids.length * voidRecordSize := by
  rw [hotTailRecords, length_append, length_flatMap_records fun x _ => length_writeRecordBytes x,
    length_flatMap_records fun v _ => length_voidRecordBytes v]

lemma writeCount_header (crc32 : Crc32) (p : HotTailPayload Key) (rest : List UInt8) :
    littleEndian (hotTailHeader crc32 p ++ rest) 6 4 = p.writes.length % 2 ^ 32 := by
  have hsplit : hotTailHeader crc32 p ++ rest = (hotTailMagic ++ [hotTailFormatVersion]) ++ (leBytes 4 p.writes.length ++
      (leBytes 4 p.voids.length ++ (leBytes 4 (crc32 (hotTailCounts p)).toNat ++ rest))) := by
    simp [hotTailHeader, hotTailCounts]
  rw [hsplit, littleEndian_append (by simp [hotTailMagic])]
  rfl

lemma voidCount_header (crc32 : Crc32) (p : HotTailPayload Key) (rest : List UInt8) :
    littleEndian (hotTailHeader crc32 p ++ rest) 10 4 = p.voids.length % 2 ^ 32 := by
  have hsplit : hotTailHeader crc32 p ++ rest = (hotTailMagic ++ hotTailFormatVersion :: leBytes 4 p.writes.length) ++
      (leBytes 4 p.voids.length ++ (leBytes 4 (crc32 (hotTailCounts p)).toNat ++ rest)) := by
    simp [hotTailHeader, hotTailCounts]
  rw [hsplit, littleEndian_append (by simp [hotTailMagic])]
  rfl

lemma deserializeHotTail_header {rest : List UInt8} (hrest : rest.length = (hotTailRecords hashLength p).length) :
    deserializeHotTail crc32 (hotTailHeader crc32 p ++ rest) hashLength =
      some ⟨readMany (readWriteRecord hashLength) (writeRecordSize hashLength) (p.writes.length % 2 ^ 32) rest,
        readMany readVoidRecord voidRecordSize (p.voids.length % 2 ^ 32)
          (rest.drop (p.writes.length % 2 ^ 32 * writeRecordSize hashLength))⟩ := by
  have hcounts : (hotTailHeader crc32 p ++ rest).take 14 = hotTailCounts p := by
    rw [hotTailHeader, append_assoc, take_left' (length_hotTailCounts p)]
  have hcrc : littleEndian (hotTailHeader crc32 p ++ rest) 14 4 = (crc32 (hotTailCounts p)).toNat := by
    rw [hotTailHeader, append_assoc, littleEndian_append_of_lt (length_hotTailCounts p) (BitVec.isLt _)]
  have hlength : (hotTailHeader crc32 p ++ rest).length = hotTailHeaderSize + (hotTailRecords hashLength p).length := by
    rw [length_append, length_hotTailHeader, hrest]
  have hfits : hotTailHeaderSize + p.writes.length % 2 ^ 32 * writeRecordSize hashLength + p.voids.length % 2 ^ 32 * voidRecordSize ≤
      hotTailHeaderSize + (hotTailRecords hashLength p).length := by
    rw [length_hotTailRecords, Nat.add_assoc]
    gcongr <;> exact Nat.mod_le _ _
  have hmagic : (hotTailHeader crc32 p ++ rest).take 5 = hotTailMagic := rfl
  have hversion : (hotTailHeader crc32 p ++ rest).getD 5 0 = hotTailFormatVersion := rfl
  rw [deserializeHotTail, if_neg (by omega), if_neg (not_not.mpr hmagic), if_neg (not_not.mpr hversion), hcrc, hcounts,
    if_neg (not_not.mpr rfl)]
  simp only [writeCount_header, voidCount_header]
  rw [if_neg (by omega), drop_left' (length_hotTailHeader p)]

structure HotTailPayload.Typed (p : HotTailPayload Key) (hashLength : ℕ) : Prop where
  writes : ∀ x ∈ p.writes, x.hash.length = hashLength ∧ x.offset < 2 ^ 64 ∧ x.totalLength < 2 ^ 32
  voids : ∀ v ∈ p.voids, v.offset < 2 ^ 64 ∧ v.size < 2 ^ 32

lemma readWriteRecord_bytes {x : KVEntry Key} (hhash : x.hash.length = hashLength) (hoffset : x.offset < 2 ^ 64)
    (hlength : x.totalLength < 2 ^ 32) (rest : List UInt8) : readWriteRecord hashLength (writeRecordBytes hashLength x ++ rest) = x := by
  have hfields : writeRecordBytes hashLength x ++ rest =
      writeRecordVersion :: (x.hash ++ x.typeFlags :: (leBytes 8 x.offset ++ (leBytes 4 x.totalLength ++ rest))) := by
    simp [writeRecordBytes, fixedBytes_of_length hhash]
  have hflags : (writeRecordBytes hashLength x ++ rest).getD (1 + hashLength) 0 = x.typeFlags := by
    rw [hfields, Nat.add_comm, getD_cons_succ, ← hhash, getD_append_right _ _ _ _ le_rfl, Nat.sub_self]
    rfl
  have hkey : ((writeRecordBytes hashLength x ++ rest).drop 1).take hashLength = x.hash := by
    rw [hfields, drop_one, tail_cons, take_left' hhash]
  have hoffset' : littleEndian (writeRecordBytes hashLength x ++ rest) (1 + hashLength + 1) 8 = x.offset := by
    have hsplit : writeRecordBytes hashLength x ++ rest =
        (writeRecordVersion :: (x.hash ++ [x.typeFlags])) ++ (leBytes 8 x.offset ++ (leBytes 4 x.totalLength ++ rest)) := by
      rw [hfields]
      simp
    rw [hsplit, littleEndian_append_of_lt (by simp [hhash, Nat.add_comm]) hoffset]
  have hlength' : littleEndian (writeRecordBytes hashLength x ++ rest) (1 + hashLength + 9) 4 = x.totalLength := by
    have hsplit : writeRecordBytes hashLength x ++ rest =
        (writeRecordVersion :: (x.hash ++ x.typeFlags :: leBytes 8 x.offset)) ++ (leBytes 4 x.totalLength ++ rest) := by
      rw [hfields]
      simp
    rw [hsplit, littleEndian_append_of_lt (by simp [hhash]; omega) hlength]
  rw [readWriteRecord, hflags, hkey, hoffset', hlength']

lemma readVoidRecord_bytes {v : VoidRecord} (hoffset : v.offset < 2 ^ 64) (hsize : v.size < 2 ^ 32) (rest : List UInt8) :
    readVoidRecord (voidRecordBytes v ++ rest) = v := by
  have hoffset' : littleEndian (voidRecordBytes v ++ rest) 1 8 = v.offset := by
    have hsplit : voidRecordBytes v ++ rest = [voidRecordVersion] ++ (leBytes 8 v.offset ++ (leBytes 4 v.size ++ rest)) := by
      simp [voidRecordBytes]
    rw [hsplit]
    exact littleEndian_append_of_lt rfl hoffset _
  have hsize' : littleEndian (voidRecordBytes v ++ rest) 9 4 = v.size := by
    have hsplit : voidRecordBytes v ++ rest = (voidRecordVersion :: leBytes 8 v.offset) ++ (leBytes 4 v.size ++ rest) := by
      simp [voidRecordBytes]
    rw [hsplit, littleEndian_append_of_lt (by simp) hsize]
  rw [readVoidRecord, hoffset', hsize']

lemma deserialize_serializeHotTail_iff (hp : p.Typed hashLength) :
    deserializeHotTail crc32 (serializeHotTail crc32 p hashLength) hashLength = some p ↔
      p.writes.length < 2 ^ 32 ∧ p.voids.length < 2 ^ 32 := by
  rw [serializeHotTail, deserializeHotTail_header rfl]
  constructor
  · intro h
    have hpayload := Option.some.inj h
    have hwrites := congrArg (fun q => q.writes.length) hpayload
    have hvoids := congrArg (fun q => q.voids.length) hpayload
    simp only [readMany_eq_map, length_map, length_range] at hwrites hvoids
    rw [← hwrites, ← hvoids]
    exact ⟨Nat.mod_lt _ (by norm_num), Nat.mod_lt _ (by norm_num)⟩
  · rintro ⟨hwrites, hvoids⟩
    have hsplit : (hotTailRecords hashLength p).drop (p.writes.length * writeRecordSize hashLength) =
        p.voids.flatMap voidRecordBytes ++ [] := by
      rw [hotTailRecords, drop_left' (length_flatMap_records fun x _ => length_writeRecordBytes x), append_nil]
    rw [Nat.mod_eq_of_lt hwrites, Nat.mod_eq_of_lt hvoids, hsplit, hotTailRecords,
      readMany_flatMap (fun x _ => length_writeRecordBytes x) fun x hx => readWriteRecord_bytes (hp.writes x hx).1 (hp.writes x hx).2.1
        (hp.writes x hx).2.2,
      readMany_flatMap (fun v _ => length_voidRecordBytes v) fun v hv => readVoidRecord_bytes (hp.voids v hv).1 (hp.voids v hv).2]

structure TornRecords (crc32 : Crc32) (p : HotTailPayload Key) (hashLength : ℕ) (d : List UInt8) : Prop where
  length : d.length = (serializeHotTail crc32 p hashLength).length
  header : d.take hotTailHeaderSize = hotTailHeader crc32 p
  torn : d ≠ serializeHotTail crc32 p hashLength

lemma TornRecords.deserialize_ne_none {d : List UInt8} (h : TornRecords crc32 p hashLength d) : deserializeHotTail crc32 d hashLength ≠ none := by
  have hsplit : d = hotTailHeader crc32 p ++ d.drop hotTailHeaderSize := by rw [← h.header, take_append_drop]
  have hrest : (d.drop hotTailHeaderSize).length = (hotTailRecords hashLength p).length := by
    rw [length_drop, h.length, serializeHotTail, length_append, length_hotTailHeader, Nat.add_sub_cancel_left]
  rw [hsplit, deserializeHotTail_header hrest]
  exact Option.some_ne_none _

lemma exists_tornRecords (hne : hotTailRecords hashLength p ≠ []) : ∃ d, TornRecords crc32 p hashLength d := by
  obtain ⟨b, records, hrecords⟩ := exists_cons_of_ne_nil hne
  refine ⟨hotTailHeader crc32 p ++ (b + 1) :: records, ?_, take_left' (length_hotTailHeader p), ?_⟩
  · rw [serializeHotTail, hrecords, length_append, length_append, length_cons, length_cons]
  · rw [serializeHotTail, hrecords]
    intro heq
    have hb := (List.cons.inj (append_cancel_left heq)).1
    simp at hb

lemma hotTailRecords_eq_nil : hotTailRecords hashLength p = [] ↔ p.writes = [] ∧ p.voids = [] := by
  rw [← length_eq_zero_iff, length_hotTailRecords, ← length_eq_zero_iff, ← length_eq_zero_iff, Nat.add_eq_zero_iff,
    Nat.mul_eq_zero, Nat.mul_eq_zero]
  simp [writeRecordSize, voidRecordSize]

lemma littleEndian_append_left {header : List UInt8} {position width : ℕ} (h : position + width ≤ header.length) (body : List UInt8) :
    littleEndian (header ++ body) position width = littleEndian header position width := by
  rw [littleEndian, littleEndian, drop_append_of_le_length (by omega), take_append_of_le_length (by rw [length_drop]; omega)]

def writeHotTail (crc32 : Crc32) (f : ByteFile) (offset : ℕ) (p : HotTailPayload Key) (hashLength : ℕ) : ByteFile :=
  f.write offset (serializeHotTail crc32 p hashLength)

end

def writtenTail : HotTailPayload Key := ⟨[⟨0, List.replicate 32 7, 1024, 95⟩], []⟩

def tornTail : HotTailPayload Key := ⟨[⟨0, List.replicate 32 7, 4096, 95⟩], []⟩

end AeorDb.Wal
