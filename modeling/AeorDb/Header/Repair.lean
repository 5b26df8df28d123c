import AeorDb.Header.SlotLayout
import AeorDb.Header.Slots
import AeorDb.Library.ByteFile
import AeorDb.Library.Result

/-! Repair of a header that does not open: only the first slot is looked at. -/

namespace AeorDb.Header

open Library FileHeader Result Option Except ByteFile

inductive RepairError where
  | ioError
  | header (error : HeaderError)
  deriving DecidableEq

structure HotTailMismatch where
  recordedOffset : ℕ
  actualFileSize : ℕ
  bytesPastEof : ℕ
  deriving DecidableEq

structure HeaderRepairReport where
  alreadyOk : Bool := false
  badMagic : Bool := false
  upgradedVersion : Option (UInt8 × UInt8) := none
  hotTailPastEof : Option HotTailMismatch := none
  crcFailed : Bool := false
  repaired : Bool := false
  deriving DecidableEq

def HeaderRepairReport.needsRepair (report : HeaderRepairReport) : Bool :=
  report.upgradedVersion.isSome || report.hotTailPastEof.isSome || report.crcFailed

section

variable (crc32 : Crc32)

def headerVersion (bytes : List UInt8) : UInt8 := bytes.getD 4 0

def storedHotTail (bytes : List UInt8) : ℕ :=
  let hotTailPos := if 3 ≤ headerVersion bytes then 122 else 114
  leValue ((bytes.drop hotTailPos).take 8)

def inspectBytes (bytes : List UInt8) (fileSize : ℕ) : HeaderRepairReport :=
  let report : HeaderRepairReport := {
    upgradedVersion := if headerVersion bytes ≠ supportedHeaderVersion then some (headerVersion bytes, supportedHeaderVersion) else none
    crcFailed := decide (2 ≤ headerVersion bytes ∧ storedCrc bytes ≠ computedCrc crc32 bytes)
    hotTailPastEof :=
      if fileSize < storedHotTail bytes then some ⟨storedHotTail bytes, fileSize, storedHotTail bytes - fileSize⟩ else none }
  { report with alreadyOk := !report.needsRepair }

def inspectHeader (f : ByteFile) : Except RepairError HeaderRepairReport :=
  match f.readExact 0 fileHeaderSize with
  | none => .error .ioError
  | some bytes => if bytes.take 4 ≠ fileMagic then .ok { badMagic := true } else .ok (inspectBytes crc32 bytes f.size)

def withSequence (bytes : List UInt8) : List UInt8 :=
  if 3 ≤ headerVersion bytes then bytes else bytes.take 7 ++ List.replicate 8 0 ++ bytes.drop 7

def bumped (offset : UInt64) : UInt64 := if 0 < offset then offset + 256 else 0

def FileHeader.bump (h : FileHeader) : FileHeader :=
  { h with
    kvBlockOffset := bumped h.kvBlockOffset
    hotTailOffset := bumped h.hotTailOffset
    nvtOffset := bumped h.nvtOffset
    bufferKvsOffset := bumped h.bufferKvsOffset
    bufferNvtOffset := bumped h.bufferNvtOffset }

def trustedHeader (bytes : List UInt8) : Except HeaderError FileHeader :=
  let parsed := (readFields supportedHeaderVersion ((withSequence bytes).drop 5)).map Prod.fst
  if headerVersion bytes ≤ 2 then parsed.map bump else parsed

def repairedHeader (trusted : FileHeader) (needsDataShift : Bool) (report : HeaderRepairReport) : FileHeader :=
  match report.hotTailPastEof with
  | none => trusted
  | some mismatch =>
    { trusted with hotTailOffset := UInt64.ofNat (mismatch.actualFileSize + if needsDataShift then fileHeaderSize else 0) }

def shiftChunkSize : ℕ := 64 * 1024 * 1024

def shiftChunks (shift : ℕ) : ℕ → ByteFile → ℕ → Option ByteFile
  | 0, f, _ => some f
  | n + 1, f, remaining =>
    if remaining = 0 then some f
    else
      let chunkLen := min shiftChunkSize remaining
      let src := fileHeaderSize + remaining - chunkLen
      (f.readExact src chunkLen).bind fun buf => shiftChunks shift n (f.write (src + shift) buf) (remaining - chunkLen)

def shiftDataRegionForward (f : ByteFile) (shift : ℕ) : Option ByteFile :=
  let dataSize := f.size - fileHeaderSize
  shiftChunks shift (dataSize / shiftChunkSize + 1) f dataSize

def FileHeader.first (h : FileHeader) : FileHeader := { h with sequence := 1 }

def writeInitialHeaderTo (f : ByteFile) (header : FileHeader) : Except HeaderError ByteFile := do
  let bytes ← header.first.serializeChecked crc32
  return (f.write fileHeaderSize (List.replicate fileHeaderSize 0)).write 0 bytes

def moveData (f : ByteFile) (needsDataShift : Bool) : Except RepairError ByteFile :=
  if needsDataShift then (shiftDataRegionForward f fileHeaderSize).elim (.error .ioError) .ok else .ok f

def slots (f : ByteFile) : HeaderRegion
  | .a => f.region 0 fileHeaderSize
  | .b => f.region fileHeaderSize fileHeaderSize

def rewriteHeader (f : ByteFile) (report : HeaderRepairReport) : Except RepairError (ByteFile × HeaderRepairReport) := do
  let needsDataShift := decide (headerVersion (slots f .a) ≤ 2)
  let trusted ← (trustedHeader (slots f .a)).mapError .header
  let moved ← moveData f needsDataShift
  let written ← (writeInitialHeaderTo crc32 moved (repairedHeader trusted needsDataShift report)).mapError .header
  return (written, { report with repaired := true })

def repairHeaderInPlace (f : ByteFile) : Except RepairError (ByteFile × HeaderRepairReport) := do
  let report ← inspectHeader crc32 f
  if report.alreadyOk then return (f, report)
  else if report.badMagic then throw (.header .invalidMagic)
  else rewriteHeader crc32 f report

def openHeader (f : ByteFile) : Except RepairError (FileHeader × Slot) :=
  if 2 * fileHeaderSize ≤ f.size then (readActiveHeader crc32 (slots f)).mapError .header else .error .ioError

end

structure InOrder (crc32 : Crc32) (f : ByteFile) : Prop where
  version : headerVersion (slots f .a) = supportedHeaderVersion
  crc : storedCrc (slots f .a) = computedCrc crc32 (slots f .a)
  hotTail : storedHotTail (slots f .a) ≤ f.size

instance (crc32 : Crc32) (f : ByteFile) : Decidable (InOrder crc32 f) :=
  decidable_of_iff (headerVersion (slots f .a) = supportedHeaderVersion ∧ storedCrc (slots f .a) = computedCrc crc32 (slots f .a) ∧
    storedHotTail (slots f .a) ≤ f.size) ⟨fun h => ⟨h.1, h.2.1, h.2.2⟩, fun h => ⟨h.version, h.crc, h.hotTail⟩⟩

structure FileHeader.SameRoot (h h' : FileHeader) : Prop where
  head : h.headHash = h'.headHash
  offset : h.kvBlockOffset = h'.kvBlockOffset
  length : h.kvBlockLength = h'.kvBlockLength
  stage : h.kvBlockStage = h'.kvBlockStage

variable {crc32 : Crc32} {f f' : ByteFile} {report : HeaderRepairReport} {r : ByteFile × HeaderRepairReport} {h old : FileHeader} {slot : Slot}

lemma alreadyOk_inspectBytes : (inspectBytes crc32 (slots f .a) f.size).alreadyOk = true ↔ InOrder crc32 f := by
  have hversion : (2 : UInt8) ≤ supportedHeaderVersion := by decide
  simp only [inspectBytes, HeaderRepairReport.needsRepair, Bool.not_eq_true', Bool.or_eq_false_iff, isSome_eq_false_iff,
    isNone_iff_eq_none, decide_eq_false_iff_not]
  constructor
  · rintro ⟨⟨hv, ht⟩, hc⟩
    have hv' : headerVersion (slots f .a) = supportedHeaderVersion := by
      by_contra hne
      rw [if_pos hne] at hv
      cases hv
    refine ⟨hv', ?_, ?_⟩
    · rw [hv'] at hc
      exact not_not.mp fun hne => hc ⟨hversion, hne⟩
    · by_contra hlt
      rw [if_pos (not_le.mp hlt)] at ht
      cases ht
  · rintro ⟨hv, hc, ht⟩
    exact ⟨⟨if_neg (not_not.mpr hv), if_neg (not_lt.mpr ht)⟩, fun hne => hne.2 hc⟩

lemma hashesSized_of_readFields {version : UInt8} {bytes rest : List UInt8} (hread : readFields version bytes = .ok (h, rest)) :
    h.HashesSized ∧ h.headerVersion = version := by
  obtain ⟨raw, _, -, hread⟩ := Reader.bind_eq_ok.mp hread
  cases halgo : HashAlgorithm.fromU16 raw with
  | none =>
    rw [halgo] at hread
    cases hread
  | some algo =>
    rw [halgo] at hread
    iterate 9 obtain ⟨_, _, -, hread⟩ := Reader.bind_eq_ok.mp hread
    obtain ⟨head, _, hhead, hread⟩ := Reader.bind_eq_ok.mp hread
    iterate 8 obtain ⟨_, _, -, hread⟩ := Reader.bind_eq_ok.mp hread
    obtain ⟨base, _, hbase, hread⟩ := Reader.bind_eq_ok.mp hread
    obtain ⟨target, _, htarget, hread⟩ := Reader.bind_eq_ok.mp hread
    obtain ⟨rfl, -⟩ := Prod.mk.inj (ok.inj hread)
    exact ⟨⟨Reader.length_of_takeBytes hhead, Reader.length_of_takeBytes hbase, Reader.length_of_takeBytes htarget⟩, rfl⟩

variable {bytes : List UInt8} {trusted : FileHeader}

lemma hashesSized_of_trustedHeader (htrusted : trustedHeader bytes = .ok h) :
    h.HashesSized ∧ h.headerVersion = supportedHeaderVersion := by
  rw [trustedHeader] at htrusted
  split_ifs at htrusted
  · obtain ⟨parsed, hparsed, rfl⟩ := map_eq_ok.mp htrusted
    obtain ⟨⟨_, rest⟩, hread, rfl⟩ := map_eq_ok.mp hparsed
    obtain ⟨hsized, hversion⟩ := hashesSized_of_readFields hread
    exact ⟨⟨hsized.head, hsized.base, hsized.target⟩, hversion⟩
  · obtain ⟨⟨_, rest⟩, hread, rfl⟩ := map_eq_ok.mp htrusted
    exact hashesSized_of_readFields hread

lemma fits_of_written (htarget : h.targetHash.length = h.hashAlgo.hashLength) (hwrite : writeInitialHeaderTo crc32 f h = .ok f') :
    h.hashAlgo.hashLength = 32 := by
  obtain ⟨bytes, hbytes, -⟩ := bind_eq_ok.mp hwrite
  refine h.hashAlgo.hashLength_eq.resolve_right fun hlong => ?_
  have hpanic : h.first.serializeChecked crc32 = .error .outOfRange := serializeChecked_outOfRange crc32 hlong htarget
  rw [hpanic] at hbytes
  cases hbytes

lemma openHeader_written (hsized : h.HashesSized) (hversion : h.headerVersion = supportedHeaderVersion)
    (hwrite : writeInitialHeaderTo crc32 f h = .ok f') : openHeader crc32 f' = .ok (h.first, .a) := by
  have hfits : h.first.hashAlgo.hashLength = 32 := fits_of_written hsized.target hwrite
  have hvalid : h.first.Valid := ⟨hversion, hfits, hsized.head, hsized.base, hsized.target⟩
  obtain ⟨bytes, hbytes, hf'⟩ := bind_eq_ok.mp hwrite
  rw [serializeChecked_eq crc32 hfits] at hbytes
  cases hbytes
  obtain rfl := ok.inj hf'
  have hlength := length_serialize crc32 h.first
  set zeroed := f.write fileHeaderSize (List.replicate fileHeaderSize 0) with hzeroed
  have hsize : 2 * fileHeaderSize ≤ (zeroed.write 0 (h.first.serialize crc32)).size := by
    have hzeros : 0 < (List.replicate fileHeaderSize (0 : UInt8)).length := by
      rw [List.length_replicate]
      decide
    have hle := f.le_size_write fileHeaderSize hzeros
    rw [List.length_replicate] at hle
    exact hle.trans (size_le_write _ _ _)
  have ha : deserialize crc32 (slots (zeroed.write 0 (h.first.serialize crc32)) .a) = .ok h.first := by
    rw [slots, region_write _ _ hlength, deserialize_serialize crc32 hvalid]
  have hb : slots (zeroed.write 0 (h.first.serialize crc32)) .b = List.replicate fileHeaderSize 0 := by
    rw [slots, (region_congr fun i _ => data_write_of_ge _ _ (by omega)), region_write _ _ List.length_replicate]
  have hzero : deserialize crc32 (slots (zeroed.write 0 (h.first.serialize crc32)) Slot.a.other) = .error .invalidMagic := by
    rw [Slot.other, hb, deserialize_zeros]
  rw [openHeader, if_pos hsize, readActiveHeader_of_error ha hzero]
  rfl

lemma mapError_eq_ok {ε ε' α : Type} {x : Except ε α} {g : ε → ε'} {a : α} : x.mapError g = .ok a ↔ x = .ok a := by
  cases x <;> simp [Except.mapError]

lemma rewriteHeader_ok (hrewrite : rewriteHeader crc32 f report = .ok r) :
    ∃ trusted moved, trustedHeader (slots f .a) = .ok trusted ∧ moveData f (decide (headerVersion (slots f .a) ≤ 2)) = .ok moved ∧
      writeInitialHeaderTo crc32 moved (repairedHeader trusted (decide (headerVersion (slots f .a) ≤ 2)) report) = .ok r.1 := by
  obtain ⟨trusted, htrusted, hrewrite⟩ := bind_eq_ok.mp hrewrite
  obtain ⟨moved, hmoved, hrewrite⟩ := bind_eq_ok.mp hrewrite
  obtain ⟨written, hwritten, hrewrite⟩ := bind_eq_ok.mp hrewrite
  cases hrewrite
  exact ⟨trusted, moved, mapError_eq_ok.mp htrusted, hmoved, mapError_eq_ok.mp hwritten⟩

lemma repairHeaderInPlace_eq (hsize : fileHeaderSize ≤ f.size) (hmagic : (slots f .a).take 4 = fileMagic) : repairHeaderInPlace crc32 f =
      if InOrder crc32 f then .ok (f, inspectBytes crc32 (slots f .a) f.size)
      else rewriteHeader crc32 f (inspectBytes crc32 (slots f .a) f.size) := by
  have hread : f.readExact 0 fileHeaderSize = some (slots f .a) := ByteFile.readExact_eq_some.mpr ⟨by rwa [Nat.zero_add], rfl⟩
  have hinspect : inspectHeader crc32 f = .ok (inspectBytes crc32 (slots f .a) f.size) := by
    rw [inspectHeader, hread]
    exact if_neg (not_not.mpr hmagic)
  rw [repairHeaderInPlace, hinspect]
  by_cases hok : InOrder crc32 f
  · rw [if_pos hok]
    exact if_pos (alreadyOk_inspectBytes.mpr hok)
  · rw [if_neg hok]
    exact if_neg (alreadyOk_inspectBytes.not.mpr hok)

lemma repairHeaderInPlace_badMagic (hsize : fileHeaderSize ≤ f.size) (hmagic : (slots f .a).take 4 ≠ fileMagic) :
    repairHeaderInPlace crc32 f = .error (.header .invalidMagic) := by
  have hread : f.readExact 0 fileHeaderSize = some (slots f .a) := ByteFile.readExact_eq_some.mpr ⟨by rwa [Nat.zero_add], rfl⟩
  rw [repairHeaderInPlace, inspectHeader, hread]
  dsimp only
  rw [if_pos hmagic]
  rfl

lemma shiftChunks_isSome (shift n : ℕ) {remaining : ℕ} (hsize : fileHeaderSize + remaining ≤ f.size) :
    ∃ g, shiftChunks shift n f remaining = some g := by
  induction n generalizing f remaining with
  | zero => exact ⟨f, rfl⟩
  | succ n ih =>
    rw [shiftChunks]
    split_ifs with hzero
    · exact ⟨f, rfl⟩
    · have hle : min shiftChunkSize remaining ≤ remaining := Nat.min_le_right _ _
      dsimp only
      set src := fileHeaderSize + remaining - min shiftChunkSize remaining
      have hread : f.readExact src (min shiftChunkSize remaining) = some (f.region src (min shiftChunkSize remaining)) :=
        ByteFile.readExact_eq_some.mpr ⟨by omega, rfl⟩
      rw [hread, bind_some]
      apply ih
      have hgrow := f.size_le_write (src + shift) (f.region src (min shiftChunkSize remaining))
      omega

lemma moveData_ok (hsize : fileHeaderSize ≤ f.size) (needsDataShift : Bool) : ∃ moved, moveData f needsDataShift = .ok moved := by
  cases needsDataShift with
  | false => exact ⟨f, rfl⟩
  | true =>
    obtain ⟨g, hg⟩ : ∃ g, shiftDataRegionForward f fileHeaderSize = some g := shiftChunks_isSome _ _ (by omega)
    refine ⟨g, ?_⟩
    rw [moveData, if_pos rfl, hg]
    rfl

lemma sameRoot_repairedHeader (trusted : FileHeader) (needsDataShift : Bool) (report : HeaderRepairReport) (old : FileHeader) :
    (repairedHeader trusted needsDataShift report).first.SameRoot old ↔ trusted.SameRoot old := by
  rw [repairedHeader]
  cases report.hotTailPastEof with
  | none => exact ⟨fun hs => ⟨hs.head, hs.offset, hs.length, hs.stage⟩, fun hs => ⟨hs.head, hs.offset, hs.length, hs.stage⟩⟩
  | some mismatch => exact ⟨fun hs => ⟨hs.head, hs.offset, hs.length, hs.stage⟩, fun hs => ⟨hs.head, hs.offset, hs.length, hs.stage⟩⟩

lemma hashAlgo_repairedHeader (trusted : FileHeader) (needsDataShift : Bool) (report : HeaderRepairReport) :
    (repairedHeader trusted needsDataShift report).hashAlgo = trusted.hashAlgo := by
  rw [repairedHeader]
  cases report.hotTailPastEof <;> rfl

lemma hashesSized_repairedHeader (hs : trusted.HashesSized ∧ trusted.headerVersion = supportedHeaderVersion)
    (needsDataShift : Bool) (report : HeaderRepairReport) : (repairedHeader trusted needsDataShift report).HashesSized ∧
      (repairedHeader trusted needsDataShift report).headerVersion = supportedHeaderVersion := by
  rw [repairedHeader]
  cases report.hotTailPastEof with
  | none => exact hs
  | some mismatch => exact ⟨⟨hs.1.head, hs.1.base, hs.1.target⟩, hs.2⟩

lemma openHeader_rewritten (hrewrite : rewriteHeader crc32 f report = .ok r) :
    ∃ trusted, trustedHeader (slots f .a) = .ok trusted ∧ trusted.hashAlgo.hashLength = 32 ∧
      openHeader crc32 r.1 = .ok ((repairedHeader trusted (decide (headerVersion (slots f .a) ≤ 2)) report).first, .a) := by
  obtain ⟨trusted, moved, htrusted, -, hwritten⟩ := rewriteHeader_ok hrewrite
  obtain ⟨hsized, hversion⟩ := hashesSized_repairedHeader (hashesSized_of_trustedHeader htrusted)
    (decide (headerVersion (slots f .a) ≤ 2)) report
  have hfits := fits_of_written hsized.target hwritten
  rw [hashAlgo_repairedHeader] at hfits
  exact ⟨trusted, htrusted, hfits, openHeader_written hsized hversion hwritten⟩

lemma rewriteHeader_succeeds (crc32 : Crc32) (hsize : fileHeaderSize ≤ f.size) (htrusted : trustedHeader (slots f .a) = .ok trusted)
    (hfits : trusted.hashAlgo.hashLength = 32) (report : HeaderRepairReport) : ∃ r, rewriteHeader crc32 f report = .ok r := by
  obtain ⟨moved, hmoved⟩ := moveData_ok hsize (decide (headerVersion (slots f .a) ≤ 2))
  have hfits' : (repairedHeader trusted (decide (headerVersion (slots f .a) ≤ 2)) report).first.hashAlgo.hashLength = 32 := by
    rw [first, hashAlgo_repairedHeader, hfits]
  have hwrite : ∃ written, writeInitialHeaderTo crc32 moved
      (repairedHeader trusted (decide (headerVersion (slots f .a) ≤ 2)) report) = .ok written :=
    ⟨_, bind_eq_ok.mpr ⟨_, serializeChecked_eq crc32 hfits', rfl⟩⟩
  obtain ⟨written, hwritten⟩ := hwrite
  refine ⟨(written, { report with repaired := true }), bind_eq_ok.mpr ⟨trusted, mapError_eq_ok.mpr htrusted, ?_⟩⟩
  exact bind_eq_ok.mpr ⟨moved, hmoved, bind_eq_ok.mpr ⟨written, mapError_eq_ok.mpr hwritten, rfl⟩⟩

lemma trustedHeader_of_deserialize (hread : deserialize crc32 bytes = .ok h) : trustedHeader bytes = .ok h := by
  rw [deserialize] at hread
  by_cases hmagic : bytes.take 4 = fileMagic
  · rw [if_neg (not_not.mpr hmagic)] at hread
    by_cases hversion : bytes.getD 4 0 = supportedHeaderVersion
    · dsimp only at hread
      rw [if_neg (not_not.mpr hversion)] at hread
      have hthree : headerVersion bytes = 3 := hversion
      have hsequence : withSequence bytes = bytes := by
        rw [withSequence, hthree]
        exact if_pos (by decide)
      split_ifs at hread with hcrc
      rw [trustedHeader, hsequence, hthree, if_neg (by decide), ← hversion]
      exact hread
    · dsimp only at hread
      rw [if_pos hversion] at hread
      cases hread
  · rw [if_pos hmagic] at hread
    cases hread

lemma readActiveHeader_slot {file : HeaderRegion} (hread : readActiveHeader crc32 file = .ok (h, slot)) :
    deserialize crc32 (file slot) = .ok h := by
  rw [readActiveHeader] at hread
  split at hread
  · next a b ha hb =>
    split_ifs at hread
    · cases hread
      exact ha
    · cases hread
      exact hb
  · next a err ha hb =>
    cases hread
    exact ha
  · next err b ha hb =>
    cases hread
    exact hb
  · cases hread

lemma FileHeader.SameRoot.refl (h : FileHeader) : h.SameRoot h := ⟨rfl, rfl, rfl, rfl⟩

lemma openHeader_ok (hopen : openHeader crc32 f = .ok (old, slot)) :
    fileHeaderSize ≤ f.size ∧ readActiveHeader crc32 (slots f) = .ok (old, slot) := by
  rw [openHeader] at hopen
  split_ifs at hopen with hsize
  exact ⟨by omega, mapError_eq_ok.mp hopen⟩

lemma rewriteHeader_keeps_iff (hsize : fileHeaderSize ≤ f.size) (report : HeaderRepairReport) :
    (∀ r, rewriteHeader crc32 f report = .ok r → ∃ new slot', openHeader crc32 r.1 = .ok (new, slot') ∧ new.SameRoot old) ↔
      ∀ trusted, trustedHeader (slots f .a) = .ok trusted → trusted.hashAlgo.hashLength = 32 → trusted.SameRoot old := by
  constructor
  · intro hkeeps trusted htrusted hfits
    obtain ⟨r, hrewrite⟩ := rewriteHeader_succeeds crc32 hsize htrusted hfits report
    obtain ⟨trusted', htrusted', -, hopen⟩ := openHeader_rewritten hrewrite
    obtain ⟨new, slot', hnew, hroot⟩ := hkeeps r hrewrite
    obtain rfl := ok.inj (htrusted.symm.trans htrusted')
    obtain ⟨rfl, -⟩ := Prod.mk.inj (ok.inj (hopen.symm.trans hnew))
    exact (sameRoot_repairedHeader _ _ _ _).mp hroot
  · intro hsame r hrewrite
    obtain ⟨trusted, htrusted, hfits, hopen⟩ := openHeader_rewritten hrewrite
    exact ⟨_, _, hopen, (sameRoot_repairedHeader _ _ _ _).mpr (hsame trusted htrusted hfits)⟩

/-- A repair that returns keeps the newest valid header, exactly when that one is in the first slot, or the first slot is in
order, is not recognized at all, or carries the same root. -/
theorem repair_keeps_newest_iff (hopen : openHeader crc32 f = .ok (old, slot)) :
    (∀ r, repairHeaderInPlace crc32 f = .ok r → ∃ new slot', openHeader crc32 r.1 = .ok (new, slot') ∧ new.SameRoot old) ↔
      slot = .a ∨ InOrder crc32 f ∨ (slots f .a).take 4 ≠ fileMagic ∨
        ∀ trusted, trustedHeader (slots f .a) = .ok trusted → trusted.hashAlgo.hashLength = 32 → trusted.SameRoot old := by
  obtain ⟨hsize, hread⟩ := openHeader_ok hopen
  by_cases hmagic : (slots f .a).take 4 = fileMagic
  · rw [repairHeaderInPlace_eq hsize hmagic]
    by_cases hok : InOrder crc32 f
    · rw [if_pos hok]
      refine iff_of_true ?_ (Or.inr (Or.inl hok))
      intro r hrepair
      cases hrepair
      exact ⟨old, slot, hopen, .refl old⟩
    · rw [if_neg hok, rewriteHeader_keeps_iff hsize]
      constructor
      · exact fun hsame => Or.inr (Or.inr (Or.inr hsame))
      · rintro (rfl | hok' | hmagic' | hsame)
        · intro trusted htrusted _
          rw [trustedHeader_of_deserialize (readActiveHeader_slot hread)] at htrusted
          cases htrusted
          exact .refl _
        · exact absurd hok' hok
        · exact absurd hmagic hmagic'
        · exact hsame
  · refine iff_of_true ?_ (Or.inr (Or.inr (Or.inl hmagic)))
    intro r hrepair
    rw [repairHeaderInPlace_badMagic hsize hmagic] at hrepair
    cases hrepair

def headed (head : UInt8) (sequence hotTailOffset : UInt64) : FileHeader :=
  { (sampleHeader 0).1 with headHash := List.replicate 32 head, sequence, hotTailOffset }

def twoSlots (a b : FileHeader) : ByteFile := .ofBytes (a.serialize (fun _ => 0) ++ b.serialize fun _ => 0)

def newestFirst : ByteFile := twoSlots (headed 7 2 1000) (headed 5 1 512)

theorem repair_keeps_newest_newestFirst :
    openHeader (fun _ => 0) newestFirst = .ok (headed 7 2 1000, .a) ∧
    ∀ r, repairHeaderInPlace (fun _ => 0) newestFirst = .ok r →
      ∃ new slot', openHeader (fun _ => 0) r.1 = .ok (new, slot') ∧ new.SameRoot (headed 7 2 1000) := by
  have hopen : openHeader (fun _ => 0) newestFirst = .ok (headed 7 2 1000, .a) := by decide +kernel
  exact ⟨hopen, (repair_keeps_newest_iff hopen).mpr (Or.inl rfl)⟩

def newestSecond : ByteFile := twoSlots (headed 5 1 1000) (headed 7 2 512)

theorem repair_reverts_newestSecond :
    openHeader (fun _ => 0) newestSecond = .ok (headed 7 2 512, .b) ∧
    ((repairHeaderInPlace (fun _ => 0) newestSecond).toOption.map fun r => openHeader (fun _ => 0) r.1) =
      some (.ok (headed 5 1 512, .a)) := by
  decide +kernel

end AeorDb.Header
