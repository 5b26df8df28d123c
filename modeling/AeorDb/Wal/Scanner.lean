import AeorDb.Header.FileHeader
import AeorDb.Library.Scan
import AeorDb.Wal.Expansion

/-! The scan of the log for its entries. -/

namespace AeorDb.Wal

open Library Store Header

inductive CompressionAlgorithm where
  | none | zstd
  deriving DecidableEq

namespace CompressionAlgorithm

def fromU8 (value : UInt8) : Option CompressionAlgorithm :=
  if value = 0 then some .none else if value = 1 then some .zstd else Option.none

end CompressionAlgorithm

def entryTypeToU8 : EntryType → UInt8
  | .chunk => 1
  | .fileRecord => 2
  | .directoryIndex => 3
  | .deletionRecord => 4
  | .snapshot => 5
  | .void => 6
  | .fork => 7
  | .symlink => 8

def entryTypeFromU8 (value : UInt8) : Option EntryType :=
  if value = 1 then some .chunk
  else if value = 2 then some .fileRecord
  else if value = 3 then some .directoryIndex
  else if value = 4 then some .deletionRecord
  else if value = 5 then some .snapshot
  else if value = 6 then some .void
  else if value = 7 then some .fork
  else if value = 8 then some .symlink
  else none

structure EntryHeader where
  entryVersion : UInt8
  entryType : EntryType
  flags : UInt8
  hashAlgo : HashAlgorithm
  compressionAlgo : CompressionAlgorithm
  encryptionAlgo : UInt8
  keyLength : ℕ
  valueLength : ℕ
  timestamp : Int64
  totalLength : ℕ
  hash : List UInt8
  deriving DecidableEq

def EntryHeader.headerSize (h : EntryHeader) : ℕ := fixedHeaderSize + h.hashAlgo.hashLength

inductive EntryError where
  | unexpectedEof
  | invalidMagic
  | invalidEntryType (value : UInt8)
  | invalidHashAlgorithm (value : UInt16)
  | invalidCompression (value : UInt8)
  deriving DecidableEq

inductive Reason where
  | corruptHeader (error : EntryError)
  | exceedsTotalLength (keyLength valueLength totalLength : ℕ)
  | notTotalLength (keyLength valueLength headerSize totalLength : ℕ)
  | pastScanEnd (entryEnd fileLength : ℕ)
  | ioKey
  | ioValue
  | hashVerificationFailed
  deriving DecidableEq

structure CorruptEntry where
  offset : ℕ
  reason : Reason
  deriving DecidableEq

structure ScannedEntry where
  offset : ℕ
  header : EntryHeader
  key : List UInt8
  value : List UInt8
  deriving DecidableEq

structure ScannedRebuildEntry where
  offset : ℕ
  header : EntryHeader
  key : List UInt8
  value : Option (List UInt8)
  deriving DecidableEq

def littleEndian (bytes : List UInt8) (position width : ℕ) : ℕ := leValue ((bytes.drop position).take width)

def EntryHeader.deserialize (f : ByteFile) (p : ℕ) : Except EntryError EntryHeader :=
  match f.readExact p fixedHeaderSize with
  | none => .error .unexpectedEof
  | some fixed =>
    if fixed.take 4 ≠ entryMagic then .error .invalidMagic
    else
      match entryTypeFromU8 (fixed.getD 5 0) with
      | none => .error (.invalidEntryType (fixed.getD 5 0))
      | some entryType =>
        let hashAlgoRaw := UInt16.ofNat (littleEndian fixed 7 2)
        match HashAlgorithm.fromU16 hashAlgoRaw with
        | none => .error (.invalidHashAlgorithm hashAlgoRaw)
        | some hashAlgo =>
          match CompressionAlgorithm.fromU8 (fixed.getD 9 0) with
          | none => .error (.invalidCompression (fixed.getD 9 0))
          | some compressionAlgo =>
            match f.readExact (p + fixedHeaderSize) hashAlgo.hashLength with
            | none => .error .unexpectedEof
            | some hash =>
              .ok ⟨fixed.getD 4 0, entryType, fixed.getD 6 0, hashAlgo, compressionAlgo, fixed.getD 10 0, littleEndian fixed 11 4,
                littleEndian fixed 15 4, (UInt64.ofNat (littleEndian fixed 19 8)).toInt64, littleEndian fixed 27 4, hash⟩

abbrev Blake3 := List UInt8 → List UInt8

def EntryHeader.verify (blake3 : Blake3) (h : EntryHeader) (key value : List UInt8) : Bool :=
  h.hashAlgo = .blake3_256 && blake3 (entryTypeToU8 h.entryType :: (key ++ value)) = h.hash

def maxScan : ℕ := 1048576

def plausibleAt (f : ByteFile) (fileLength candidate : ℕ) : Bool :=
  match EntryHeader.deserialize f candidate with
  | .error _ => false
  | .ok header => header.totalLength ≤ fileLength - candidate && 0 < header.totalLength

def scanForNextMagic (f : ByteFile) (fileLength start : ℕ) : Option ℕ :=
  let windowSize := min (start + maxScan) fileLength - start
  if windowSize < 4 then none
  else
    let bufferLength := min windowSize (f.size - start)
    ((List.range (bufferLength - 3)).map (start + ·)).find? fun candidate =>
      f.region candidate 4 = entryMagic && plausibleAt f fileLength candidate

def passOver {α : Type} (report : Bool) (offset : ℕ) (reason : Reason) (position : ℕ) : Turn (Except CorruptEntry α) :=
  if report then .yield (.error ⟨offset, reason⟩) position else .skip position

section

variable (blake3 : Blake3) (f : ByteFile) (fileLength : ℕ) (report : Bool)

def passHeader {α : Type} (p : ℕ) (error : EntryError) : Turn (Except CorruptEntry α) :=
  if error = .unexpectedEof then .stop
  else
    match scanForNextMagic f fileLength (p + 1) with
    | none => .stop
    | some q => passOver report p (.corruptHeader error) q

def nextEntry (p : ℕ) : Turn (Except CorruptEntry ScannedEntry) :=
  if fileLength ≤ p then .stop
  else
    match EntryHeader.deserialize f p with
    | .error error => passHeader f fileLength report p error
    | .ok header =>
      let entryEnd := p + header.totalLength
      if header.totalLength - header.headerSize < header.keyLength + header.valueLength then
        passOver report p (.exceedsTotalLength header.keyLength header.valueLength header.totalLength) entryEnd
      else
        match f.readExact (p + header.headerSize) header.keyLength with
        | none => passOver report p .ioKey entryEnd
        | some key =>
          match f.readExact (p + header.headerSize + header.keyLength) header.valueLength with
          | none => passOver report p .ioValue entryEnd
          | some value =>
            if header.verify blake3 key value then .yield (.ok ⟨p, header, key, value⟩) entryEnd
            else passOver report p .hashVerificationFailed entryEnd

def rebuildPayload (p : ℕ) (header : EntryHeader) : Turn (Except CorruptEntry ScannedRebuildEntry) :=
  let entryEnd := p + header.totalLength
  match f.readExact (p + header.headerSize) header.keyLength with
  | none => passOver report p .ioKey entryEnd
  | some key =>
    if header.entryType = .chunk ∨ header.entryType = .void then .yield (.ok ⟨p, header, key, none⟩) entryEnd
    else
      match f.readExact (p + header.headerSize + header.keyLength) header.valueLength with
      | none => passOver report p .ioValue entryEnd
      | some value =>
        if header.verify blake3 key value then .yield (.ok ⟨p, header, key, some value⟩) entryEnd
        else passOver report p .hashVerificationFailed entryEnd

def nextRebuildEntry (p : ℕ) : Turn (Except CorruptEntry ScannedRebuildEntry) :=
  if fileLength ≤ p then .stop
  else
    match EntryHeader.deserialize f p with
    | .error error => passHeader f fileLength report p error
    | .ok header =>
      let entryEnd := p + header.totalLength
      if header.totalLength ≠ header.headerSize + (header.keyLength + header.valueLength) then
        passOver report p (.notTotalLength header.keyLength header.valueLength header.headerSize header.totalLength)
          (p + max header.totalLength 1)
      else if fileLength < entryEnd then
        if report then .yield (.error ⟨p, .pastScanEnd entryEnd fileLength⟩) fileLength else .stop
      else rebuildPayload blake3 f report p header

end

variable {blake3 : Blake3} {f : ByteFile} {fileLength p q : ℕ} {report : Bool} {header : EntryHeader}

def ZeroLength (f : ByteFile) (p : ℕ) : Prop := ∃ header, EntryHeader.deserialize f p = .ok header ∧ header.totalLength = 0

lemma position_passOver {α : Type} (report : Bool) (offset : ℕ) (reason : Reason) (q : ℕ) :
    (passOver report offset reason q : Turn (Except CorruptEntry α)).position? = some q := by
  cases report <;> rfl

lemma le_of_scanForNextMagic {start : ℕ} (h : scanForNextMagic f fileLength start = some q) : start ≤ q := by
  rw [scanForNextMagic] at h
  split_ifs at h
  obtain ⟨i, -, rfl⟩ := List.mem_map.mp (List.mem_of_find?_eq_some h)
  exact Nat.le_add_right _ _

lemma lt_of_passHeader {α : Type} {error : EntryError}
    (h : (passHeader f fileLength report p error : Turn (Except CorruptEntry α)).position? = some q) : p < q := by
  rw [passHeader] at h
  split_ifs at h
  · cases h
  · cases hscan : scanForNextMagic f fileLength (p + 1) with
    | none =>
      rw [hscan] at h
      cases h
    | some q' =>
      rw [hscan, position_passOver] at h
      exact Option.some.inj h ▸ le_of_scanForNextMagic hscan

lemma position_nextEntry (hp : p < fileLength) (hheader : EntryHeader.deserialize f p = .ok header) :
    (nextEntry blake3 f fileLength report p).position? = some (p + header.totalLength) := by
  rw [nextEntry, if_neg (not_le.mpr hp), hheader]
  dsimp only
  split_ifs
  · exact position_passOver ..
  · split
    · exact position_passOver ..
    · split
      · exact position_passOver ..
      · split_ifs
        · rfl
        · exact position_passOver ..

lemma nextEntry_forward (hzero : ¬ ZeroLength f p) (h : (nextEntry blake3 f fileLength report p).position? = some q) : p < q := by
  by_cases hp : p < fileLength
  · cases hheader : EntryHeader.deserialize f p with
    | error error =>
      rw [nextEntry, if_neg (not_le.mpr hp), hheader] at h
      exact lt_of_passHeader h
    | ok header =>
      rw [position_nextEntry hp hheader] at h
      have hpos : header.totalLength ≠ 0 := fun h0 => hzero ⟨header, hheader, h0⟩
      cases h
      omega
  · rw [nextEntry, if_pos (not_lt.mp hp)] at h
    cases h

lemma position_rebuildPayload : (rebuildPayload blake3 f report p header).position? = some (p + header.totalLength) := by
  rw [rebuildPayload]
  split
  · exact position_passOver ..
  · split_ifs
    · rfl
    · split
      · exact position_passOver ..
      · split_ifs
        · rfl
        · exact position_passOver ..

lemma nextRebuildEntry_forward (h : (nextRebuildEntry blake3 f fileLength report p).position? = some q) : p < q := by
  rw [nextRebuildEntry] at h
  by_cases hp : fileLength ≤ p
  · rw [if_pos hp] at h
    cases h
  · rw [if_neg hp] at h
    cases hheader : EntryHeader.deserialize f p with
    | error error =>
      rw [hheader] at h
      exact lt_of_passHeader h
    | ok header =>
      rw [hheader] at h
      dsimp only at h
      by_cases hlength : header.totalLength = header.headerSize + (header.keyLength + header.valueLength)
      · rw [if_neg (not_not.mpr hlength)] at h
        by_cases hend : fileLength < p + header.totalLength
        · rw [if_pos hend] at h
          cases report with
          | false => cases h
          | true =>
            cases h
            exact not_le.mp hp
        · -- the lengths add up, so the entry has at least the length of its header
          have hsize : 0 < header.headerSize := Nat.add_pos_left (by decide) _
          rw [if_neg hend, position_rebuildPayload] at h
          cases h
          omega
      · rw [if_pos hlength, position_passOver] at h
        cases h
        omega

lemma nextEntry_stop (hp : fileLength ≤ p) : nextEntry blake3 f fileLength report p = .stop := if_pos hp

lemma nextRebuildEntry_stop (hp : fileLength ≤ p) : nextRebuildEntry blake3 f fileLength report p = .stop := if_pos hp

/-- Every call of the scanner that returns an item moves forward and every scan ends, exactly when no header in the log says
that its entry has no length. -/
theorem scanner_progress_iff (blake3 : Blake3) (f : ByteFile) (start fileLength : ℕ) :
    (∀ report p, start ≤ p → Turn.Progress (nextEntry blake3 f fileLength report) fileLength p ∧
        Turn.Progress (nextRebuildEntry blake3 f fileLength report) fileLength p) ↔
      ∀ p, start ≤ p → p < fileLength → ¬ ZeroLength f p := by
  constructor
  · rintro hprogress p hstart hp ⟨header, hheader, hzero⟩
    have hstays : (nextEntry blake3 f fileLength true p).position? = some (p + header.totalLength) := position_nextEntry hp hheader
    rw [hzero, Nat.add_zero] at hstays
    exact Turn.not_progress_of_stays hstays (hprogress true p hstart).1
  · intro hzero report p hstart
    refine ⟨Turn.progress ?_ (fun _ => nextEntry_stop) hstart,
      Turn.progress (fun _ _ _ => nextRebuildEntry_forward) (fun _ => nextRebuildEntry_stop) hstart⟩
    intro p q hp hq
    refine nextEntry_forward (hzero p hp ?_) hq
    by_contra hend
    rw [nextEntry_stop (not_lt.mp hend)] at hq
    cases hq

def zeroLengthHeader : List UInt8 :=
  entryMagic ++ [0, 2, 0, 1, 0, 0, 0] ++ [1, 0, 0, 0] ++ [0, 0, 0, 0] ++ List.replicate 8 0 ++ [0, 0, 0, 0] ++ List.replicate 32 0

def stuckFile : ByteFile := .ofBytes (zeroLengthHeader ++ [7])

theorem scanner_stuck :
    nextEntry id stuckFile 64 false 0 = .skip 0 ∧ (∀ n, Turn.scan (nextEntry id stuckFile 64 false) n 0 = none) ∧
      nextEntry id stuckFile 64 true 0 = .yield (.error ⟨0, .exceedsTotalLength 1 0 0⟩) 0 := by
  have hstays : nextEntry id stuckFile 64 false 0 = .skip 0 := by decide
  exact ⟨hstays, Turn.scan_eq_none_of_stays hstays, by decide⟩

end AeorDb.Wal
