import AeorDb.Header.Repair
import AeorDb.Wal.IndexBlock

/-! Opening a database file: the index is taken from the pages and the hot tail, or rebuilt from the log. -/

namespace AeorDb.Wal

open Library Store Index

open Header (Crc32 fileHeaderSize openHeader)

structure DiskFormat where
  crc32 : Crc32
  blake3 : Blake3
  hs : Hasher Key
  decodeDeletion : List UInt8 → UInt8 → Option Str
  bucketFor : Key → ℕ → ℕ

inductive StartupError where
  | ioError
  | invalidEntryVersion (version : UInt8)
  | header (error : Header.RepairError)
  | pendingExpansion
  | noIndexBlock
  deriving DecidableEq

def currentKvBlockVersion : UInt8 := 1

structure OpenedIndex where
  pages : List (List UInt8)
  writeBuffer : Entries Key
  needsRebuild : Bool

structure OpenedEngine where
  file : ByteFile
  walStart : ℕ
  walEnd : ℕ
  lookup : Key → Option (KVEntry Key)

def OpenedEngine.getEntry (e : OpenedEngine) (k : Key) : Except ReadError (Option EntryData) :=
  match e.lookup k with
  | none => .ok none
  | some x =>
    if validReusableRange x.offset x.totalLength e.walStart e.walEnd then (readEntryAtShared e.file x.offset).map some
    else .error (.outsideWal e.walStart e.walEnd)

namespace DiskFormat

variable (fmt : DiskFormat) (f : ByteFile) (h : Header.FileHeader)

def walStart : ℕ := h.kvBlockOffset.toNat + h.kvBlockLength.toNat

def hotTail : Option (HotTailPayload Key) := readHotTail fmt.crc32 f h.hotTailOffset.toNat h.hashAlgo.hashLength

def bucketCount : ℕ :=
  (stageParams (min h.kvBlockStage.toNat (kvStageSizes.length - 1)) (pageSize h.hashAlgo.hashLength)).2

def pages : Option (List (List UInt8)) :=
  (List.range (bucketCount h)).mapM fun bucket =>
    f.readExact (h.kvBlockOffset.toNat + bucket * pageSize h.hashAlgo.hashLength) (pageSize h.hashAlgo.hashLength)

def corrupt (page : List UInt8) : Bool := (deserializePage fmt.crc32 page h.hashAlgo.hashLength).toOption.isNone

def pageEntries (page : List UInt8) : List (KVEntry Key) :=
  (deserializePage fmt.crc32 page h.hashAlgo.hashLength).toOption.getD []

def maskVoided (voids : List VoidRecord) (buffer : Entries Key) (x : KVEntry Key) : Entries Key :=
  if buffer.contains x.hash then buffer
  else if HotIndex.entryOverlapsVoidRanges (HotIndex.buildMergedVoidRanges voids) x then buffer.insert (HotIndex.markedDeleted x)
  else buffer

def openedIndex (pages : List (List UInt8)) (writes : List (KVEntry Key)) (voids : List VoidRecord) : OpenedIndex where
  pages := pages
  writeBuffer := (pages.flatMap (fmt.pageEntries h)).foldl (maskVoided voids) (Table.empty.insertAll writes)
  needsRebuild := pages.any (fmt.corrupt h)

def openKv (writes : List (KVEntry Key)) (voids : List VoidRecord) : Except StartupError OpenedIndex :=
  if h.kvBlockVersion ≠ currentKvBlockVersion then .error (.invalidEntryVersion h.kvBlockVersion)
  else
    match pages f h with
    | none => .error .ioError
    | some pages => .ok (fmt.openedIndex h pages writes voids)

def lookup (kv : OpenedIndex) (k : Key) : Option (KVEntry Key) :=
  match kv.writeBuffer.get k with
  | some x => if x.isDeleted then none else some x
  | none => (kv.pages[fmt.bucketFor k kv.pages.length]?).bind fun page => findEntryInPageData fmt.crc32 page h.hashAlgo.hashLength k

def scanRange (headerEnd : ℕ) : ℕ × ℕ :=
  if 0 < h.kvBlockOffset.toNat ∧ 0 < h.kvBlockLength.toNat then
    if h.kvBlockOffset.toNat = headerEnd then (walStart h, f.size) else (headerEnd, h.kvBlockOffset.toNat)
  else (headerEnd, f.size)

def scanRebuildEntries (start limit : ℕ) : List ScannedRebuildEntry :=
  ((Turn.scan (nextRebuildEntry fmt.blake3 f limit true) (limit - start + 1) start).getD []).filterMap Except.toOption

def order (e : ScannedRebuildEntry) : RebuildOrder := ⟨e.header.timestamp.toInt, e.offset⟩

def toRecord (e : ScannedRebuildEntry) : RebuildKvRecord Key :=
  ⟨toKvType e.header.entryType, e.key, e.offset, e.header.valueLength, e.header.totalLength, order e⟩

def toDeletion (e : ScannedRebuildEntry) : Option (Str × RebuildOrder) :=
  if e.header.entryType = .deletionRecord then
    (e.value.bind fun value => fmt.decodeDeletion value e.header.entryVersion).map fun path => (path, order e)
  else none

def resolved (entries : List ScannedRebuildEntry) : RebuildKvRecords Key :=
  resolveRebuildRecords fmt.hs (entries.map toRecord) (entries.filterMap fmt.toDeletion)

def maxEnd (entries : List ScannedRebuildEntry) : ℕ := (entries.map fun e => e.offset + e.header.totalLength).max?.getD 0

def rebuildKv (entries : List ScannedRebuildEntry) : OpenedEngine where
  file := f
  walStart := walStart h
  walEnd := max h.hotTailOffset.toNat (maxEnd entries)
  lookup k := (((fmt.resolved entries).get k).map RebuildKvRecord.toKvEntry).filter fun x => !x.isDeleted

def loadedVoids : List VoidRecord :=
  (((fmt.hotTail f h).map HotTailPayload.voids).getD []).filter fun v =>
    validReusableRange v.offset v.size (walStart h) h.hotTailOffset.toNat

def loadedWrites : List (KVEntry Key) := ((fmt.hotTail f h).map HotTailPayload.writes).getD []

def startEngine (headerEnd : ℕ) (kv : OpenedIndex) : OpenedEngine :=
  if (fmt.hotTail f h).isNone || kv.needsRebuild then
    let range := scanRange f h headerEnd
    fmt.rebuildKv f h (fmt.scanRebuildEntries f range.1 range.2)
  else ⟨f, walStart h, h.hotTailOffset.toNat, fmt.lookup h kv⟩

/-- A file whose index block is to be expanded, and one without such a block, are left out: both errors stand for code that goes on. -/
def openAt (headerEnd : ℕ) : Except StartupError OpenedEngine :=
  if h.kvBlockStage < h.resizeTargetStage then .error .pendingExpansion
  else if h.kvBlockOffset.toNat = 0 ∨ h.hotTailOffset.toNat ≤ h.kvBlockOffset.toNat then .error .noIndexBlock
  else (fmt.openKv f h (fmt.loadedWrites f h) (fmt.loadedVoids f h)).map (fmt.startEngine f h headerEnd)

def openInternal : Except StartupError OpenedEngine := do
  let (header, _) ← (openHeader fmt.crc32 f).mapError .header
  fmt.openAt f header (2 * fileHeaderSize)

variable {fmt f h} {headerEnd : ℕ} {e : OpenedEngine}

lemma openAt_eq_ok : fmt.openAt f h headerEnd = .ok e ↔
    h.resizeTargetStage ≤ h.kvBlockStage ∧ 0 < h.kvBlockOffset.toNat ∧ h.kvBlockOffset.toNat < h.hotTailOffset.toNat ∧
      h.kvBlockVersion = currentKvBlockVersion ∧
      ∃ ps, pages f h = some ps ∧ fmt.startEngine f h headerEnd (fmt.openedIndex h ps (fmt.loadedWrites f h) (fmt.loadedVoids f h)) = e := by
  rw [openAt]
  by_cases hpending : h.kvBlockStage < h.resizeTargetStage
  · rw [if_pos hpending]
    refine iff_of_false (by simp) ?_
    rintro ⟨hsettled, -⟩
    exact absurd hpending (UInt8.not_lt.mpr hsettled)
  have hsettled : h.resizeTargetStage ≤ h.kvBlockStage := UInt8.not_lt.mp hpending
  rw [if_neg hpending]
  by_cases hblock : h.kvBlockOffset.toNat = 0 ∨ h.hotTailOffset.toNat ≤ h.kvBlockOffset.toNat
  · rw [if_pos hblock]
    refine iff_of_false (by simp) ?_
    rintro ⟨-, hpos, hlt, -⟩
    omega
  · have hpos : 0 < h.kvBlockOffset.toNat := by omega
    have hlt : h.kvBlockOffset.toNat < h.hotTailOffset.toNat := by omega
    rw [if_neg hblock, openKv]
    by_cases hversion : h.kvBlockVersion = currentKvBlockVersion
    · rw [if_neg (not_not.mpr hversion)]
      cases hpages : pages f h with
      | none => simp [Except.map]
      | some ps => simp [Except.map, hsettled, hpos, hlt, hversion]
    · rw [if_pos hversion]
      simp [Except.map, hversion]

end DiskFormat

end AeorDb.Wal
