import AeorDb.Index.Store
import AeorDb.Library.ByteFile

/-! Growing the index block online: the log entries in its way move to the end of the log. -/

namespace AeorDb.Wal

open AeorDb.Library AeorDb.Store AeorDb.Index

def entryMagic : List UInt8 := [0xDB, 0x12, 0xE0, 0x0A]

def hotTailMagic : List UInt8 := [0xAE, 0x01, 0x7D, 0xB1, 0x0D]

def fixedHeaderSize : ℕ := 31

structure VoidRecord where
  offset : ℕ
  size : ℕ
  deriving DecidableEq

structure FileHeader where
  kvBlockOffset : ℕ
  kvBlockLength : ℕ
  kvBlockStage : ℕ
  hotTailOffset : ℕ
  resizeInProgress : Bool
  resizeTargetStage : ℕ

/-- The byte formats that rest on checksums: what follows the magic of a hot tail, how one is read back, and
the void entry of a given size. -/
structure Formats (H : Type) (hashLength : ℕ) where
  hotTailBody : List (KVEntry H) → List VoidRecord → List UInt8
  readHotTailWrites : ByteFile → ℕ → List (KVEntry H)
  voidEntry : ℕ → List UInt8
  voidEntry_length : ∀ size, fixedHeaderSize + hashLength ≤ size → (voidEntry size).length = size

/-- The database file with the writer's position and the index. The file's bytes stand for the log: the
header and the bucket pages are kept beside them, and the block reads as zeros. -/
structure StorageEngine (H : Type) where
  file : ByteFile
  header : FileHeader
  currentOffset : ℕ
  kv : DiskKVStore H
  voids : List VoidRecord

def copyChunkSize : ℕ := 64 * 1024 * 1024

def copyChunks : ℕ → ByteFile → ℕ → ℕ → ℕ → EStateM.Result EngineError ByteFile Unit
  | 0, f, _, _, remaining => if remaining = 0 then .ok () f else .error (.ioError "copy_region: out of fuel") f
  | n + 1, f, readPos, writePos, remaining =>
    if remaining = 0 then .ok () f
    else
      let chunkLen := min copyChunkSize remaining
      match f.readExact readPos chunkLen with
      | none => .error (.ioError "failed to fill whole buffer") f
      | some buf => copyChunks n (f.write writePos buf) (readPos + chunkLen) (writePos + chunkLen) (remaining - chunkLen)

def copyRegion (f : ByteFile) (src dst size : ℕ) : EStateM.Result EngineError ByteFile Unit :=
  copyChunks (size / copyChunkSize + 1) f src dst size

def findMagic (f : ByteFile) (hotTailOffset : ℕ) : ℕ → ℕ → Option ℕ
  | 0, _ => none
  | n + 1, pos =>
    if pos < hotTailOffset then
      match f.readExact pos 4 with
      | none => none
      | some buf => if buf = entryMagic then some pos else findMagic f hotTailOffset n (pos + 1)
    else none

def scanLimit : ℕ := 1024 * 1024

def actualCopyEnd (f : ByteFile) (hotTailOffset newKvEnd : ℕ) : ℕ :=
  (findMagic f hotTailOffset scanLimit newKvEnd).getD newKvEnd

def validReusableRange (offset size walStart walEnd : ℕ) : Bool :=
  size ≠ 0 && walStart ≤ walEnd && walStart ≤ offset && offset + size ≤ walEnd

def adjustVoidsForExpansion (voids : List VoidRecord) (oldKvEnd relocatedEnd : ℕ) (offsetDelta : ℤ)
    (newWalStart newWalEnd : ℕ) : List VoidRecord :=
  voids.filterMap fun void =>
    let moved : Option VoidRecord :=
      if oldKvEnd ≤ void.offset ∧ void.offset + void.size ≤ relocatedEnd then
        if (void.offset : ℤ) + offsetDelta < 0 then none
        else some { void with offset := ((void.offset : ℤ) + offsetDelta).toNat }
      else if void.offset < newWalStart then none
      else some void
    moved.filter fun v => validReusableRange v.offset v.size newWalStart newWalEnd

def sanitizePendingVoids (voids : List VoidRecord) (walStart hotTailOffset : ℕ) : List VoidRecord :=
  voids.filter fun void => void.size ≠ 0 && walStart ≤ void.offset && void.offset + void.size ≤ hotTailOffset

variable {H : Type} [DecidableEq H] (layout : Layout H)

def adjustOffset (oldKvEnd relocationEnd : ℕ) (offsetDelta : ℤ) (e : KVEntry H) : KVEntry H :=
  if oldKvEnd ≤ e.offset ∧ e.offset < relocationEnd then { e with offset := ((e.offset : ℤ) + offsetDelta).toNat }
  else e

def finalizeExpansion (s : DiskKVStore H) (targetStage oldKvEnd relocationEnd : ℕ) (offsetDelta : ℤ)
    (newHotTail : ℕ) : DiskKVStore H :=
  let (newBlockSize, newBucketCount) := stageParams targetStage (pageSize layout.hashLength)
  let all := s.iterAll layout
  let s1 :=
    { s.zeroPages newBucketCount with
      kvBlockLength := newBlockSize
      stage := targetStage
      bucketCount := newBucketCount
      hotTailOffset := newHotTail
      entryCount := 0
      writeBuffer := Table.empty
      iterations := s.iterations + 2 }
  let adjusted := all.map (adjustOffset oldKvEnd relocationEnd offsetDelta)
  let s2 := (s1.bulkInsert layout adjusted).flushNoSnapshot layout
  { { s2 with entryCount := adjusted.length }.publishFullSnapshotWithNewNvt with needsExpansion := none }

namespace StorageEngine

variable (formats : Formats H layout.hashLength)

def serializeHotTail (writes : List (KVEntry H)) (voids : List VoidRecord) : List UInt8 :=
  hotTailMagic ++ formats.hotTailBody writes voids

def oldKvEnd (e : StorageEngine H) : ℕ := e.header.kvBlockOffset + e.header.kvBlockLength

def newKvEnd (e : StorageEngine H) (targetStage : ℕ) : ℕ :=
  e.header.kvBlockOffset + (stageParams targetStage (pageSize layout.hashLength)).1

def copyEnd (e : StorageEngine H) (targetStage : ℕ) : ℕ :=
  actualCopyEnd e.file e.currentOffset (e.newKvEnd layout targetStage)

def newHotTail (e : StorageEngine H) (targetStage : ℕ) : ℕ :=
  e.currentOffset + (e.copyEnd layout targetStage - e.oldKvEnd)

/-- The file after the copy: the hot tail moves behind it, the tail of a straddling entry becomes a void, the
new pages are zeroed and the hot tail is rewritten. -/
def finalizedFile (e : StorageEngine H) (targetStage : ℕ) (copied : ByteFile) (adjusted : List VoidRecord) : ByteFile :=
  let newKvEnd := e.newKvEnd layout targetStage
  let tailSize := e.copyEnd layout targetStage - newKvEnd
  let newHotTail := e.newHotTail layout targetStage
  let writes := formats.readHotTailWrites e.file e.currentOffset
  let f1 := copied.write newHotTail (serializeHotTail layout formats writes adjusted)
  let f2 :=
    if e.copyEnd layout targetStage > newKvEnd ∧ fixedHeaderSize + layout.hashLength ≤ tailSize then
      f1.write newKvEnd (formats.voidEntry tailSize)
    else f1
  let f3 := f2.write e.kv.kvBlockOffset
    (List.replicate (stageParams targetStage (pageSize layout.hashLength)).1 0)
  let walStart := e.kv.kvBlockOffset + (stageParams targetStage (pageSize layout.hashLength)).1
  let tail := serializeHotTail layout formats [] (sanitizePendingVoids adjusted walStart newHotTail)
  (f3.write newHotTail tail).setLen (newHotTail + tail.length)

def expandKvBlockOnline (e : StorageEngine H) (targetStage : ℕ) : EStateM.Result EngineError (StorageEngine H) Unit :=
  let oldKvEnd := e.oldKvEnd
  let newKvEnd := e.newKvEnd layout targetStage
  let copyEnd := e.copyEnd layout targetStage
  -- the size of the growth zone is an unsigned difference
  if copyEnd < oldKvEnd then .error (.ioError "attempt to subtract with overflow") e
  else
    let growthZoneSize := copyEnd - oldKvEnd
    let newHotTail := e.newHotTail layout targetStage
    let offsetDelta : ℤ := (e.currentOffset : ℤ) - oldKvEnd
    let adjusted := adjustVoidsForExpansion e.voids oldKvEnd copyEnd offsetDelta newKvEnd newHotTail
    let marked := { e.header with resizeInProgress := true, resizeTargetStage := targetStage }
    match copyRegion e.file oldKvEnd e.currentOffset growthZoneSize with
    | .error err f => .error err { e with file := f, header := marked, voids := adjusted }
    | .ok _ copied =>
      .ok ()
        { file := e.finalizedFile layout formats targetStage copied adjusted
          header :=
            { e.header with
              kvBlockLength := (stageParams targetStage (pageSize layout.hashLength)).1
              kvBlockStage := targetStage
              resizeInProgress := false
              resizeTargetStage := 0
              hotTailOffset := newHotTail }
          currentOffset := newHotTail
          kv := finalizeExpansion layout e.kv targetStage oldKvEnd copyEnd offsetDelta newHotTail
          voids := adjusted }

end StorageEngine

end AeorDb.Wal
