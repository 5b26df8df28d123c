import AeorDb.Library.Table
import AeorDb.Store.Records

/-! The index: a write buffer in memory over bucket pages of fixed capacity on disk. -/

namespace AeorDb.Index

open AeorDb.Library AeorDb.Store

def kvFlagDeleted : UInt8 := 0x20

structure KVEntry (H : Type) where
  typeFlags : UInt8
  hash : H
  offset : ℕ
  totalLength : ℕ
  deriving DecidableEq

variable {H : Type}

def KVEntry.isDeleted (e : KVEntry H) : Bool := e.typeFlags &&& kvFlagDeleted ≠ 0

def KVEntry.entryType (e : KVEntry H) : UInt8 := e.typeFlags &&& 0x0F

abbrev KvTypeCounts := Fin 16 → ℕ

def typeIndex (t : UInt8) : Fin 16 :=
  ⟨(t &&& 0x0F).toNat, by rw [UInt8.toNat_and]; exact Nat.lt_succ_of_le Nat.and_le_right⟩

def kvStageSizes : List ℕ :=
  [64 * 1024, 512 * 1024, 4 * 1024 * 1024, 32 * 1024 * 1024, 128 * 1024 * 1024, 512 * 1024 * 1024,
    1024 * 1024 * 1024, 2 * 1024 * 1024 * 1024, 4 * 1024 * 1024 * 1024, 8 * 1024 * 1024 * 1024]

def bucketsForBlock (blockSize pageSize : ℕ) : ℕ := blockSize / pageSize

-- Beyond the table the last size doubles with every stage, saturating at 64 bits.
def stageParams (stage pageSize : ℕ) : ℕ × ℕ :=
  let blockSize :=
    match kvStageSizes[stage]? with
    | some size => size
    | none => min (8 * 1024 * 1024 * 1024 * 2 ^ min (stage - (kvStageSizes.length - 1)) 53) (2 ^ 64 - 1)
  (blockSize, bucketsForBlock blockSize pageSize)

def maxEntriesPerPage : ℕ := 32

def pageHeaderSize : ℕ := 4 + 4 + 2

def pageSize (hashLength : ℕ) : ℕ := pageHeaderSize + maxEntriesPerPage * (hashLength + 1 + 8 + 4)

def writeBufferThreshold : ℕ := 512

abbrev Entries (H : Type) := Table (KVEntry.hash (H := H))

structure Page (H : Type) extends Entries H where
  size_le : entries.length ≤ maxEntriesPerPage

def Page.empty : Page H := ⟨⟨[], List.nodup_nil⟩, Nat.zero_le _⟩

def liveTypeCountsInPage (page : Page H) : KvTypeCounts := fun i =>
  page.entries.countP fun e => !e.isDeleted && typeIndex e.typeFlags = i

def buildPageTypeCounts (pages : List (Page H)) : KvTypeCounts := fun i => (pages.map (liveTypeCountsInPage · i)).sum

/-- What the store leaves open: the width of a hash, the bucket of a hash for a number of buckets, and the
order in which the `n`-th iteration visits the values of a hash map. -/
structure Layout (H : Type) where
  hashLength : ℕ
  hashLength_le : hashLength ≤ 64
  bucketFor : H → ℕ → ℕ
  bucketFor_lt : ∀ h n, 0 < n → bucketFor h n < n
  order : ℕ → List (KVEntry H) → List (KVEntry H)
  order_perm : ∀ n l, (order n l).Perm l

def clashing : Layout ℕ where
  hashLength := 32
  hashLength_le := by decide
  bucketFor := fun _ _ => 0
  bucketFor_lt := fun _ _ h => h
  order := fun _ l => l
  order_perm := fun _ l => List.Perm.refl l

structure ReadSnapshot (H : Type) where
  buffer : Entries H
  nvt : ℕ
  bucketCount : ℕ
  entryCount : ℕ
  pages : List (Page H)
  pageTypeCounts : KvTypeCounts

def ReadSnapshot.new (buffer : Entries H) (nvt bucketCount entryCount : ℕ) (pages : List (Page H)) : ReadSnapshot H :=
  ⟨buffer, nvt, bucketCount, entryCount, pages, buildPageTypeCounts pages⟩

structure DiskKVStore (H : Type) where
  writeBuffer : Entries H
  pages : ℕ → Page H
  kvBlockOffset : ℕ
  kvBlockLength : ℕ
  hotTailOffset : ℕ
  stage : ℕ
  bucketCount : ℕ
  entryCount : ℕ
  snapshot : ReadSnapshot H
  sharedNvt : ℕ
  needsExpansion : Option ℕ
  iterations : ℕ

abbrev StoreResult (H : Type) := EStateM.Result EngineError (DiskKVStore H) Unit

variable [DecidableEq H]

lemma Page.insert_size_le (page : Page H) (e : KVEntry H) (h : page.contains e.hash = true ∨ page.entries.length < maxEntriesPerPage) :
    (page.toTable.insert e).entries.length ≤ maxEntriesPerPage := by
  by_cases hc : page.contains e.hash = true
  · simpa [Table.insert, hc] using page.size_le
  · simpa [Table.insert, hc] using h.resolve_left hc

def upsertInPage (page : Page H) (e : KVEntry H) : Option (Page H) :=
  if h : page.contains e.hash = true then some ⟨page.toTable.insert e, page.insert_size_le e (.inl h)⟩
  else if h : page.entries.length < maxEntriesPerPage then
    some ⟨page.toTable.insert e, page.insert_size_le e (.inr h)⟩
  else none

def findInPage (page : Page H) (h : H) : Option (KVEntry H) :=
  page.entries.find? fun e => e.hash = h && !e.isDeleted

def fillPage (page : Page H) : List (KVEntry H) → Page H × List (KVEntry H)
  | [] => (page, [])
  | e :: es =>
    match upsertInPage page e with
    | some page' => fillPage page' es
    | none => ((fillPage page es).1, e :: (fillPage page es).2)

namespace ReadSnapshot

variable (layout : Layout H)

def readFromDisk (s : ReadSnapshot H) (h : H) ( includeDeleted : Bool) : Option (KVEntry H) :=
  let bucket := layout.bucketFor h s.nvt
  if bucket ≥ s.bucketCount then none
  else do
    let page ← s.pages[bucket]?
    let e ← page.get h
    if !includeDeleted && e.isDeleted then none else some e

def get (s : ReadSnapshot H) (h : H) : Option (KVEntry H) :=
  match s.buffer.get h with
  | some e => if e.isDeleted then none else some e
  | none => s.readFromDisk layout h false

def getRaw (s : ReadSnapshot H) (h : H) : Option (KVEntry H) :=
  (s.buffer.get h).or (s.readFromDisk layout h true)

def iterAll (s : ReadSnapshot H) : List (KVEntry H) :=
  (s.pages.flatMap fun page => page.entries.filter fun e => !e.isDeleted && !s.buffer.contains e.hash) ++
    s.buffer.entries.filter fun e => !e.isDeleted

def countBuffered (s : ReadSnapshot H) (t : UInt8) (count : ℕ) (buffered : KVEntry H) : ℕ :=
  let count := if (s.readFromDisk layout buffered.hash false).any (·.entryType = t) then count - 1 else count
  if !buffered.isDeleted && buffered.entryType = t then count + 1 else count

def countByType (s : ReadSnapshot H) (t : UInt8) : ℕ :=
  s.buffer.entries.foldl (s.countBuffered layout t) (s.pageTypeCounts (typeIndex t))

end ReadSnapshot

namespace DiskKVStore

variable (layout : Layout H)

def create (kvBlockOffset hotTailOffset stage : ℕ) : DiskKVStore H :=
  let stage := min stage (kvStageSizes.length - 1)
  let (blockSize, bucketCount) := stageParams stage (pageSize layout.hashLength)
  { writeBuffer := ⟨[], List.nodup_nil⟩
    pages := fun _ => Page.empty
    kvBlockOffset := kvBlockOffset
    kvBlockLength := blockSize
    hotTailOffset := hotTailOffset
    stage := stage
    bucketCount := bucketCount
    entryCount := 0
    snapshot := .new ⟨[], List.nodup_nil⟩ bucketCount bucketCount 0 (List.replicate bucketCount Page.empty)
    sharedNvt := bucketCount
    needsExpansion := none
    iterations := 0 }

def get (s : DiskKVStore H) (h : H) : Option (KVEntry H) :=
  match s.writeBuffer.get h with
  | some e => if e.isDeleted then none else some e
  | none => findInPage (s.pages (layout.bucketFor h s.bucketCount)) h

def entryExistsOnDisk (s : DiskKVStore H) (h : H) : Bool := (s.snapshot.getRaw layout h).isSome

def publishBufferOnly (s : DiskKVStore H) : DiskKVStore H :=
  { s with
    snapshot := ⟨s.writeBuffer, s.sharedNvt, s.bucketCount, s.entryCount, s.snapshot.pages, s.snapshot.pageTypeCounts⟩ }

def publishFullSnapshotWithNewNvt (s : DiskKVStore H) : DiskKVStore H :=
  { s with
    sharedNvt := s.bucketCount
    snapshot := .new s.writeBuffer s.bucketCount s.bucketCount s.entryCount ((List.range s.bucketCount).map s.pages) }

def recount (s : DiskKVStore H) (counts : KvTypeCounts) (bucket : ℕ) : KvTypeCounts :=
  match s.snapshot.pages[bucket]? with
  | none => counts
  | some page => fun i => counts i - liveTypeCountsInPage page i + liveTypeCountsInPage (s.pages bucket) i

def publishSnapshotIncremental (s : DiskKVStore H) (modifiedBuckets : List ℕ) : DiskKVStore H :=
  { s with
    sharedNvt := s.bucketCount
    snapshot := ⟨s.writeBuffer, s.bucketCount, s.bucketCount, s.entryCount,
      s.snapshot.pages.mapIdx fun b page => if b ∈ modifiedBuckets then s.pages b else page,
      modifiedBuckets.foldl s.recount s.snapshot.pageTypeCounts⟩ }

def bufferEntries (s : DiskKVStore H) : List (KVEntry H) := layout.order s.iterations s.writeBuffer.entries

def newEntries (s : DiskKVStore H) (bucket : ℕ) : List (KVEntry H) :=
  (s.bufferEntries layout).filter fun e => layout.bucketFor e.hash s.bucketCount = bucket

def modifiedBuckets (s : DiskKVStore H) : List ℕ :=
  ((s.bufferEntries layout).map fun e => layout.bucketFor e.hash s.bucketCount).dedup

def overflowEntries (s : DiskKVStore H) : List (KVEntry H) :=
  (s.modifiedBuckets layout).flatMap fun b => (fillPage (s.pages b) (s.newEntries layout b)).2

-- Both flushes write the buffer bucket by bucket and then clear it.
def writePages (s : DiskKVStore H) : DiskKVStore H :=
  { s with
    pages := fun b => (fillPage (s.pages b) (s.newEntries layout b)).1
    writeBuffer := Table.empty
    iterations := s.iterations + 1 }

-- This flush does not look at what overflows.
def flushNoSnapshot (s : DiskKVStore H) : DiskKVStore H :=
  if s.writeBuffer.entries.isEmpty then s else s.writePages layout

def bufferEntry (s : DiskKVStore H) (e : KVEntry H) : DiskKVStore H :=
  let isNew := !s.writeBuffer.contains e.hash && !s.entryExistsOnDisk layout e.hash
  { s with
    writeBuffer := s.writeBuffer.insert e
    entryCount := if isNew then s.entryCount + 1 else s.entryCount }

def bulkInsertOne (s : DiskKVStore H) (e : KVEntry H) : DiskKVStore H :=
  let s' := s.bufferEntry layout e
  if writeBufferThreshold ≤ s'.writeBuffer.entries.length then s'.flushNoSnapshot layout else s'

def bulkInsert (s : DiskKVStore H) (entries : List (KVEntry H)) : DiskKVStore H :=
  entries.foldl (bulkInsertOne layout) s

def allEntries (s : DiskKVStore H) : Entries H :=
  (Table.empty.insertAll ((List.range s.bucketCount).flatMap fun b => (s.pages b).entries)).insertAll
    (s.bufferEntries layout)

def iterAll (s : DiskKVStore H) : List (KVEntry H) :=
  (layout.order (s.iterations + 1) (s.allEntries layout).entries).filter fun e => !e.isDeleted

def zeroPages (s : DiskKVStore H) (count : ℕ) : DiskKVStore H :=
  { s with pages := fun b => if b < count then Page.empty else s.pages b }

def resizeToNextStage (s : DiskKVStore H) : StoreResult H :=
  let newStage := min (s.stage + 1) (kvStageSizes.length - 1)
  if newStage = s.stage then .error (.ioError "KV store at maximum stage — cannot resize further") s
  else
    let psize := pageSize layout.hashLength
    let newBucketCount := (stageParams newStage psize).2
    if newBucketCount * psize > s.kvBlockLength then .ok () { s with needsExpansion := some newStage }
    else
      let all := s.iterAll layout
      let s1 :=
        { s.zeroPages newBucketCount with
          stage := newStage, bucketCount := newBucketCount, entryCount := 0, iterations := s.iterations + 2 }
      let s2 := (s1.bulkInsert layout all).flushNoSnapshot layout
      .ok () { s2 with entryCount := all.length }.publishFullSnapshotWithNewNvt

def bufferOverflow (s : DiskKVStore H) (overflow : List (KVEntry H)) : DiskKVStore H :=
  { s with writeBuffer := s.writeBuffer.insertAll overflow }

def flushFrom : ℕ → DiskKVStore H → StoreResult H
  | fuel, s =>
    if s.writeBuffer.entries.isEmpty then .ok () s
    else
      let overflow := s.overflowEntries layout
      let modified := s.modifiedBuckets layout
      let s1 := s.writePages layout
      if overflow.isEmpty then .ok () (s1.publishSnapshotIncremental modified)
      else
        match (s1.publishSnapshotIncremental modified).resizeToNextStage layout with
        | .error err s2 => .error err s2
        | .ok _ s2 =>
          if s2.stage > s.stage then
            match fuel with
            | 0 => .error (.ioError "flush: out of fuel") s2
            | fuel + 1 => flushFrom fuel (s2.bufferOverflow overflow)
          else
            .ok () ((s2.bufferOverflow overflow).publishSnapshotIncremental modified).publishBufferOnly

-- A resize raises the stage, so the calls are never more than the stages.
def flush (s : DiskKVStore H) : StoreResult H := s.flushFrom layout kvStageSizes.length

def insert (s : DiskKVStore H) (e : KVEntry H) : StoreResult H :=
  let s' := s.bufferEntry layout e
  if writeBufferThreshold ≤ s'.writeBuffer.entries.length then s'.flush layout else .ok () s'.publishBufferOnly

end DiskKVStore

end AeorDb.Index
