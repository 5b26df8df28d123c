import AeorDb.Library.Spans
import AeorDb.Wal.Expansion
import AeorDb.Wal.Rebuild

/-! The space of the log: its entries, the index that refers to them, and the voids for reuse. -/

namespace AeorDb.Wal

open Library Store Index Table

def VoidRecord.span (v : VoidRecord) : Span := ⟨v.offset, v.size⟩

abbrev VoidManager := Table VoidRecord.offset

namespace VoidManager

def minimumVoidSize : ℕ := 1

def registerVoid (vm : VoidManager) (v : VoidRecord) : VoidManager := if v.size < minimumVoidSize then vm else vm.insert v

def bestFit (vm : VoidManager) (needed : ℕ) : Option VoidRecord :=
  ((vm.entries.filter fun v => needed ≤ v.size).mergeSort fun a b => a.size < b.size || a.size = b.size && a.offset ≤ b.offset).head?

def findVoid (vm : VoidManager) (minimumUseful needed : ℕ) : Option (VoidRecord × VoidManager) :=
  (vm.bestFit needed).map fun v =>
    let rest : VoidManager := vm.erase v.offset
    (v, if minimumUseful ≤ v.size - needed then rest.registerVoid ⟨v.offset + needed, v.size - needed⟩ else rest)

def totalVoidSpace (vm : VoidManager) : ℕ := (vm.entries.map VoidRecord.size).sum

def replaceAll (voids : List VoidRecord) : VoidManager := voids.foldl registerVoid empty

def takeVoid (minimumUseful needed walStart walEnd : ℕ) : ℕ → VoidManager → Option VoidRecord × VoidManager
  | 0, vm => (none, vm)
  | n + 1, vm =>
    match vm.findVoid minimumUseful needed with
    | none => (none, vm)
    | some (v, rest) =>
      if validReusableRange v.offset v.size walStart walEnd then (some v, rest)
      else takeVoid minimumUseful needed walStart walEnd n rest

end VoidManager

variable {H : Type}

def KVEntry.span (x : KVEntry H) : Span := ⟨x.offset, x.totalLength⟩

structure HotTailPayload (H : Type) where
  writes : List (KVEntry H)
  voids : List VoidRecord

structure HotIndex (H : Type) where
  pages : Entries H
  writeBuffer : Entries H
  hotBuffer : List (KVEntry H)
  pendingVoids : List VoidRecord
  hotTail : HotTailPayload H

/-- What becomes of a buffered entry that is new to its bucket when the buffer is flushed: it finds room in a
page, it stays in the buffer, or a resize drops it. -/
inductive Fate where
  | paged | kept | dropped
  deriving DecidableEq

namespace HotIndex

def hotBufferThreshold : ℕ := 512

def markedDeleted (x : KVEntry H) : KVEntry H := { x with typeFlags := x.typeFlags ||| kvFlagDeleted }

variable [DecidableEq H]

def empty : HotIndex H := ⟨Table.empty, Table.empty, [], [], ⟨[], []⟩⟩

def all (kv : HotIndex H) : Entries H := kv.pages.insertAll kv.writeBuffer.entries

def get (kv : HotIndex H) (h : H) : Option (KVEntry H) := (kv.all.get h).filter fun x => !x.isDeleted

def iterAll (kv : HotIndex H) : List (KVEntry H) := kv.all.entries.filter fun x => !x.isDeleted

def setPendingVoids (kv : HotIndex H) (walStart walEnd : ℕ) (voids : List VoidRecord) : HotIndex H :=
  { kv with pendingVoids := sanitizePendingVoids voids walStart walEnd }

def forceFlushHotBuffer (kv : HotIndex H) (walStart walEnd : ℕ) : HotIndex H :=
  let voids := sanitizePendingVoids kv.pendingVoids walStart walEnd
  { kv with pendingVoids := voids, hotTail := ⟨kv.writeBuffer.entries, voids⟩ }

def flushHotBuffer (kv : HotIndex H) (walStart walEnd : ℕ) : HotIndex H :=
  if kv.hotBuffer = [] then kv else { kv.forceFlushHotBuffer walStart walEnd with hotBuffer := [] }

-- An entry that its page has already is updated there in any case.
def flush (kv : HotIndex H) (walStart walEnd : ℕ) (fate : H → Fate) : HotIndex H :=
  if kv.writeBuffer.entries = [] then kv
  else
    let placed := kv.writeBuffer.filter fun x => kv.pages.contains x.hash || fate x.hash = .paged
    let kept := kv.writeBuffer.filter fun x => !kv.pages.contains x.hash && fate x.hash = .kept
    let voids := sanitizePendingVoids kv.pendingVoids walStart walEnd
    { pages := kv.pages.insertAll placed.entries
      writeBuffer := kept
      hotBuffer := if kept.entries = [] then [] else kv.hotBuffer
      pendingVoids := voids
      hotTail := ⟨kept.entries, voids⟩ }

def insert (kv : HotIndex H) (walStart walEnd : ℕ) (fate : H → Fate) (x : KVEntry H) : HotIndex H :=
  let buffered := { kv with writeBuffer := kv.writeBuffer.insert x, hotBuffer := kv.hotBuffer ++ [x] }
  let journaled := if hotBufferThreshold ≤ buffered.hotBuffer.length then buffered.flushHotBuffer walStart walEnd else buffered
  if writeBufferThreshold ≤ journaled.writeBuffer.entries.length then journaled.flush walStart walEnd fate else journaled

def markDeleted (kv : HotIndex H) (h : H) : HotIndex H :=
  match kv.get h with
  | some x => { kv with writeBuffer := kv.writeBuffer.insert (markedDeleted x) }
  | none => kv

def markDeletedBatch (kv : HotIndex H) (hashes : List H) : HotIndex H := hashes.foldl markDeleted kv

def buildMergedVoidRanges (voids : List VoidRecord) : List Span :=
  Span.merged (((voids.filter (·.size ≠ 0)).map VoidRecord.span).mergeSort fun a b =>
    a.start < b.start || a.start = b.start && a.stop ≤ b.stop)

def entryOverlapsVoidRanges (ranges : List Span) (x : KVEntry H) : Bool :=
  x.totalLength ≠ 0 && Span.meets ranges x.offset (x.offset + x.totalLength)

def opened (kv : HotIndex H) (voids : List VoidRecord) : HotIndex H :=
  let writes : Entries H := Table.empty.insertAll kv.hotTail.writes
  let masked := kv.pages.entries.filter fun x =>
    !writes.contains x.hash && entryOverlapsVoidRanges (buildMergedVoidRanges voids) x
  { kv with writeBuffer := writes.insertAll (masked.map markedDeleted), hotBuffer := [], pendingVoids := voids }

end HotIndex

structure LogRecord (H : Type) where
  entryType : EntryType
  key : H
  offset : ℕ
  valueLength : ℕ
  totalLength : ℕ
  timestamp : ℤ
  -- the path of a deletion record
  deletes : Option Str
  deriving DecidableEq

def LogRecord.span (r : LogRecord H) : Span := ⟨r.offset, r.totalLength⟩

def LogRecord.order (r : LogRecord H) : RebuildOrder := ⟨r.timestamp, r.offset⟩

def LogRecord.toRebuild (r : LogRecord H) : RebuildKvRecord H :=
  ⟨toKvType r.entryType, r.key, r.offset, r.valueLength, r.totalLength, r.order⟩

structure NewEntry (H : Type) where
  entryType : EntryType
  kvType : UInt8
  key : H
  valueLength : ℕ
  timestamp : ℤ
  deletes : Option Str

structure Space (H : Type) where
  walStart : ℕ
  walEnd : ℕ
  log : List (LogRecord H)
  kv : HotIndex H
  voids : VoidManager

namespace Space

variable (hs : Hasher H)

def entryLength (keyLength valueLength : ℕ) : ℕ := fixedHeaderSize + hs.hashLength + keyLength + valueLength

def minimumUsefulVoidSize : ℕ := entryLength hs 0 0

def recordAt (e : NewEntry H) (offset : ℕ) : LogRecord H :=
  ⟨e.entryType, e.key, offset, e.valueLength, entryLength hs hs.hashLength e.valueLength, e.timestamp, e.deletes⟩

def overwrite (log : List (LogRecord H)) (r : LogRecord H) : List (LogRecord H) := log.filter (·.span.Apart r.span) ++ [r]

def fresh [DecidableEq H] (walStart : ℕ) : Space H := ⟨walStart, walStart, [], .empty, empty⟩

def appendEntry (e : NewEntry H) (s : Space H) : Space H :=
  let r := recordAt hs e s.walEnd
  { s with walEnd := s.walEnd + r.totalLength, log := overwrite s.log r }

def reuseVoid (e : NewEntry H) (v : VoidRecord) (rest : VoidManager) (s : Space H) : Space H :=
  { s with log := overwrite s.log (recordAt hs e v.offset), voids := rest }

def syncVoidsToKvWriter (s : Space H) : Space H := { s with kv := s.kv.setPendingVoids s.walStart s.walEnd s.voids.entries }

def forceHotTailFlush (s : Space H) : Space H := { s with kv := s.kv.forceFlushHotBuffer s.walStart s.walEnd }

variable [DecidableEq H] (fate : H → Fate)

def insertKv (x : KVEntry H) (s : Space H) : Space H := { s with kv := s.kv.insert s.walStart s.walEnd fate x }

def storeEntry (e : NewEntry H) (s : Space H) : Space H :=
  let needed := entryLength hs hs.hashLength e.valueLength
  let x (offset : ℕ) : KVEntry H := ⟨toKvType e.entryType, e.key, offset, needed⟩
  if u32Max < needed then s
  else
    let taken :=
      if e.entryType = .chunk then
        s.voids.takeVoid (minimumUsefulVoidSize hs) needed s.walStart s.walEnd (s.voids.totalVoidSpace + 1)
      else (none, s.voids)
    match taken with
    | (some v, rest) => ((s.reuseVoid hs e v rest).insertKv fate (x v.offset)).syncVoidsToKvWriter
    | (none, rest) =>
      let appended := (({ s with voids := rest } : Space H).appendEntry hs e).insertKv fate (x s.walEnd)
      if rest.entries = s.voids.entries then appended else appended.syncVoidsToKvWriter

def appendBatch (batch : List (NewEntry H)) (s : Space H) : Space H × List (KVEntry H) :=
  batch.foldl (fun st e => (st.1.appendEntry hs e, st.2 ++ [⟨e.kvType, e.key, st.1.walEnd, entryLength hs hs.hashLength e.valueLength⟩]))
    (s, [])

def flushBatch (batch : List (NewEntry H)) (s : Space H) : Space H :=
  (appendBatch hs batch s).2.foldl (fun s x => s.insertKv fate x) (appendBatch hs batch s).1

def markEntryDeleted (h : H) (s : Space H) : Space H :=
  match s.kv.get h with
  | some x => { s with kv := { s.kv with writeBuffer := s.kv.writeBuffer.insert { x with typeFlags := x.typeFlags &&& 0x0F ||| kvFlagDeleted } } }
  | none => s

def readEntryHeaderAt (s : Space H) (offset : ℕ) : EngineResult (LogRecord H) :=
  if offset < s.walStart || s.walEnd ≤ offset then
    .error (.corruptEntry offset ("entry header offset is outside current WAL region " ++ toString s.walStart ++ ".." ++ toString s.walEnd))
  else
    match s.log.find? fun r => r.offset = offset with
    | some r => .ok r
    | none => .error (.corruptEntry offset "no entry header")

def garbageCandidates (live : H → Bool) (s : Space H) : EngineResult (List (H × VoidRecord)) :=
  (s.kv.iterAll.filter fun x => !live x.hash).mapM fun x =>
    (s.readEntryHeaderAt x.offset).map fun r => (x.hash, ⟨x.offset, r.totalLength⟩)

def gcSweep (live : H → Bool) (s : Space H) : Space H :=
  match s.garbageCandidates live with
  | .error _ => s
  | .ok [] => s
  | .ok candidates =>
    let freed := candidates.filter fun c => validReusableRange c.2.offset c.2.size s.walStart s.walEnd
    let swept : Space H :=
      { s with kv := s.kv.markDeletedBatch (freed.map Prod.fst), voids := (freed.map Prod.snd).foldl VoidManager.registerVoid s.voids }
    swept.syncVoidsToKvWriter.forceHotTailFlush

def rebuilt (s : Space H) : RebuildKvRecords H :=
  resolveRebuildRecords hs (s.log.map LogRecord.toRebuild) (s.log.filterMap fun r => r.deletes.map fun path => (path, r.order))

def rebuildKv (s : Space H) : Space H :=
  let walEnd := (s.log.map fun r => r.span.stop).foldl max s.walEnd
  let entries := (s.rebuilt hs).entries.map RebuildKvRecord.toKvEntry
  let created : HotIndex H := ⟨empty, empty.insertAll entries, [], [], s.kv.hotTail⟩
  { s with walEnd := walEnd, kv := created.flush s.walStart walEnd fate }

def recoverVoidsViaGapScan (s : Space H) : Space H :=
  let ranges := (s.kv.iterAll.filter fun x => validReusableRange x.offset x.totalLength s.walStart s.walEnd).map KVEntry.span
  let recovered := Span.gaps u32Max s.walStart (ranges.mergeSort fun a b => a.start ≤ b.start)
  { s with voids := VoidManager.replaceAll (recovered.map fun g => ⟨g.start, g.size⟩) }

def recoverAfterEmergencySpillReplay (s : Space H) : Space H :=
  (s.rebuildKv hs fate).recoverVoidsViaGapScan.syncVoidsToKvWriter.forceHotTailFlush

def relocatedLog (copyEnd : ℕ) (s : Space H) : List (LogRecord H) :=
  s.log.filter (fun r => copyEnd ≤ r.offset) ++ (s.log.filter fun r => s.walStart ≤ r.offset && r.offset < copyEnd).map fun r =>
    { r with offset := r.offset + (s.walEnd - s.walStart) }

omit [DecidableEq H] in
/-- The void entry over the rest of a record that the new end of the index block cuts. Its key has no bytes,
for which `emptyKey` stands. -/
def tailVoid (emptyKey : H) (timestamp : ℤ) (newKvEnd copyEnd : ℕ) : List (LogRecord H) :=
  if fixedHeaderSize + hs.hashLength ≤ copyEnd - newKvEnd then
    [⟨.void, emptyKey, newKvEnd, copyEnd - newKvEnd - (fixedHeaderSize + hs.hashLength), copyEnd - newKvEnd, timestamp, none⟩]
  else []

def expandKvBlockOnline (emptyKey : H) (timestamp : ℤ) (newKvEnd copyEnd : ℕ) (s : Space H) : Space H :=
  let newHotTail := s.walEnd + (copyEnd - s.walStart)
  let offsetDelta : ℤ := (s.walEnd : ℤ) - s.walStart
  let adjusted := adjustVoidsForExpansion s.voids.entries s.walStart copyEnd offsetDelta newKvEnd newHotTail
  let entries := (s.kv.iterAll.map (adjustOffset s.walStart copyEnd offsetDelta)).filter fun x => fate x.hash = .paged
  let voids := sanitizePendingVoids adjusted newKvEnd newHotTail
  { walStart := newKvEnd
    walEnd := newHotTail
    log := s.relocatedLog copyEnd ++ tailVoid hs emptyKey timestamp newKvEnd copyEnd
    kv := ⟨empty.insertAll entries, empty, [], voids, ⟨[], voids⟩⟩
    voids := VoidManager.replaceAll adjusted }

def shutdown (s : Space H) : Space H :=
  { s with kv := (s.kv.flush s.walStart s.walEnd fate).flushHotBuffer s.walStart s.walEnd }

def openClean (s : Space H) : Space H :=
  let voids := s.kv.hotTail.voids.filter fun v => validReusableRange v.offset v.size s.walStart s.walEnd
  ({ s with kv := s.kv.opened voids, voids := VoidManager.replaceAll voids } : Space H).syncVoidsToKvWriter

end Space

end AeorDb.Wal
