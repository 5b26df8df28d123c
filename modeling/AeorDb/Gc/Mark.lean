import AeorDb.Dir.Propagate
import AeorDb.Version.Snapshots

/-! The mark phase of the garbage collector. -/

namespace AeorDb.Gc

open Store BTree Dir

/-- What the collector reads: the index, and the entry that stands at each position of the log. A position
that was freed can hold another entry than the one its old key was indexed for. -/
structure Heap (H : Type) where
  index : H → Option IndexEntry
  cells : List (LogEntry H)

def heapOf {H : Type} (e : Engine H) : Heap H := ⟨e.index, e.log⟩

namespace Heap

variable {H : Type} (s : Heap H)

def getKvEntry (h : H) : Option IndexEntry := (s.index h).filter (!·.deleted)

def entry (h : H) : Option (LogEntry H) := (s.getKvEntry h).bind fun i => s.cells[i.offset]?

def entryIncludingDeleted (h : H) : Option (LogEntry H) := (s.index h).bind fun i => s.cells[i.offset]?

variable [DecidableEq H]

def iterKvEntries : List (LogEntry H × ℕ) :=
  s.cells.zipIdx.filter fun (r, i) => s.index r.key = some ⟨i, false⟩

def listSnapshots : EngineResult (List (SnapshotInfo H)) :=
  ((s.iterKvEntries.map Prod.fst).filter (·.entryType = .snapshot)).mapM fun r => Version.snapshotOf r.value

def listForks : EngineResult (List (ForkInfo H)) :=
  ((s.iterKvEntries.map Prod.fst).filter (·.entryType = .fork)).mapM fun r => Version.forkOf r.value

end Heap

section

variable {H : Type} (hs : Hasher H)

def fileBytes (r : FileRecord H) : ℕ :=
  2 + utf8Len r.path + 2 + utf8Len (r.contentType.getD []) + 8 + 8 + 8 + hs.hashLength + 4 + r.metadata.length + 4 +
    r.chunkHashes.length * hs.hashLength

def symlinkBytes (r : SymlinkRecord) : ℕ := 2 + utf8Len r.path + 2 + utf8Len r.target + 8 + 8

def isHashSized : Value H → Bool
  | .link _ => true
  | .chunk bytes => bytes.length = hs.hashLength
  | .file r => fileBytes hs r = hs.hashLength
  | .dir d => dataBytes hs d = hs.hashLength
  | .symlink r => symlinkBytes r = hs.hashLength
  | .deletion _ | .snapshot _ | .fork _ => false

end

variable {H : Type} [DecidableEq H] (hs : Hasher H) (s : Heap H)

def follow (v : Value H) (live : Finset H) : Option (Value H) × Finset H :=
  match v with
  | .link target => ((s.entryIncludingDeleted target).map LogEntry.value, insert target live)
  | v => if isHashSized hs v then (none, live) else (some v, live)

def collectChild (collect : Value H → Finset H → EngineResult (Finset H × List (ChildEntry H)))
    (acc : Finset H × List (ChildEntry H)) (c : H) : EngineResult (Finset H × List (ChildEntry H)) :=
  match s.entryIncludingDeleted c with
  | none => .ok (insert c acc.1, acc.2)
  | some r => do
    let (live, sub) ← collect r.value (insert c acc.1)
    .ok (live, acc.2 ++ sub)

def collectBtreeChildren : ℕ → Value H → Finset H → EngineResult (Finset H × List (ChildEntry H))
  | 0, _, _ => .error outOfFuel
  | fuel + 1, v, live => do
    match ← nodeOfValue v with
    | .leaf es => .ok (live, es)
    | .internal _ cs => cs.foldlM (collectChild s (collectBtreeChildren fuel)) (live, [])

def directoryChildren (v : Value H) (live : Finset H) : EngineResult (Finset H × List (ChildEntry H)) :=
  match v with
  | .dir (.flat es) => .ok (live, es)
  | .dir (.node n) => collectBtreeChildren s (s.cells.length + 1) (.dir (.node n)) live
  | _ => .error (.corruptEntry 0 "Unexpected directory data")

def fileMarks (r : FileRecord H) : Finset H :=
  insert (hs.filePathHash r.path) (insert (hs.fileContentHash r) r.chunkHashes.toFinset)

def visit (path : Str) (r : LogEntry H) (live : Finset H) : EngineResult (Finset H × List (ChildEntry H)) :=
  match follow hs s r.value live with
  | (none, live) => .ok (live, [])
  | (some v, live) =>
    match r.entryType with
    | .directoryIndex => directoryChildren s v (insert (hs.directoryPathHash path) live)
    | .fileRecord =>
      match v with
      | .file record => .ok (fileMarks hs record ∪ live, [])
      | _ => .error (.corruptEntry 0 "FileRecord data too short")
    | .symlink =>
      match v with
      | .symlink record => .ok (insert (hs.symlinkPathHash path) (insert (hs.symlinkContentHash record) live), [])
      | _ => .ok (insert (hs.symlinkPathHash path) live, [])
    | _ => .ok (live, [])

def walkable (c : ChildEntry H) : Bool :=
  match c.entryType with
  | .directoryIndex | .fileRecord | .symlink => true
  | _ => false

/-- One hash of a level. A hash seen before marks the path it is found under now; a new one is read later,
unless it is a chunk or has no live entry. -/
def dedupe (acc : Finset H × List (H × Str × ℕ)) (item : H × Str) : Finset H × List (H × Str × ℕ) :=
  if item.1 ∈ acc.1 then (insert (hs.directoryPathHash item.2) acc.1, acc.2)
  else
    match s.getKvEntry item.1 with
    | none => (insert item.1 acc.1, acc.2)
    | some i =>
      if (s.cells[i.offset]?.map LogEntry.entryType) = some .chunk then (insert item.1 acc.1, acc.2)
      else (insert item.1 acc.1, acc.2 ++ [(item.1, item.2, i.offset)])

def readItem (acc : Finset H × List (H × Str)) (item : H × Str × ℕ) : EngineResult (Finset H × List (H × Str)) :=
  match s.entryIncludingDeleted item.1 with
  | none => .ok acc
  | some r => do
    let (live, children) ← visit hs s item.2.1 r acc.1
    let (next, rest) := children.partition walkable
    .ok ((rest.map ChildEntry.hash).toFinset ∪ live, acc.2 ++ next.map fun c => (c.hash, childPath item.2.1 c.name))

def readLevel (toRead : List (H × Str × ℕ)) (live : Finset H) : EngineResult (Finset H × List (H × Str)) :=
  (toRead.insertionSort fun a b => a.2.2 ≤ b.2.2).foldlM (readItem hs s) (live, [])

def walkVersionsBfs : ℕ → List (H × Str) → Finset H → EngineResult (Finset H)
  | 0, _, live => .ok live
  | _ + 1, [], live => .ok live
  | fuel + 1, item :: frontier, live => do
    let (live, toRead) := (item :: frontier).foldl (dedupe hs s) (live, [])
    let (live, next) ← readLevel hs s toRead live
    walkVersionsBfs fuel next live

def markEntryRecursive : ℕ → H → Str → Finset H → EngineResult (Finset H)
  | 0, _, _, live => .ok live
  | fuel + 1, h, path, live =>
    if h ∈ live then .ok live
    else
      match s.entryIncludingDeleted h with
      | none => .ok (insert h live)
      | some r => do
        let (live, children) ← visit hs s path r (insert h live)
        children.foldlM (fun live c => markEntryRecursive fuel c.hash (childPath path c.name) live) live

def markEntry (h : H) (path : Str) (live : Finset H) : EngineResult (Finset H) :=
  markEntryRecursive hs s (s.cells.length + 2) h path live

def markSystemRoot (live : Finset H) (path : Str) : EngineResult (Finset H) :=
  match s.entryIncludingDeleted (hs.directoryPathHash path) with
  | none => .ok live
  | some _ => markEntry hs s (hs.directoryPathHash path) path live

def markSystemEntries (live : Finset H) : EngineResult (Finset H) :=
  ["/.aeordb-system".toList, "/.aeordb-config".toList].foldlM (markSystemRoot hs s) live

def pathFileMarks (r : LogEntry H) : Finset H :=
  match r.entryType, r.value with
  | .fileRecord, .file record =>
    if r.key = hs.filePathHash record.path then
      insert (hs.fileIdentityHash record.path record.contentType record.chunkHashes) (fileMarks hs record)
    else ∅
  | _, _ => ∅

def markLivePathFileRecords (entries : List (LogEntry H)) (live : Finset H) : Finset H :=
  entries.foldl (fun live r => pathFileMarks hs r ∪ live) live

def markDeletionRecords (entries : List (LogEntry H)) (live : Finset H) : Finset H :=
  ((entries.filter (·.entryType = .deletionRecord)).map LogEntry.key).toFinset ∪ live

def gcMark (head : Option H) : EngineResult (Finset H) := do
  let snapshots ← s.listSnapshots
  let forks ← s.listForks
  let roots := head.toList ++ snapshots.filterMap SnapshotInfo.rootHash ++ forks.filterMap ForkInfo.rootHash
  let live ← walkVersionsBfs hs s (s.cells.length + 2) (roots.map fun h => (h, ['/'])) ∅
  let live := (snapshots.map fun info => hs.snapshotKey info.name).toFinset ∪ live
  let live := (forks.map fun info => hs.forkKey info.name).toFinset ∪ live
  let live ← markSystemEntries hs s live
  let entries := s.iterKvEntries.map Prod.fst
  .ok (markDeletionRecords entries (markLivePathFileRecords hs entries live))

end AeorDb.Gc
