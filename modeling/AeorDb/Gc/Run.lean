import AeorDb.Gc.Mark

/-! A whole run of the collector on an engine that nobody else writes to. -/

namespace AeorDb.Gc

open Store Version EngineM

/-- What a run takes from outside: the suffix of its snapshot's name, made of the time and a random number,
and the months for which the lifecycle configuration keeps snapshots. -/
structure RunConfig where
  preGcSuffix : ℤ → ℕ → Str
  autoMonths : ℕ
  manualMonths : ℕ

def preGcPrefix : Str := "_aeordb_pre_gc_".toList

def isEngineInternal (name : Str) : Bool := startsWith name "_aeordb_".toList

def keptPreGcSnapshots : ℕ := 3

section

variable {H : Type} (config : RunConfig)

def isAutoSnapshot (info : SnapshotInfo H) : Bool :=
  (info.metadata.find? (·.1 = snapshotTypeKey)).map Prod.snd = some snapshotTypeAuto

def retentionMonths (info : SnapshotInfo H) : ℕ := if isAutoSnapshot info then config.autoMonths else config.manualMonths

def isExpired (now : ℤ) (info : SnapshotInfo H) : Bool :=
  !isEngineInternal info.name && retentionMonths config info ≠ 0 &&
    decide ((retentionMonths config info : ℤ) * 30 * 24 * 60 * 60 * 1000 ≤ now - info.createdAt)

end

variable {H : Type} [DecidableEq H] (hs : Hasher H) (config : RunConfig)

def preGcSnapshot : EngineM H Unit := do
  if ← query fun e => .ok e.snapshotWritesEnabled then
    let id ← query fun e => .ok e.ticks
    let now ← now
    let _ ← createSnapshot hs (preGcPrefix ++ config.preGcSuffix now id) []
  else pure ()

def deleteSnapshots (names : List Str) : EngineM H Unit := names.forM fun name => ignore (deleteSnapshot hs name)

def oldPreGcNames (snapshots : List (SnapshotInfo H)) : List Str :=
  ((((snapshots.map SnapshotInfo.name).filter (startsWith · preGcPrefix)).insertionSort (· ≤ ·)).reverse).drop keptPreGcSnapshots

def pruneOldPreGc : EngineM H Unit := do
  match ← query fun e => .ok (listSnapshots e) with
  | .ok snapshots => deleteSnapshots hs (oldPreGcNames snapshots)
  | .error _ => pure ()

def pruneExpiredSnapshots : EngineM H Unit := do
  if config.autoMonths = 0 ∧ config.manualMonths = 0 then pure ()
  else
    let snapshots ← query listSnapshots
    let now ← now
    deleteSnapshots hs ((snapshots.filter (isExpired config now)).map SnapshotInfo.name)

def drainRecheck (s : Heap H) (written : List H) (live : Finset H) : EngineResult (Finset H) :=
  written.foldlM (fun live h => markEntry hs s h [] live) live

def liveSet (start : ℕ) (e : Engine H) : EngineResult (Finset H) := do
  let live ← gcMark hs (heapOf e) e.head
  drainRecheck hs (heapOf e) ((e.log.drop start).map LogEntry.key) live

def garbage (e : Engine H) (live : Finset H) : List H :=
  ((heapOf e).iterKvEntries.map fun x => x.1.key).filter (· ∉ live)

def gcSweep (live : Finset H) : EngineM H Unit := do
  let keys ← query fun e => .ok (garbage e live)
  keys.forM fun k => perform (.markDeleted k)

def runGc : EngineM H Unit := do
  let start ← query fun e => .ok e.log.length
  preGcSnapshot hs config
  pruneOldPreGc hs
  ignore (pruneExpiredSnapshots hs config)
  let live ← query (liveSet hs start)
  gcSweep live

end AeorDb.Gc
