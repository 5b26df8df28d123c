import AeorDb.Dir.Operations
import AeorDb.Merge.ThreeWay

/-! Recorded conflicts: one metadata file for each path, kept until somebody resolves it. -/

namespace AeorDb.Sync

open Store Dir Merge EngineM

/-- The JSON of a metadata file: how it is written, and the hash it has for a side of the conflict. The
hash of a deleted version is the empty text, read as `none`. -/
structure MetaCodec (H : Type) where
  encode : ConflictEntry H → ℤ → List UInt8
  parse : List UInt8 → EngineResult (Str → EngineResult (Option H))

def conflictBase : Str := "/.aeordb-conflicts".toList

def metaPath (path : Str) : Str := conflictBase ++ path ++ "/.meta".toList

def winnerPick : Str := "winner".toList
def loserPick : Str := "loser".toList

def invalidPick (pick : Str) : EngineError :=
  .invalidInput ("Invalid pick '" ++ String.ofList pick ++ "': must be 'winner' or 'loser'")

section

variable {H : Type}

def availableBytes (e : Engine H) : List H → EngineResult (List UInt8)
  | [] => .ok []
  | h :: hashes => do
    let bytes ← match e.get h with
      | none => .ok []
      | some v => chunkOf v
    let rest ← availableBytes e hashes
    .ok (bytes ++ rest)

end

variable {H : Type} [DecidableEq H] (hs : Hasher H) (env : Env) (codec : MetaCodec H)

def storeConflict (conflict : ConflictEntry H) : EngineM H Unit := do
  let now ← now
  let _ ← storeFileBuffered hs env (metaPath conflict.path) (codec.encode conflict now) (some "application/json".toList)

def getConflict (e : Engine H) (path : Str) : EngineResult (Option (Str → EngineResult (Option H))) :=
  match readFileBuffered hs e (metaPath path) with
  | .ok data => (codec.parse data).map some
  | .error (.notFound _) => .ok none
  | .error err => .error err

def pickedHash (path pick : Str) (e : Engine H) : EngineResult (Option H) := do
  let hashes ← codec.parse (← readFileBuffered hs e (metaPath path))
  if pick ≠ winnerPick ∧ pick ≠ loserPick then .error (invalidPick pick) else hashes pick

def restoreVersion (path : Str) (v : Value H) : EngineM H Unit := do
  let record ← attempt (fileOf v)
  let data ← query fun e => availableBytes e record.chunkHashes
  let _ ← storeFileBuffered hs env path data record.contentType

/-- The version that was picked is written to the path, if its record is still there; the record of the
conflict goes in any case. -/
def resolveConflict (path pick : Str) : EngineM H Unit := do
  let chosen ← query (pickedHash hs codec path pick)
  match ← query fun e => .ok (chosen.bind e.get) with
  | none => pure ()
  | some v => restoreVersion hs env path v
  ignore (deleteFile hs env (metaPath path))

def dismissConflict (path : Str) : EngineM H Unit := do
  let _ ← query fun e =>
    match readFileBuffered hs e (metaPath path) with
    | .error (.notFound _) => .error (.notFound ("No conflict found for path: " ++ String.ofList path))
    | r => r
  ignore (deleteFile hs env (metaPath path))

end AeorDb.Sync
