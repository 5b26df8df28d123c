import AeorDb.Dir.Read

/-! Publishing a changed child: every ancestor directory is rewritten, up to HEAD. -/

namespace AeorDb.Dir

open Store BTree EngineM

section

variable {H : Type} (hs : Hasher H)

def childBytes (c : ChildEntry H) : ℕ :=
  1 + hs.hashLength + 8 + 8 + 8 + 2 + utf8Len c.name + 2 + utf8Len (c.contentType.getD []) + 8 + 8

def nodeBytes : BTreeNode H → ℕ
  | .leaf es => 3 + (es.map (childBytes hs)).sum
  | .internal ks cs => 3 + (ks.map fun k => 2 + utf8Len k).sum + hs.hashLength * cs.length

def dataBytes : DirData H → ℕ
  | .flat es => (es.map (childBytes hs)).sum
  | .node n => nodeBytes hs n

end

variable {H : Type} [DecidableEq H] (hs : Hasher H)

def upsertChild : List (ChildEntry H) → ChildEntry H → List (ChildEntry H)
  | [], c => [c]
  | x :: es, c => if x.name = c.name then c :: es else x :: upsertChild es c

structure Rewritten (H : Type) where
  data : DirData H
  contentKey : H
  batch : WriteBatch H

def writeFlat (children : List (ChildEntry H)) : EngineResult (Rewritten H) := do
  let data := .flat (← serializeChildEntries children)
  let contentKey := hs.directoryContentHash data
  .ok ⟨data, contentKey, [(.directoryIndex, contentKey, .dir data)]⟩

def convertToBtree (children : List (ChildEntry H)) : EngineM H (Rewritten H) := do
  let root ← btreeFromEntries hs children
  match ← query fun e => .ok (e.get root) with
  | some (.dir data) => pure ⟨data, root, []⟩
  | _ => throw (.notFound "B-tree root not found after conversion")

def flatChildren : Value H → EngineResult (List (ChildEntry H))
  | .dir (.flat es) => .ok es
  | _ => .error (.corruptEntry 0 "Unexpected directory data")

def rewriteWith (existing : Option (Value H)) (c : ChildEntry H) : EngineM H (Rewritten H) :=
  match existing with
  | some (.dir (.node n)) => do
    let (root, data) ← btreeInsertBatched hs n c
    pure ⟨.node data, root, []⟩
  | some v => do
    let children := upsertChild (← attempt (flatChildren v)) c
    if conversionThreshold ≤ children.length then convertToBtree hs children
    else attempt (writeFlat hs children)
  | none => attempt (writeFlat hs [c])

def maxDirectoryDepth : ℕ := 1000

def directoryChild (path : Str) (r : Rewritten H) (now : ℤ) : ChildEntry H where
  entryType := .directoryIndex
  hash := r.contentKey
  totalSize := dataBytes hs r.data
  createdAt := now
  updatedAt := now
  name := (fileName path).getD []
  contentType := none
  virtualTime := now.toNat
  nodeId := 0

def updateParentsFrom : ℕ → Str → ChildEntry H → WriteBatch H → EngineM H Unit
  | 0, _, _, _ => throw (.invalidInput "Directory depth exceeds maximum of 1000 levels")
  | depth + 1, path, c, batch =>
    match parentPath path with
    | none => flush batch
    | some parent =>
      if parent = ['/'] ∧ isSystemPath path = true then flush batch
      else do
        let existing ← query fun e => existingData hs e parent
        let r ← rewriteWith hs existing c
        let batch := batch ++ r.batch ++ [(.directoryIndex, hs.directoryPathHash parent, .link r.contentKey)]
        if parent = ['/'] then do
          flush batch
          perform (.updateHead (some r.contentKey))
        else do
          let now ← now
          updateParentsFrom depth parent (directoryChild hs parent r now) batch

def updateParentDirectories (path : Str) (c : ChildEntry H) : EngineM H Unit :=
  updateParentsFrom hs maxDirectoryDepth path c []

def emptyDirectory : Rewritten H :=
  ⟨.flat [], hs.directoryContentHash (.flat []), [(.directoryIndex, hs.directoryContentHash (.flat []), .dir (.flat []))]⟩

def rewriteWithout (existing : Option (Value H)) (name : Str) : EngineM H (Rewritten H) :=
  match existing with
  | some (.dir (.node n)) => do
    let root ← attempt (deserialize n)
    let rootData ← attempt (BTree.serialize root)
    match ← btreeDelete hs (hs.btreeHash rootData) name with
    | some newRoot =>
      match ← query fun e => .ok (e.get newRoot) with
      | some (.dir data) => pure ⟨data, newRoot, []⟩
      | _ => throw (.notFound "B-tree root not found after delete")
    | none => pure (emptyDirectory hs)
  | some v => do
    let children ← attempt (flatChildren v)
    attempt (writeFlat hs (children.filter (·.name ≠ name)))
  | none => pure (emptyDirectory hs)

def removeFromParentDirectory (path : Str) : EngineM H Unit :=
  match parentPath path with
  | none => pure ()
  | some parent => do
    let existing ← query fun e => existingData hs e parent
    let r ← rewriteWithout hs existing ((fileName path).getD [])
    flush (r.batch ++ [(.directoryIndex, hs.directoryPathHash parent, .link r.contentKey)])
    if parent = ['/'] then perform (.updateHead (some r.contentKey))
    else do
      let now ← now
      updateParentDirectories hs parent (directoryChild hs parent r now)

end AeorDb.Dir
