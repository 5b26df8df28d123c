import AeorDb.BTree.Operations
import AeorDb.Store.Actions

/-! Inserting into and deleting from stored B-trees. -/

namespace AeorDb.BTree

open Store Library

inductive InsertResult (H : Type) where
  | done (hash : H) (data : BTreeNode H)
  | split (left : H) (key : Str) (right : H)

section

variable {H : Type} (hs : Hasher H)

abbrev NodeBatch (H : Type) := List (BTreeNode H)

def addNode (node : BTreeNode H) : EngineResult (InsertResult H × NodeBatch H) := do
  let data ← serialize node
  .ok (.done (hs.btreeHash data) data, [data])

def addHalves (left : BTreeNode H) (key : Str) (right : BTreeNode H) : EngineResult (InsertResult H × NodeBatch H) := do
  let leftData ← serialize left
  let rightData ← serialize right
  .ok (.split (hs.btreeHash leftData) key (hs.btreeHash rightData), [leftData, rightData])

def addLeaf (es : List (ChildEntry H)) : EngineResult (InsertResult H × NodeBatch H) :=
  if maxLeafEntries ≤ es.length then
    let (left, key, right) := leafSplit es
    addHalves hs (.leaf left) key (.leaf right)
  else addNode hs (.leaf es)

def addInternal (ks : List Str) (cs : List H) (i : ℕ) : InsertResult H → EngineResult (InsertResult H × NodeBatch H)
  | .done h _ => addNode hs (.internal ks (cs.set i h))
  | .split left key right =>
    let (ks, cs) := insertKey ks (cs.set i left) key right
    if maxInternalKeys ≤ ks.length then
      let (l, key, r) := internalSplit ks cs
      addHalves hs (.internal l.1 l.2) key (.internal r.1 r.2)
    else addNode hs (.internal ks cs)

def insertNodeBatched (e : Engine H) (entry : ChildEntry H) : ℕ → BTreeNode H → EngineResult (InsertResult H × NodeBatch H)
  | 0, _ => .error outOfFuel
  | _ + 1, .leaf es => addLeaf hs (SortedList.upsert ChildEntry.name es entry)
  | fuel + 1, .internal ks cs =>
    let i := findChildIndex ks entry.name
    match cs[i]? with
    | none => .error (.ioError "index out of bounds")
    | some c => do
      let child ← readNode e false c "B-tree child not found"
      let (result, batch) ← insertNodeBatched e entry fuel child
      let (result, nodes) ← addInternal hs ks cs i result
      .ok (result, batch ++ nodes)

def newRoot : InsertResult H × NodeBatch H → EngineResult ((H × BTreeNode H) × NodeBatch H)
  | (.done h data, batch) => .ok ((h, data), batch)
  | (.split left key right, batch) => do
    let data ← serialize (.internal [key] [left, right])
    .ok ((hs.btreeHash data, data), batch ++ [data])

def nodeWrites (nodes : NodeBatch H) : WriteBatch H :=
  nodes.map fun data => (.directoryIndex, hs.btreeHash data, .dir (.node data))

variable [DecidableEq H]

def btreeInsertBatched (rootData : BTreeNode H) (entry : ChildEntry H) : EngineM H (H × BTreeNode H) := do
  let (root, batch) ← EngineM.query fun e => do
    let root ← deserialize rootData
    let result ← insertNodeBatched hs e entry (e.log.length + 1) root
    newRoot hs result
  EngineM.flush (nodeWrites hs batch)
  pure root

end

variable {H : Type} (hs : Hasher H) [DecidableEq H]

def removeKey (ks : List Str) (i : ℕ) : List Str :=
  if i < ks.length then ks.eraseIdx i else if ks = [] then ks else ks.eraseIdx (i - 1)

def deleteFrom (name : Str) : ℕ → H → EngineM H (Option H)
  | 0, _ => throw outOfFuel
  | fuel + 1, root => do
    match ← EngineM.query fun e => readNode e false root "B-tree root not found" with
    | .leaf es =>
      let es := SortedList.remove ChildEntry.name es name
      if es = [] then pure none else some <$> storeBtreeNode hs (.leaf es)
    | .internal ks cs =>
      let i := findChildIndex ks name
      match cs[i]? with
      | none => throw (.ioError "index out of bounds")
      | some c =>
        match ← deleteFrom name fuel c with
        | some c' => some <$> storeBtreeNode hs (.internal ks (cs.set i c'))
        | none =>
          match cs.eraseIdx i with
          | [] => pure none
          | [c'] => pure (some c')
          | cs => some <$> storeBtreeNode hs (.internal (removeKey ks i) cs)

def btreeDelete (root : H) (name : Str) : EngineM H (Option H) := do
  let fuel ← EngineM.query fun e => .ok e.log.length
  deleteFrom hs name fuel root

end AeorDb.BTree
