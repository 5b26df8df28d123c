import AeorDb.Library.Grouping
import AeorDb.Library.SearchTree
import AeorDb.Store.Engine

namespace AeorDb.BTree

open Store Library

def maxLeafEntries : ℕ := 40
def maxInternalKeys : ℕ := 77
def conversionThreshold : ℕ := 256

section

variable {H : Type}

def serialize : BTreeNode H → EngineResult (BTreeNode H)
  | .leaf es => (serializeChildEntries es).map .leaf
  | .internal ks cs =>
    match ks.find? (u16Max < utf8Len ·) with
    | some k => .error (tooLong "B-tree key" (utf8Len k))
    | none => .ok (.internal ks cs)

def deserialize : BTreeNode H → EngineResult (BTreeNode H)
  | .leaf es => .ok (.leaf (if es.length % 65536 = 0 then [] else es))
  | .internal ks cs =>
    if cs.length < ks.length + 1 then .error (.corruptEntry 0 "Internal node data too short for child hash")
    else .ok (.internal ks (cs.take (ks.length + 1)))

def nodeOfValue : Value H → EngineResult (BTreeNode H)
  | .dir (.node n) => deserialize n
  | .dir (.flat []) => .error (.corruptEntry 0 "Empty B-tree node data")
  | _ => .error (.corruptEntry 0 "Unknown B-tree node type")

def findChildIndex (ks : List Str) (name : Str) : ℕ := SearchTree.childIndex ks name

def headName (es : List (ChildEntry H)) : Str := (es.head?.map ChildEntry.name).getD []

def leafSplit (es : List (ChildEntry H)) : List (ChildEntry H) × Str × List (ChildEntry H) :=
  let right := es.drop (es.length / 2)
  (es.take (es.length / 2), headName right, right)

def insertKey (ks : List Str) (cs : List H) (key : Str) (right : H) : List Str × List H :=
  let i := match SortedList.binarySearch ks key with
    | .ok i => i
    | .error i => i
  (ks.insertIdx i key, cs.insertIdx (i + 1) right)

def internalSplit (ks : List Str) (cs : List H) : (List Str × List H) × Str × (List Str × List H) :=
  let mid := ks.length / 2
  ((ks.take mid, cs.take (mid + 1)), ks[mid]?.getD [], (ks.drop (mid + 1), cs.drop (mid + 1)))

def fetch (e : Engine H) (includeDeleted : Bool) (h : H) : Option (Value H) :=
  if includeDeleted then (e.getRaw h).map LogEntry.value else e.get h

def readNode (e : Engine H) (includeDeleted : Bool) (h : H) (missing : String) : EngineResult (BTreeNode H) :=
  match fetch e includeDeleted h with
  | none => .error (.notFound missing)
  | some v => nodeOfValue v

def outOfFuel : EngineError := .ioError "recursion limit"

def lookupFrom (e : Engine H) (includeDeleted : Bool) (name : Str) : ℕ → H → EngineResult (Option (ChildEntry H))
  | 0, _ => .error outOfFuel
  | fuel + 1, h => do
    match ← readNode e includeDeleted h "B-tree root not found" with
    | .leaf es => .ok (SortedList.find ChildEntry.name es name)
    | .internal ks cs =>
      match cs[findChildIndex ks name]? with
      | some c => lookupFrom e includeDeleted name fuel c
      | none => .error (.ioError "index out of bounds")

def listFrom (e : Engine H) (includeDeleted : Bool) : ℕ → H → EngineResult (List (ChildEntry H))
  | 0, _ => .error outOfFuel
  | fuel + 1, h => do
    match ← readNode e includeDeleted h "B-tree root not found" with
    | .leaf es => .ok es
    | .internal _ cs => (cs.mapM (listFrom e includeDeleted fuel)).map List.flatten

def btreeLookup (e : Engine H) (root : H) (name : Str) (includeDeleted : Bool) : EngineResult (Option (ChildEntry H)) :=
  lookupFrom e includeDeleted name e.log.length root

def btreeList (e : Engine H) (root : H) (includeDeleted : Bool) : EngineResult (List (ChildEntry H)) :=
  listFrom e includeDeleted e.log.length root

def btreeListFromNode (e : Engine H) (data : BTreeNode H) (includeDeleted : Bool) : EngineResult (List (ChildEntry H)) := do
  match ← deserialize data with
  | .leaf es => .ok es
  | .internal _ cs => (cs.mapM (btreeList e · includeDeleted)).map List.flatten

end

variable {H : Type} [DecidableEq H] (hs : Hasher H)

def storeBtreeNode (node : BTreeNode H) : EngineM H H := fun e =>
  match serialize node with
  | .error err => .error err e
  | .ok data => .ok (hs.btreeHash data) (e.storeEntry .directoryIndex (hs.btreeHash data) (.dir (.node data)))

def storeNodes : List (BTreeNode H) → EngineM H (List H)
  | [] => pure []
  | node :: nodes => do
    let h ← storeBtreeNode hs node
    let rest ← storeNodes nodes
    pure (h :: rest)

def groupKeys (keys : List Str) (i e : ℕ) : List Str :=
  if i = 0 then keys.take (e - 1) else (keys.take (e - 1)).drop (i - 1)

def internalGroup (children : List H) (keys : List Str) (i : ℕ) : BTreeNode H :=
  let e := min (i + (maxInternalKeys + 1)) children.length
  .internal (groupKeys keys i e) ((children.take e).drop i)

def upperKeys (keys : List Str) (starts : List ℕ) : List Str :=
  starts.filterMap fun i => if 0 < i ∧ i - 1 < keys.length then keys[i - 1]? else none

def buildInternalLevel : ℕ → List H → List Str → EngineM H H
  | 0, _, _ => throw outOfFuel
  | fuel + 1, children, keys =>
    match children with
    | [h] => pure h
    | children => do
      let starts := Grouping.starts (maxInternalKeys + 1) children.length
      let newChildren ← storeNodes hs (starts.map (internalGroup children keys))
      match newChildren with
      | [h] => pure h
      | newChildren => buildInternalLevel fuel newChildren (upperKeys keys starts)

def btreeFromSorted (entries : List (ChildEntry H)) : EngineM H H :=
  if entries.isEmpty then storeBtreeNode hs (.leaf [])
  else do
    let groups := Grouping.groups maxLeafEntries entries
    let leafHashes ← storeNodes hs (groups.map .leaf)
    let splitKeys := groups.tail.map headName
    match leafHashes with
    | [h] => pure h
    | leafHashes => buildInternalLevel hs leafHashes.length leafHashes splitKeys

def btreeFromEntries (entries : List (ChildEntry H)) : EngineM H H :=
  btreeFromSorted hs (entries.insertionSort fun a b => a.name ≤ b.name)

end AeorDb.BTree
