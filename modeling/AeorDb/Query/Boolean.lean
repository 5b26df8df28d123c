import AeorDb.Query.Metadata
import AeorDb.Query.ExactLookup
import AeorDb.Store.Hashing

/-! Boolean queries: leaves are answered by indexes or by a scan of records, and combined as sets of hashes. -/

namespace AeorDb.Query

open Store Library

variable {S H : Type}

structure FieldQuery where
  fieldName : Str
  operation : QueryOp

inductive QueryNode where
  | field (query : FieldQuery)
  | and (children : List QueryNode)
  | or (children : List QueryNode)
  | not (child : QueryNode)

structure StoredIndex (S H : Type) where
  fieldName : Str
  converter : ScalarConverter (List UInt8) S
  ops : List (IndexOp (List UInt8) H)
  whole : converter.typeTag ≠ .trigram → converter.typeTag ≠ .phonetic → ∀ v, converter.expandValue v = [v]

lemma u64_whole (_ : ConverterType.u64 ≠ .trigram) (_ : ConverterType.u64 ≠ .phonetic) (v : List UInt8) :
    (wholeValue (fun _ => (0 : ℕ)) true "u64" .u64).expandValue v = [v] := rfl

/-- What queries read: the files, without the engine's own, and the index files of each directory, by name. The indexes of a
field hold, by file, the `values` of the field at its last indexing, and for metadata the value in the record. -/
structure Catalog (S H : Type) [DecidableEq H] where
  hs : Hasher H
  codec : MetadataCodec H
  records : Table (FileRecord.path : FileRecord H → Str)
  indexesAt : Str → Table (Prod.fst : Str × StoredIndex S H → Str)
  values : Str → Str → Str → List (List UInt8)
  keys : ∀ dir, ∀ e ∈ (indexesAt dir).entries, ∀ h, assigned e.2.ops h ≠ [] → ∃ path, h = hs.filePathHash path
  holds : ∀ dir, ∀ e ∈ (indexesAt dir).entries, canonicalVirtualFieldName e.2.fieldName = none →
    ∀ r ∈ records.entries, assigned e.2.ops (hs.filePathHash r.path) = values dir e.2.fieldName r.path
  holdsMetadata : ∀ dir, ∀ e ∈ (indexesAt dir).entries, ∀ field, canonicalVirtualFieldName e.2.fieldName = some field →
    ∀ r ∈ records.entries, assigned e.2.ops (hs.filePathHash r.path) ≠ [] →
      assigned e.2.ops (hs.filePathHash r.path) = [extractMetadataFieldValue codec r field]

namespace Catalog

variable [DecidableEq H] (cat : Catalog S H)

def listIndexes (dir : Str) : List Str := ((cat.indexesAt (normalizePath dir)).entries.map (·.1)).mergeSort (· ≤ ·)

def indexNamed (dir name : Str) : Option (StoredIndex S H) := ((cat.indexesAt (normalizePath dir)).get name).map (·.2)

def loadIndexByStrategy (dir fieldName strategy : Str) : Option (StoredIndex S H) := cat.indexNamed dir (fieldName ++ '.' :: strategy)

def loadIndex (dir fieldName : Str) : Option (StoredIndex S H) :=
  match cat.indexNamed dir fieldName with
  | some index => some index
  | none =>
    match (cat.listIndexes dir).find? fun name => (fieldName ++ ['.']).isPrefixOf name with
    | some name => cat.loadIndexByStrategy dir fieldName (afterLast '.' name)
    | none => none

def strategyOf (name : Str) : Str := if '.' ∈ name then (name.dropWhile (· ≠ '.')).drop 1 else "string".toList

def loadIndexesForField (dir fieldName : Str) : List (StoredIndex S H) :=
  (cat.listIndexes dir).filterMap fun name =>
    if name = fieldName ∨ (fieldName ++ ['.']).isPrefixOf name then
      match cat.loadIndexByStrategy dir fieldName (strategyOf name) with
      | some index => some index
      | none => if strategyOf name = "string".toList then cat.loadIndex dir fieldName else none
    else none

def loadIndexByName (dir name : Str) : Option (StoredIndex S H) :=
  match rfind '.' name with
  | some i => cat.loadIndexByStrategy dir (name.take i) (name.drop (i + 1))
  | none => cat.loadIndex dir name

def getEntry (hash : H) : Option (FileRecord H) :=
  cat.records.entries.find? fun r =>
    hash = cat.hs.filePathHash r.path ∨ hash = cat.hs.fileIdentityHash r.path r.contentType r.chunkHashes

def isUnder (path : Str) (r : FileRecord H) : Bool := (trimEnd (· = '/') (normalizePath path) ++ ['/']).isPrefixOf r.path

def listDirectoryRecursive (path : Str) : List (FileRecord H) := cat.records.entries.filter (isUnder path)

def filterHashesToQueryPath (hashes : Finset H) (queryPath : Str) : Finset H :=
  if normalizePath queryPath = ['/'] then hashes
  else hashes.filter fun hash => (cat.getEntry hash).any (fun record => pathIsUnderQueryPath record.path (normalizePath queryPath)) = true

end Catalog

variable [LinearOrder S] [DecidableEq H] (sc : Scale S)

def StoredIndex.index (stored : StoredIndex S H) : FieldIndex (List UInt8) S H :=
  runOps sc (FieldIndex.new sc stored.fieldName stored.converter) stored.ops

namespace Catalog

variable (cat : Catalog S H)

def indexNotFound (fieldName dir : Str) : EngineError :=
  .notFound ("Index not found for field '" ++ String.ofList fieldName ++ "' at path '" ++ String.ofList dir ++ "'")

def evaluateExactFieldValues (fieldName dir : Str) (values : List (List UInt8)) : EngineResult (Finset H) :=
  let indexes := (cat.loadIndexesForField dir fieldName).map (·.index sc)
  if indexes.isEmpty then .error (indexNotFound fieldName dir)
  else if indexes.any (·.supportsScalarExactLookup) then
    .ok ((indexes.filter (·.supportsScalarExactLookup)).flatMap fun index => values.flatMap fun value => files (index.lookupExact sc value)).toFinset
  else .ok ((indexes.filter (!·.values.entries.isEmpty)).flatMap (·.lookupStoredValuesExact values)).toFinset

def evaluateIndexedFieldQuery (query : FieldQuery) (dir : Str) : EngineResult (Finset H) :=
  match query.operation with
  | .eq value => cat.evaluateExactFieldValues sc query.fieldName dir [value]
  | .isIn values => cat.evaluateExactFieldValues sc query.fieldName dir values
  | .gt value => rangeQuery (·.lookupGt sc value)
  | .lt value => rangeQuery (·.lookupLt sc value)
  | .between min max => rangeQuery (·.lookupRange sc min max)
where
  rangeQuery (lookup : FieldIndex (List UInt8) S H → EngineResult (List (IndexEntry S H))) : EngineResult (Finset H) :=
    match cat.loadIndex dir query.fieldName with
    | none => .error (indexNotFound query.fieldName dir)
    | some stored => (lookup (stored.index sc)).map fun entries => (files entries).toFinset

def evaluateAtAncestors (query : FieldQuery) (path : Str) : List Str → EngineResult (Finset H)
  | [] => .error (.notFound ("Index not found for virtual field '" ++ String.ofList query.fieldName ++ "' at path '" ++ String.ofList path ++
      "' or its ancestors"))
  | ancestor :: rest =>
    if (cat.loadIndexesForField ancestor query.fieldName).isEmpty then evaluateAtAncestors query path rest
    else
      match cat.evaluateIndexedFieldQuery sc query ancestor with
      | .ok result => .ok (cat.filterHashesToQueryPath result path)
      | .error (.notFound _) => evaluateAtAncestors query path rest
      | .error e => .error e

def evaluateIndexedVirtualFieldQuery (query : FieldQuery) (field : VirtualField) (path : Str) : EngineResult (Finset H) :=
  let indexedQuery : FieldQuery := ⟨field.name, query.operation⟩
  match cat.evaluateIndexedFieldQuery sc indexedQuery path with
  | .ok result => .ok result
  | .error (.notFound _) => cat.evaluateAtAncestors sc indexedQuery path (virtualIndexAncestorPaths path)
  | .error e => .error e

def scanVirtualField (query : FieldQuery) (field : VirtualField) (path : Str) : EngineResult (Finset H) :=
  (cat.listDirectoryRecursive path).foldlM (fun matching record => do
    if ← virtualFieldMatches cat.codec record query.operation field then
      .ok (insert (cat.hs.fileIdentityHash record.path record.contentType record.chunkHashes) matching)
    else .ok matching) ∅

def evaluateVirtualFieldQuery (query : FieldQuery) (field : VirtualField) (path : Str) : EngineResult (Finset H) :=
  match cat.evaluateIndexedVirtualFieldQuery sc query field path with
  | .ok result => .ok result
  | .error (.notFound _) => cat.scanVirtualField query field path
  | .error e => .error e

def evaluateFieldQuery (query : FieldQuery) (path : Str) : EngineResult (Finset H) :=
  match canonicalVirtualFieldName query.fieldName with
  | some field => cat.evaluateVirtualFieldQuery sc query field path
  | none => cat.evaluateIndexedFieldQuery sc query path

def collectAllHashes (path : Str) : Finset H :=
  ((cat.listIndexes path).flatMap fun name =>
    match cat.loadIndexByName path name with
    | some stored => (stored.index sc).entries.map (·.fileHash)
    | none => []).toFinset

mutual

def evaluateNode (path : Str) : QueryNode → EngineResult (Finset H)
  | .field query => cat.evaluateFieldQuery sc query path
  | .and [] => .ok ∅
  | .and (child :: children) => do
    let result ← evaluateNode path child
    intersectNodes path result children
  | .or children => uniteNodes path ∅ children
  | .not child => do
    let childSet ← evaluateNode path child
    .ok (cat.collectAllHashes sc path \ childSet)

def intersectNodes (path : Str) (result : Finset H) : List QueryNode → EngineResult (Finset H)
  | [] => .ok result
  | child :: children => do
    let childSet ← evaluateNode path child
    intersectNodes path (result ∩ childSet) children

def uniteNodes (path : Str) (result : Finset H) : List QueryNode → EngineResult (Finset H)
  | [] => .ok result
  | child :: children => do
    let childSet ← evaluateNode path child
    uniteNodes path (result ∪ childSet) children

end

end Catalog

end AeorDb.Query
