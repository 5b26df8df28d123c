import AeorDb.Query.FieldIndex
import AeorDb.Library.Paging

/-! Sorted results and their pages. -/

set_option linter.dupNamespace false

namespace AeorDb.Query

open Store Library

variable {S N F : Type}

structure QueryResult (N F : Type) where
  fileHash : F
  path : Str
  contentHash : List UInt8
  totalSize : ℕ
  createdAt : ℤ
  updatedAt : ℤ
  score : N
  deriving DecidableEq

inductive SortDirection where
  | asc | desc
  deriving DecidableEq

structure SortField where
  field : Str
  direction : SortDirection
  deriving DecidableEq

structure Query where
  limit : Option ℕ
  offset : Option ℕ
  orderBy : List SortField
  after : Option Str
  before : Option Str
  includeTotal : Bool

structure PaginatedResult (N F : Type) where
  results : List (QueryResult N F)
  totalCount : Option ℕ
  hasMore : Bool
  nextCursor : Option Str
  prevCursor : Option Str
  defaultLimitHit : Bool

inductive CursorValue (N : Type) where
  | score (value : N)
  | text (value : Str)
  | number (value : ℤ)
  | hex (bytes : List UInt8)
  | null

structure Cursor (N F : Type) where
  sortValues : List (Str × CursorValue N)
  hash : F
  version : List UInt8

structure CursorCodec (N F : Type) where
  encode : Cursor N F → Str
  decode : Str → EngineResult F
  decode_encode : ∀ c, decode (encode c) = .ok c.hash

structure Source (S N F : Type) where
  codec : CursorCodec N F
  headHash : List UInt8
  loadIndexesForField : Str → EngineResult (List (FieldIndex (List UInt8) S F))

structure SortData (F : Type) where
  values : Table (Prod.fst : F × List UInt8 → F)
  isVirtual : Bool
  field : Str
  direction : SortDirection

def isVirtualField (field : Str) : Bool := field.head? = some '@'

section

variable [LinearOrder N] [DecidableEq F]

def compareVirtual (field : Str) : QueryResult N F → QueryResult N F → Ordering :=
  match String.ofList field with
  | "@score" => compareOn (·.score)
  | "@path" => compareOn (·.path)
  | "@hash" => compareOn (·.contentHash)
  | "@size" => compareOn (·.totalSize)
  | "@created_at" => compareOn (·.createdAt)
  | "@updated_at" => compareOn (·.updatedAt)
  | _ => fun _ _ => .eq

def SortData.compare (sd : SortData F) : QueryResult N F → QueryResult N F → Ordering :=
  let cmp := if sd.isVirtual then compareVirtual sd.field else compareOn fun a => ((sd.values.get a.fileHash).map (·.2)).getD []
  match sd.direction with
  | .asc => cmp
  | .desc => fun a b => (cmp a b).swap

def compareBy : List (SortData F) → QueryResult N F → QueryResult N F → Ordering
  | [] => fun _ _ => .eq
  | sd :: rest => compareLex sd.compare (compareBy rest)

def precedes (fields : List (SortData F)) (a b : QueryResult N F) : Bool := (compareBy fields a b).isLE

def sortDataOf (source : Source S N F) (sf : SortField) : EngineResult (SortData F) :=
  if isVirtualField sf.field then .ok ⟨.empty, true, sf.field, sf.direction⟩
  else do
    let indexes ← source.loadIndexesForField sf.field
    match indexes.find? (·.converter.isOrderPreserving) with
    | some index => .ok ⟨index.values, false, sf.field, sf.direction⟩
    | none => .error (.notFound ("Cannot sort by field '" ++ String.ofList sf.field ++ "' — no order-preserving index found. " ++
        "Use a string, numeric, or timestamp index type."))

def sortResults (source : Source S N F) (orderBy : List SortField) (results : List (QueryResult N F)) : EngineResult (List (QueryResult N F)) :=
  if orderBy = [] ∨ results = [] then .ok results
  else do
    let fields ← orderBy.mapM (sortDataOf source)
    .ok (results.mergeSort (precedes fields))

end

def encodeCursor (source : Source S N F) (orderBy : List SortField) (result : QueryResult N F) : Str :=
  source.codec.encode {
    sortValues := (orderBy.filter fun sf => isVirtualField sf.field).map fun sf => (sf.field,
      match String.ofList sf.field with
      | "@score" => .score result.score
      | "@path" => .text result.path
      | "@size" => .number result.totalSize
      | "@created_at" => .number result.createdAt
      | "@updated_at" => .number result.updatedAt
      | "@hash" => .hex result.contentHash
      | _ => .null)
    hash := result.fileHash
    version := source.headHash }

def DEFAULT_QUERY_LIMIT : ℕ := 20

def Query.effectiveLimit (query : Query) : ℕ := query.limit.getD DEFAULT_QUERY_LIMIT

variable [LinearOrder N] [DecidableEq F] (source : Source S N F)

def skipCursor (after : Option Str) (results : List (QueryResult N F)) : EngineResult (List (QueryResult N F)) :=
  match after with
  | none => .ok results
  | some cursor => do
    let hash ← source.codec.decode cursor
    match results.findIdx? (·.fileHash = hash) with
    | some pos => .ok (results.drop (pos + 1))
    | none => .ok results

def cutCursor (before : Option Str) (results : List (QueryResult N F)) : EngineResult (List (QueryResult N F)) :=
  match before with
  | none => .ok results
  | some cursor => do
    let hash ← source.codec.decode cursor
    match results.findIdx? (·.fileHash = hash) with
    | some pos => .ok (results.take pos)
    | none => .ok results

def skipOffset (offset : ℕ) (results : List (QueryResult N F)) : List (QueryResult N F) :=
  if 0 < offset then
    if offset < results.length then results.drop offset else []
  else results

def pageOf (query : Query) (total : ℕ) (rest : List (QueryResult N F)) : PaginatedResult N F :=
  let hasMore := query.effectiveLimit < rest.length
  let page := rest.take query.effectiveLimit
  { results := page
    totalCount := if query.includeTotal then some total else none
    hasMore := hasMore
    nextCursor := if hasMore then page.getLast?.map (encodeCursor source query.orderBy) else none
    prevCursor := if 0 < query.offset.getD 0 ∨ query.after ≠ none then page.head?.map (encodeCursor source query.orderBy) else none
    defaultLimitHit := query.limit = none ∧ hasMore }

def executePaginated (results : List (QueryResult N F)) (query : Query) : EngineResult (PaginatedResult N F) := do
  let sorted ← sortResults source query.orderBy results
  let rest ← skipCursor source query.after sorted
  let rest ← cutCursor source query.before rest
  .ok (pageOf source query sorted.length (skipOffset (query.offset.getD 0) rest))

/-- All pages, each next one asked for with the cursor of the one before; `present` has the order in which each call finds the matches. -/
def followCursors (present : ℕ → List (QueryResult N F)) : ℕ → Query → EngineResult (Option (List (QueryResult N F)))
  | 0, _ => .ok none
  | fuel + 1, query => do
    let page ← executePaginated source (present 0) query
    match page.nextCursor with
    | none => .ok (some page.results)
    | some cursor => do
      let rest ← followCursors (fun i => present (i + 1)) fuel { query with after := some cursor }
      .ok (rest.map (page.results ++ ·))

end AeorDb.Query
