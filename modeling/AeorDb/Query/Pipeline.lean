import AeorDb.Query.Leaves
import AeorDb.Query.Aggregates

/-! The indexing pipeline: a stored file is parsed, the configured fields are read from the result, and their indexes updated. -/

namespace AeorDb.Query

open Store Library

variable {S H : Type}

inductive Json where
  | null
  | bool (b : Bool)
  | number (n : JsonNumber)
  | string (s : Str)
  | array (items : List Json)
  | object (fields : List (Str × Json))

/-- What the pipeline calls: plugins, the native parsers, the parser registry, the libraries for JSON text and for regular expressions. -/
structure IndexingTools (H : Type) where
  codec : MetadataCodec H
  render : Json → Str
  compileRegex : Str → Option (Str → Bool)
  parseJson : List UInt8 → EngineResult Json
  parserFor : Str → Option Str
  invokeParser : Str → Str → List UInt8 → Option Str → EngineResult Json
  parseNative : Str → List UInt8 → Str → Option (EngineResult Json)
  invokeMapper : Str → Json → Json → EngineResult (List UInt8)

namespace Json

def get : Json → Str → Option Json
  | .object fields, key => (fields.find? (·.1 = key)).map (·.2)
  | _, _ => none

def children : Json → List Json
  | .array items => items
  | .object fields => fields.map (·.2)
  | _ => []

def jsonValueToBytes (tools : IndexingTools H) : Json → List UInt8
  | .number (.posInt n) => beBytes 8 n.toNat
  | .number (.negInt n) => beBytes 8 n.toUInt64.toNat
  | .number (.float x) => beBytes 8 x.toBits.toNat
  | .string s => tools.codec.encode s
  | .bool b => [if b then 1 else 0]
  | .null => []
  | other => tools.codec.encode (tools.render other)

def valueToString (tools : IndexingTools H) : Json → Str
  | .string s => s
  | other => tools.render other

end Json

def parseRegex (tools : IndexingTools H) (s : Str) : Option (Str → Bool) :=
  if s.head? ≠ some '/' then none
  else
    let rest := s.drop 1
    match rfind '/' rest with
    | none => none
    | some closing =>
      let pattern := rest.take closing
      tools.compileRegex (if 'i' ∈ rest.drop (closing + 1) then "(?i)".toList ++ pattern else pattern)

def walkSegment (tools : IndexingTools H) (segment value : Json) : List Json :=
  match segment with
  | .string key =>
    if key = [] then value.children
    else
      match parseRegex tools key with
      | some isMatch =>
        match value with
        | .object fields => (fields.filter fun field => isMatch field.1).map (·.2)
        | .array items => items.filter fun item => isMatch (item.valueToString tools)
        | _ => []
      | none => (value.get key).toList
  | .number (.posInt index) =>
    match value with
    | .array items => items[index.toNat]?.toList
    | _ => (value.get (toString index).toList).toList
  | _ => []

def walkPaths (tools : IndexingTools H) (json : Json) (segments : List Json) : List Json :=
  segments.foldl (fun current segment => current.flatMap (walkSegment tools segment)) [json]

def resolveSources (tools : IndexingTools H) (json : Json) (source : List Json) : List (List UInt8) :=
  (walkPaths tools json source).map (Json.jsonValueToBytes tools)

structure IndexFieldConfig where
  name : Str
  indexType : Str
  source : Option Json
  -- the bits of an `f64`
  min : Option ℕ
  max : Option ℕ

structure PathIndexConfig where
  indexes : List IndexFieldConfig
  parser : Option Str

structure Document (H : Type) where
  path : Str
  data : List UInt8
  contentType : Option Str
  record : Option (FileRecord H)

section

variable (tools : IndexingTools H)

def lookupParserByContentType (contentType : Option Str) : Option Str :=
  contentType.bind fun ct => if ct = "application/json".toList then none else tools.parserFor ct

def parseIndexDocument (config : PathIndexConfig) (d : Document H) : Option Json :=
  match config.parser with
  | some parser => (tools.invokeParser parser d.path d.data d.contentType).toOption
  | none =>
    match lookupParserByContentType tools d.contentType with
    | some parser => (tools.invokeParser parser d.path d.data d.contentType).toOption
    | none =>
      match tools.parseJson d.data with
      | .ok json => some json
      | .error _ =>
        (tools.parseNative (d.contentType.getD "application/octet-stream".toList) d.data d.path).bind (·.toOption)

def nonEmpty (values : List (List UInt8)) : Option (List (List UInt8)) := if values.isEmpty then none else some values

def extractFieldValues (field : IndexFieldConfig) (json : Json) : EngineResult (Option (List (List UInt8))) :=
  match field.source with
  | some source =>
    match source with
    | .object _ =>
      match source.get "plugin".toList with
      | some (.string plugin) => (tools.invokeMapper plugin json ((source.get "args".toList).getD .null)).map fun value => some [value]
      | _ => .ok none
    | .array segments => .ok (nonEmpty (resolveSources tools json segments))
    | _ => .ok none
  | none => .ok (nonEmpty (resolveSources tools json [.string field.name]))

end

structure IndexKind (S : Type) where
  strategy : Str
  converter : ScalarConverter (List UInt8) S
  whole : converter.typeTag ≠ .trigram → converter.typeTag ≠ .phonetic → ∀ v, converter.expandValue v = [v]
  dotless : '.' ∉ strategy

structure IndexFiles (S : Type) {H : Type} [DecidableEq H] (hs : Hasher H) where
  table : Table (Prod.fst : Str × StoredIndex S H → Str)
  keys : ∀ e ∈ table.entries, ∀ h, assigned e.2.ops h ≠ [] → ∃ path, h = hs.filePathHash path

namespace IndexFiles

variable [DecidableEq H] {hs : Hasher H}

def empty : IndexFiles S hs := ⟨.empty, fun _ h => nomatch h⟩

def loadOrNew (files : IndexFiles S hs) (name fieldName : Str) (kind : IndexKind S) : StoredIndex S H :=
  match files.table.get name with
  | some e => e.2
  | none => ⟨fieldName, kind.converter, [], kind.whole⟩

lemma assigned_append_update (ops : List (IndexOp (List UInt8) H)) (h : H) (values : List (List UInt8)) :
    assigned (ops ++ [.update h values]) = Function.update (assigned ops) h values := by
  rw [assigned, List.foldl_append]
  rfl

def current (files : IndexFiles S hs) (name : Str) : H → List (List UInt8) :=
  match files.table.get name with
  | some e => assigned e.2.ops
  | none => fun _ => []

lemma assigned_loadOrNew (files : IndexFiles S hs) (name fieldName : Str) (kind : IndexKind S) :
    assigned (files.loadOrNew name fieldName kind).ops = files.current name := by
  rw [loadOrNew, current]
  cases files.table.get name with
  | none => rfl
  | some e => rfl

lemma exists_path_of_current {files : IndexFiles S hs} {name : Str} {h : H} (hne : files.current name h ≠ []) :
    ∃ path, h = hs.filePathHash path := by
  rw [current] at hne
  cases hget : files.table.get name with
  | none =>
    rw [hget] at hne
    exact absurd rfl hne
  | some e =>
    rw [hget] at hne
    exact files.keys e (Table.get_eq_some.mp hget).1 h hne

def update (files : IndexFiles S hs) (fieldName : Str) (kind : IndexKind S) (values : List (List UInt8)) (path : Str) : IndexFiles S hs :=
  let name := fieldName ++ '.' :: kind.strategy
  let stored := files.loadOrNew name fieldName kind
  let fileKey := hs.filePathHash (normalizePath path)
  ⟨files.table.insert (name, { stored with ops := stored.ops ++ [.update fileKey values] }), by
    intro e he h hne
    rcases Table.mem_insert.mp he with rfl | ⟨he, _⟩
    · dsimp only at hne
      rw [assigned_append_update, Function.update_apply] at hne
      split_ifs at hne with hkey
      · exact ⟨_, hkey⟩
      · rw [assigned_loadOrNew] at hne
        exact exists_path_of_current hne
    · exact files.keys e he h hne⟩

end IndexFiles

variable [DecidableEq H] {hs : Hasher H} (tools : IndexingTools H) (kindOf : IndexFieldConfig → EngineResult (IndexKind S))

def updateIndex (fieldName : Str) (field : IndexFieldConfig) (values : List (List UInt8)) (path : Str) (files : IndexFiles S hs) :
    EngineResult (IndexFiles S hs) :=
  (kindOf field).map fun kind => files.update fieldName kind values path

def indexMetaField (d : Document H) (field : IndexFieldConfig) (files : IndexFiles S hs) : EngineResult (IndexFiles S hs) :=
  match d.record with
  | none => .ok files
  | some record =>
    match canonicalVirtualFieldName field.name with
    | none => .ok files
    | some virtual => updateIndex kindOf virtual.name field [extractMetadataFieldValue tools.codec record virtual] d.path files

def indexField (d : Document H) (json : Json) (field : IndexFieldConfig) (files : IndexFiles S hs) : EngineResult (IndexFiles S hs) :=
  if field.name.head? = some '@' then indexMetaField tools kindOf d field files
  else
    match extractFieldValues tools field json with
    | .error e => .error e
    | .ok none => .ok files
    | .ok (some values) => updateIndex kindOf field.name field values d.path files

def logged (files : IndexFiles S hs) (result : EngineResult (IndexFiles S hs)) : IndexFiles S hs := result.toOption.getD files

def run (config : PathIndexConfig) (files : IndexFiles S hs) (d : Document H) : IndexFiles S hs :=
  if isInternalPath d.path then files
  else
    let metaFields := config.indexes.filter fun field => field.name.head? = some '@'
    let contentFields := config.indexes.filter fun field => field.name.head? ≠ some '@'
    let files := metaFields.foldl (fun files field => logged files (indexMetaField tools kindOf d field files)) files
    if contentFields = [] ∧ config.parser = none ∧ lookupParserByContentType tools d.contentType = none then files
    else
      match parseIndexDocument tools config d with
      | none => files
      | some json => contentFields.foldl (fun files field => logged files (indexField tools kindOf d json field files)) files

def runAll (config : PathIndexConfig) (ds : List (Document H)) : IndexFiles S hs := ds.foldl (run tools kindOf config) .empty

end AeorDb.Query
