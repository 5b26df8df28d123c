import AeorDb.Query.Leaves

/-! Which indexes answer an exact query, and what the answer is. -/

namespace AeorDb.Query

open Store Library List

variable {S H : Type}

def QueryOp.exactValues : QueryOp → Option (List (List UInt8))
  | .eq value => some [value]
  | .isIn values => some values
  | _ => none

lemma virtualFieldMatches_exact (codec : MetadataCodec H) (field : VirtualField) {op : QueryOp} {vs : List (List UInt8)} (hop : op.exactValues = some vs) (record : FileRecord H) :
    ∃ b, virtualFieldMatches codec record op field = .ok b := by
  cases op with
  | eq v => cases field <;> exact ⟨_, rfl⟩
  | isIn values => cases field <;> exact ⟨_, rfl⟩
  | gt _ => cases field <;> exact ⟨_, rfl⟩
  | lt _ => cases field <;> exact ⟨_, rfl⟩
  | between _ _ => cases hop

namespace Catalog

variable [DecidableEq H] (cat : Catalog S H) (path : Str)

def isKept (record : FileRecord H) : Bool := pathIsUnderQueryPath record.path (normalizePath path)

def fieldValues (fieldName : Str) (record : FileRecord H) : List (List UInt8) :=
  match canonicalVirtualFieldName fieldName with
  | some field => [extractMetadataFieldValue cat.codec record field]
  | none => cat.values (normalizePath path) fieldName record.path

/-- The indexes that a leaf on the field is answered from, and whether they are those of an ancestor. Without any, records are scanned. -/
def answering (fieldName : Str) : Option (List (StoredIndex S H) × Bool) :=
  match canonicalVirtualFieldName fieldName with
  | none => some (cat.loadIndexesForField path fieldName, false)
  | some field =>
    if (cat.loadIndexesForField path field.name).isEmpty then
      ((virtualIndexAncestorPaths path).find? fun dir => !(cat.loadIndexesForField dir field.name).isEmpty).map fun dir =>
        (cat.loadIndexesForField dir field.name, true)
    else some (cat.loadIndexesForField path field.name, false)

def lastValue (stored : StoredIndex S H) (record : FileRecord H) : Option (List UInt8) :=
  (assigned stored.ops (cat.hs.filePathHash record.path)).getLast?

def Queryable (fieldName : Str) : Prop := canonicalVirtualFieldName fieldName = none → cat.loadIndexesForField path fieldName ≠ []

variable {cat path}

section

variable {r : FileRecord H}

lemma getEntry_filePathHash (hr : r ∈ cat.records.entries) : cat.getEntry (cat.hs.filePathHash r.path) = some r := by
  have hget : cat.records.get r.path = some r := Table.get_eq_some.mpr ⟨hr, rfl⟩
  rw [← hget, getEntry, Table.get]
  congr 1
  funext r'
  simp [Hasher.filePathHash, Hasher.fileIdentityHash, eq_comm]

variable {result : Finset H}

lemma mem_filterHashesToQueryPath (hr : r ∈ cat.records.entries) :
    cat.hs.filePathHash r.path ∈ cat.filterHashesToQueryPath result path ↔ cat.hs.filePathHash r.path ∈ result ∧ isKept path r = true := by
  rw [filterHashesToQueryPath]
  split_ifs with hroot
  · simp [isKept, pathIsUnderQueryPath, hroot]
  · simp [getEntry_filePathHash hr, isKept]

lemma mem_of_mem_filterHashesToQueryPath {hash : H} (h : hash ∈ cat.filterHashesToQueryPath result path) :
    hash ∈ result := by
  rw [filterHashesToQueryPath] at h
  split_ifs at h
  · exact h
  · exact (Finset.mem_filter.mp h).1

end

variable {query : FieldQuery} {vs : List (List UInt8)}

structure Answer (cat : Catalog S H) (path : Str) (indexes : List (StoredIndex S H)) (filtered : Bool) (vs : List (List UInt8))
    (result : Finset H) : Prop where
  keys : ∀ hash ∈ result, ∃ p, hash = cat.hs.filePathHash p
  mem : ∀ r ∈ cat.records.entries, cat.hs.filePathHash r.path ∈ result ↔
    (filtered = true → isKept path r = true) ∧ ∃ stored ∈ exactIndexes indexes, ∃ v ∈ vs, cat.lastValue stored r = some v

lemma Answer.filter {indexes : List (StoredIndex S H)} {result : Finset H} (h : cat.Answer path indexes false vs result) :
    cat.Answer path indexes true vs (cat.filterHashesToQueryPath result path) where
  keys hash hmem := h.keys hash (mem_of_mem_filterHashesToQueryPath hmem)
  mem r hr := by
    rw [mem_filterHashesToQueryPath hr, h.mem r hr]
    simp [and_comm]

lemma scanVirtualField_ok {field : VirtualField} (hop : query.operation.exactValues = some vs) :
    ∃ result, cat.scanVirtualField query field path = .ok result ∧
      ∀ hash ∈ result, ∃ r ∈ cat.listDirectoryRecursive path, hash = cat.hs.fileIdentityHash r.path r.contentType r.chunkHashes := by
  have hfold : ∀ (records : List (FileRecord H)) (acc : Finset H), ∃ result,
      records.foldlM (fun matching record => do
        if ← virtualFieldMatches cat.codec record query.operation field then
          .ok (insert (cat.hs.fileIdentityHash record.path record.contentType record.chunkHashes) matching)
        else .ok matching) acc = (.ok result : EngineResult (Finset H)) ∧
      ∀ hash ∈ result, hash ∈ acc ∨ ∃ r ∈ records, hash = cat.hs.fileIdentityHash r.path r.contentType r.chunkHashes := by
    intro records
    induction records with
    | nil => exact fun acc => ⟨acc, rfl, fun hash h => .inl h⟩
    | cons record records ih =>
      intro acc
      obtain ⟨b, hb⟩ := virtualFieldMatches_exact cat.codec field hop record
      rw [foldlM_cons, hb]
      cases b with
      | false =>
        obtain ⟨result, hresult, hmem⟩ := ih acc
        refine ⟨result, hresult, fun hash h => (hmem hash h).imp id fun ⟨r, hr, heq⟩ => ⟨r, mem_cons_of_mem _ hr, heq⟩⟩
      | true =>
        obtain ⟨result, hresult, hmem⟩ := ih (insert (cat.hs.fileIdentityHash record.path record.contentType record.chunkHashes) acc)
        refine ⟨result, hresult, fun hash h => ?_⟩
        rcases hmem hash h with hinsert | ⟨r, hr, heq⟩
        · rcases Finset.mem_insert.mp hinsert with rfl | hacc
          · exact .inr ⟨record, mem_cons_self .., rfl⟩
          · exact .inl hacc
        · exact .inr ⟨r, mem_cons_of_mem _ hr, heq⟩
  obtain ⟨result, hresult, hmem⟩ := hfold (cat.listDirectoryRecursive path) ∅
  refine ⟨result, hresult, fun hash h => ?_⟩
  simpa using hmem hash h

variable [LinearOrder S] {sc : Scale S} {dir : Str}

lemma evaluateIndexedFieldQuery_exact (hop : query.operation.exactValues = some vs) :
    cat.evaluateIndexedFieldQuery sc query dir = cat.evaluateExactFieldValues sc query.fieldName dir vs := by
  obtain ⟨fieldName, op⟩ := query
  cases op with
  | eq v =>
    obtain rfl : [v] = vs := Option.some.inj hop
    rfl
  | isIn values =>
    obtain rfl : values = vs := Option.some.inj hop
    rfl
  | gt _ => cases hop
  | lt _ => cases hop
  | between _ _ => cases hop

lemma evaluateIndexedFieldQuery_answer (sc : Scale S) (cat : Catalog S H) (path : Str) (hop : query.operation.exactValues = some vs)
    (hne : cat.loadIndexesForField dir query.fieldName ≠ []) :
    ∃ result, cat.evaluateIndexedFieldQuery sc query dir = .ok result ∧ cat.Answer path (cat.loadIndexesForField dir query.fieldName) false vs result := by
  obtain ⟨result, hresult, hmem⟩ := mem_evaluateExactFieldValues sc cat hne vs
  refine ⟨result, (evaluateIndexedFieldQuery_exact hop).trans hresult, fun hash h => ?_, fun r _ => ?_⟩
  · obtain ⟨stored, hstored, v, _, hlast⟩ := (hmem hash).mp h
    obtain ⟨e, he, rfl⟩ := exists_of_mem_loadIndexesForField (mem_of_mem_exactIndexes hstored)
    refine cat.keys _ e he hash fun hnil => ?_
    simp [hnil] at hlast
  · simp [hmem, lastValue]

lemma evaluateAtAncestors_answer (sc : Scale S) (cat : Catalog S H) (path : Str) (hop : query.operation.exactValues = some vs) (ancestors : List Str) :
    match ancestors.find? fun dir => !(cat.loadIndexesForField dir query.fieldName).isEmpty with
    | none => ∃ what, cat.evaluateAtAncestors sc query path ancestors = .error (.notFound what)
    | some dir => ∃ result, cat.evaluateAtAncestors sc query path ancestors = .ok result ∧
        cat.Answer path (cat.loadIndexesForField dir query.fieldName) true vs result := by
  induction ancestors with
  | nil => exact ⟨_, rfl⟩
  | cons dir ancestors ih =>
    rw [evaluateAtAncestors]
    by_cases hnone : (cat.loadIndexesForField dir query.fieldName).isEmpty = true
    · rw [find?_cons_of_neg (by simp [hnone]), if_pos hnone]
      exact ih
    · obtain ⟨result, hresult, hanswer⟩ := evaluateIndexedFieldQuery_answer sc cat path hop
        (by simpa using hnone : cat.loadIndexesForField dir query.fieldName ≠ [])
      rw [find?_cons_of_pos (by simpa using hnone), if_neg hnone, hresult]
      exact ⟨_, rfl, hanswer.filter⟩

lemma evaluateFieldQuery_answer (sc : Scale S) (query : FieldQuery) (hop : query.operation.exactValues = some vs) (hquery : cat.Queryable path query.fieldName) :
    match cat.answering path query.fieldName with
    | some (indexes, filtered) => ∃ result, cat.evaluateFieldQuery sc query path = .ok result ∧ cat.Answer path indexes filtered vs result
    | none => ∃ result, cat.evaluateFieldQuery sc query path = .ok result ∧
        ∀ hash ∈ result, ∃ r ∈ cat.listDirectoryRecursive path, hash = cat.hs.fileIdentityHash r.path r.contentType r.chunkHashes := by
  rw [evaluateFieldQuery, answering]
  cases hfield : canonicalVirtualFieldName query.fieldName with
  | none => exact evaluateIndexedFieldQuery_answer sc cat path hop (hquery hfield)
  | some field =>
    dsimp only
    rw [evaluateVirtualFieldQuery, evaluateIndexedVirtualFieldQuery]
    have hop' : (FieldQuery.mk field.name query.operation).operation.exactValues = some vs := hop
    by_cases hnone : (cat.loadIndexesForField path field.name).isEmpty = true
    · rw [if_pos hnone, evaluateIndexedFieldQuery_exact hop', evaluateExactFieldValues]
      simp only [List.isEmpty_iff.mp hnone, indexNotFound]
      have hancestors := evaluateAtAncestors_answer sc cat path hop' (virtualIndexAncestorPaths path)
      dsimp only at hancestors ⊢
      cases hfind : (virtualIndexAncestorPaths path).find? fun dir => !(cat.loadIndexesForField dir field.name).isEmpty with
      | none =>
        rw [hfind] at hancestors
        obtain ⟨what, herror⟩ := hancestors
        rw [herror]
        exact scanVirtualField_ok hop
      | some dir =>
        rw [hfind] at hancestors
        obtain ⟨result, hresult, hanswer⟩ := hancestors
        rw [hresult]
        exact ⟨result, rfl, hanswer⟩
    · obtain ⟨result, hresult, hanswer⟩ := evaluateIndexedFieldQuery_answer sc cat path hop'
        (by simpa using hnone : cat.loadIndexesForField path field.name ≠ [])
      rw [if_neg hnone, hresult]
      exact ⟨result, rfl, hanswer⟩

end Catalog

end AeorDb.Query
