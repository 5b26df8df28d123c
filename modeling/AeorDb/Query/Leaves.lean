import AeorDb.Query.Boolean
import AeorDb.Library.Result

/-! What the leaves of a boolean query return. -/

namespace AeorDb.Query

open Store Library List

variable {S H : Type}

def StoredIndex.isExact (stored : StoredIndex S H) : Bool := stored.converter.typeTag ≠ .trigram ∧ stored.converter.typeTag ≠ .phonetic

def exactIndexes (indexes : List (StoredIndex S H)) : List (StoredIndex S H) :=
  if indexes.any (·.isExact) then indexes.filter (·.isExact) else indexes

variable {indexes : List (StoredIndex S H)}

lemma mem_of_mem_exactIndexes {stored : StoredIndex S H} (h : stored ∈ exactIndexes indexes) :
    stored ∈ indexes := by
  rw [exactIndexes] at h
  split_ifs at h
  · exact mem_of_mem_filter h
  · exact h

lemma exactIndexes_ne_nil (h : indexes ≠ []) : exactIndexes indexes ≠ [] := by
  rw [exactIndexes]
  split_ifs with hany
  · obtain ⟨stored, hstored, hexact⟩ := any_eq_true.mp hany
    exact ne_nil_of_mem (mem_filter.mpr ⟨hstored, hexact⟩)
  · exact h

section

variable [LinearOrder S] [DecidableEq H] {sc : Scale S}

lemma StoredIndex.tracks (sc : Scale S) (stored : StoredIndex S H) : Tracks sc (stored.index sc) (assigned stored.ops) :=
  tracks_runOps sc stored.fieldName stored.converter stored.ops

lemma StoredIndex.index_converter (stored : StoredIndex S H) : (stored.index sc).converter = stored.converter :=
  runOps_converter sc _ stored.ops

lemma StoredIndex.supportsScalarExactLookup_index (stored : StoredIndex S H) :
    (stored.index sc).supportsScalarExactLookup = stored.isExact := by
  rw [FieldIndex.supportsScalarExactLookup, stored.index_converter]
  rfl

lemma StoredIndex.mem_lookupExact {stored : StoredIndex S H} (h : stored.isExact = true) (v : List UInt8) (hash : H) :
    hash ∈ files ((stored.index sc).lookupExact sc v) ↔ (assigned stored.ops hash).getLast? = some v := by
  obtain ⟨htrigram, hphonetic⟩ := of_decide_eq_true h
  exact (stored.tracks sc).mem_lookupExact (fun w => by rw [stored.index_converter, stored.whole htrigram hphonetic]) v hash

lemma StoredIndex.mem_lookupStoredValuesExact (stored : StoredIndex S H) (vs : List (List UInt8)) (hash : H) :
    hash ∈ (stored.index sc).lookupStoredValuesExact vs ↔ ∃ v ∈ vs, (assigned stored.ops hash).getLast? = some v := by
  have hvalues := (stored.tracks sc).values hash
  simp only [FieldIndex.lookupStoredValuesExact, mem_map, mem_filter, decide_eq_true_eq]
  constructor
  · rintro ⟨e, ⟨he, hv⟩, rfl⟩
    rw [Table.get_eq_some.mpr ⟨he, rfl⟩] at hvalues
    obtain ⟨v, hlast, heq⟩ := Option.map_eq_some_iff.mp hvalues.symm
    rw [← heq] at hv
    exact ⟨v, hv, heq ▸ hlast⟩
  · rintro ⟨v, hv, hlast⟩
    rw [hlast] at hvalues
    exact ⟨(hash, v), ⟨(Table.get_eq_some.mp hvalues).1, hv⟩, rfl⟩

lemma mem_evaluateExactFieldValues (sc : Scale S) (cat : Catalog S H) {fieldName dir : Str} (hne : cat.loadIndexesForField dir fieldName ≠ [])
    (vs : List (List UInt8)) : ∃ result, cat.evaluateExactFieldValues sc fieldName dir vs = .ok result ∧ ∀ hash, hash ∈ result ↔
      ∃ stored ∈ exactIndexes (cat.loadIndexesForField dir fieldName), ∃ v ∈ vs, (assigned stored.ops hash).getLast? = some v := by
  have hempty : ((cat.loadIndexesForField dir fieldName).map (·.index sc)).isEmpty = false := by simpa using hne
  have hany : ((cat.loadIndexesForField dir fieldName).map (·.index sc)).any (·.supportsScalarExactLookup) =
      (cat.loadIndexesForField dir fieldName).any (·.isExact) := by
    simp only [any_map, Function.comp_def, StoredIndex.supportsScalarExactLookup_index]
  rw [Catalog.evaluateExactFieldValues]
  simp only [hempty, hany, Bool.false_eq_true, if_false]
  by_cases hexact : (cat.loadIndexesForField dir fieldName).any (·.isExact) = true
  · refine ⟨_, if_pos hexact, fun hash => ?_⟩
    rw [exactIndexes, if_pos hexact]
    simp only [mem_toFinset, mem_flatMap, mem_filter, mem_map]
    constructor
    · rintro ⟨_, ⟨⟨stored, hstored, rfl⟩, hsupports⟩, v, hv, hmem⟩
      rw [stored.supportsScalarExactLookup_index] at hsupports
      exact ⟨stored, ⟨hstored, hsupports⟩, v, hv, (StoredIndex.mem_lookupExact hsupports v hash).mp hmem⟩
    · rintro ⟨stored, ⟨hstored, hsupports⟩, v, hv, hlast⟩
      refine ⟨_, ⟨⟨stored, hstored, rfl⟩, ?_⟩, v, hv, (StoredIndex.mem_lookupExact hsupports v hash).mpr hlast⟩
      rw [stored.supportsScalarExactLookup_index, hsupports]
  · refine ⟨_, if_neg hexact, fun hash => ?_⟩
    rw [exactIndexes, if_neg hexact]
    simp only [mem_toFinset, mem_flatMap, mem_filter, mem_map]
    constructor
    · rintro ⟨_, ⟨⟨stored, hstored, rfl⟩, _⟩, hmem⟩
      exact ⟨stored, hstored, (stored.mem_lookupStoredValuesExact vs hash).mp hmem⟩
    · rintro ⟨stored, hstored, hfound⟩
      have hmem : hash ∈ (stored.index sc).lookupStoredValuesExact vs := (stored.mem_lookupStoredValuesExact vs hash).mpr hfound
      refine ⟨_, ⟨⟨stored, hstored, rfl⟩, ?_⟩, hmem⟩
      obtain ⟨e, he, _⟩ := mem_map.mp hmem
      simpa using ne_nil_of_mem (mem_of_mem_filter he)

end

namespace Catalog

variable [DecidableEq H] {cat : Catalog S H} {dir : Str} {stored : StoredIndex S H}

lemma exists_of_indexNamed {name : Str} (h : cat.indexNamed dir name = some stored) :
    ∃ e ∈ (cat.indexesAt (normalizePath dir)).entries, e.2 = stored := by
  obtain ⟨e, he, rfl⟩ := Option.map_eq_some_iff.mp h
  exact ⟨e, (Table.get_eq_some.mp he).1, rfl⟩

variable {e : Str × StoredIndex S H} {fieldName : Str}

lemma indexNamed_of_mem (he : e ∈ (cat.indexesAt (normalizePath dir)).entries) :
    cat.indexNamed dir e.1 = some e.2 := by
  rw [indexNamed, Table.get_eq_some.mpr ⟨he, rfl⟩]
  rfl

lemma exists_of_mem_loadIndexesForField (h : stored ∈ cat.loadIndexesForField dir fieldName) :
    ∃ e ∈ (cat.indexesAt (normalizePath dir)).entries, e.2 = stored := by
  obtain ⟨name, _, h⟩ := mem_filterMap.mp h
  split at h
  case isTrue =>
    split at h
    case h_1 index hnamed =>
      cases h
      exact exists_of_indexNamed hnamed
    case h_2 =>
      split_ifs at h
      rw [loadIndex] at h
      split at h
      case h_1 index hnamed =>
        cases h
        exact exists_of_indexNamed hnamed
      case h_2 =>
        split at h
        · exact exists_of_indexNamed h
        · cases h
  case isFalse => cases h

lemma rfind_split {c : Char} {s : Str} {i : ℕ} (h : rfind c s = some i) : s.take i ++ c :: s.drop (i + 1) = s := by
  induction s generalizing i with
  | nil => cases h
  | cons a s ih =>
    rw [rfind] at h
    cases hfind : rfind c s with
    | some j =>
      rw [hfind] at h
      obtain rfl : j + 1 = i := Option.some.inj h
      simpa using ih hfind
    | none =>
      simp only [hfind] at h
      split_ifs at h with ha
      obtain rfl : 0 = i := Option.some.inj h
      simp [ha]

lemma loadIndexByName_of_mem (he : e ∈ (cat.indexesAt (normalizePath dir)).entries) :
    cat.loadIndexByName dir e.1 = some e.2 := by
  rw [loadIndexByName]
  cases hdot : rfind '.' e.1 with
  | some i =>
    dsimp only
    rw [loadIndexByStrategy, rfind_split hdot]
    exact indexNamed_of_mem he
  | none =>
    dsimp only
    rw [loadIndex, indexNamed_of_mem he]

def Listed (cat : Catalog S H) (dir : Str) (hash : H) : Prop :=
  ∃ e ∈ (cat.indexesAt (normalizePath dir)).entries, ∃ v ∈ assigned e.2.ops hash, e.2.converter.expandValue v ≠ []

lemma mem_entries_iff [LinearOrder S] {sc : Scale S} {hash : H} :
    hash ∈ (stored.index sc).entries.map (·.fileHash) ↔ ∃ v ∈ assigned stored.ops hash, stored.converter.expandValue v ≠ [] := by
  rw [mem_map]
  constructor
  · rintro ⟨entry, hentry, rfl⟩
    obtain ⟨v, hv, token, htoken, _⟩ := ((stored.tracks sc).entries entry).mp hentry
    rw [stored.index_converter] at htoken
    exact ⟨v, hv, ne_nil_of_mem htoken⟩
  · rintro ⟨v, hv, hne⟩
    obtain ⟨token, htoken⟩ := exists_mem_of_ne_nil _ hne
    refine ⟨⟨stored.converter.toScalar token, hash⟩, ((stored.tracks sc).entries _).mpr ⟨v, hv, token, ?_, ?_⟩, rfl⟩
    · rwa [stored.index_converter]
    · rw [stored.index_converter]

lemma mem_collectAllHashes [LinearOrder S] (sc : Scale S) {hash : H} : hash ∈ cat.collectAllHashes sc dir ↔ cat.Listed dir hash := by
  rw [collectAllHashes, mem_toFinset, mem_flatMap]
  constructor
  · rintro ⟨name, hname, hmem⟩
    obtain ⟨e, he, rfl⟩ := mem_map.mp ((mergeSort_perm _ _).mem_iff.mp hname)
    rw [loadIndexByName_of_mem he] at hmem
    exact ⟨e, he, mem_entries_iff.mp hmem⟩
  · rintro ⟨e, he, hlisted⟩
    refine ⟨e.1, (mergeSort_perm _ _).mem_iff.mpr (mem_map_of_mem he), ?_⟩
    rw [loadIndexByName_of_mem he]
    exact mem_entries_iff.mpr hlisted

end Catalog

end AeorDb.Query
