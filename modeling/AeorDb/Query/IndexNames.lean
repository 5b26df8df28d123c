import AeorDb.Query.Reindex

/-! An index is filed under its field and strategy, joined by a dot, and found again by that name. -/

namespace AeorDb.Query.Catalog

open Store Library List

variable {S H : Type} [DecidableEq H] {cat : Catalog S H} {dir f : Str} {e : Str × StoredIndex S H}

/-- Every file is named after the field of its index and a strategy. -/
def Filed (cat : Catalog S H) (dir : Str) : Prop :=
  ∀ e ∈ (cat.indexesAt (normalizePath dir)).entries, ∃ strategy, '.' ∉ strategy ∧ e.1 = e.2.fieldName ++ '.' :: strategy

def indexesSavedFor (cat : Catalog S H) (dir f : Str) : List (StoredIndex S H) :=
  (cat.indexesAt (normalizePath dir)).entries.filterMap fun e => if e.2.fieldName = f then some e.2 else none

/-- What the name of a listed file makes the lookup of `f` load. -/
def loadNamed (cat : Catalog S H) (dir f name : Str) : Option (StoredIndex S H) :=
  if name = f ∨ (f ++ ['.']).isPrefixOf name then
    match cat.loadIndexByStrategy dir f (strategyOf name) with
    | some index => some index
    | none => if strategyOf name = "string".toList then cat.loadIndex dir f else none
  else none

lemma loadIndexesForField_perm : (cat.loadIndexesForField dir f).Perm
    ((cat.indexesAt (normalizePath dir)).entries.filterMap fun e => cat.loadNamed dir f e.1) := by
  have hperm := (mergeSort_perm ((cat.indexesAt (normalizePath dir)).entries.map (·.1)) (· ≤ ·)).filterMap (cat.loadNamed dir f)
  rwa [filterMap_map] at hperm

lemma loadNamed_own (he : e ∈ (cat.indexesAt (normalizePath dir)).entries) (hdot : '.' ∉ f) {rest : Str} (hname : e.1 = f ++ '.' :: rest) :
    cat.loadNamed dir f e.1 = some e.2 := by
  have hstarts : (f ++ ['.']).isPrefixOf e.1 = true := List.isPrefixOf_iff_prefix.mpr ⟨rest, by simp [hname]⟩
  have hload : cat.loadIndexByStrategy dir f (strategyOf e.1) = some e.2 := by
    rw [loadIndexByStrategy, hname, strategyOf_append hdot, ← hname, indexNamed_of_mem he]
  rw [loadNamed, if_pos (.inr hstarts), hload]

/-- Neither a field with a dot nor a strategy that is also the name of the old format. -/
def Unambiguous (cat : Catalog S H) (dir : Str) : Prop :=
  ∀ e ∈ (cat.indexesAt (normalizePath dir)).entries, '.' ∉ e.2.fieldName ∧ e.1 ≠ e.2.fieldName ++ '.' :: "string".toList

section

variable (hfiled : cat.Filed dir) (hdotless : ∀ e ∈ (cat.indexesAt (normalizePath dir)).entries, '.' ∉ e.2.fieldName)

include hfiled hdotless

lemma count_name (he : e ∈ (cat.indexesAt (normalizePath dir)).entries) : e.1.count '.' = 1 := by
  obtain ⟨strategy, hstrategy, hname⟩ := hfiled e he
  rw [hname, count_append, count_cons_self, count_eq_zero_of_not_mem (hdotless e he), count_eq_zero_of_not_mem hstrategy]

lemma loadIndexByStrategy_of_dot (hdot : '.' ∈ f) (strategy : Str) : cat.loadIndexByStrategy dir f strategy = none := by
  rw [loadIndexByStrategy, indexNamed, Option.map_eq_none_iff, Table.get_eq_none]
  intro hmem
  obtain ⟨e, he, hname⟩ := Table.mem_keys.mp hmem
  have hone := count_name hfiled hdotless he
  have hpos := count_pos_iff.mpr hdot
  rw [hname, count_append, count_cons_self] at hone
  omega

lemma loadNamed_name (he : e ∈ (cat.indexesAt (normalizePath dir)).entries) : cat.loadNamed dir e.1 e.1 =
    if strategyOf e.1 = "string".toList then some e.2 else none := by
  have hdot : '.' ∈ e.1 := count_pos_iff.mp (count_name hfiled hdotless he ▸ Nat.one_pos)
  rw [loadNamed, if_pos (.inl rfl), loadIndexByStrategy_of_dot hfiled hdotless hdot, loadIndex, indexNamed_of_mem he]

lemma fieldName_eq_of_starts (he : e ∈ (cat.indexesAt (normalizePath dir)).entries) (hstarts : (f ++ ['.']).isPrefixOf e.1 = true) :
    e.2.fieldName = f := by
  obtain ⟨strategy, hstrategy, hname⟩ := hfiled e he
  obtain ⟨rest, hrest⟩ := List.isPrefixOf_iff_prefix.mp hstarts
  rw [append_assoc, singleton_append, hname] at hrest
  exact ((append_cons_inj_of_notMem (hdotless e he) hstrategy).mp hrest.symm).1

end

def savedAlone (fieldName : Str) : Catalog ℕ Digest :=
  (⟨⟨[(fieldName ++ ".u64".toList, ⟨fieldName, wholeValue (fun _ => 0) true "u64" .u64, [], u64_whole⟩)], nodup_singleton _⟩,
    fun e he h hne => absurd (by rw [mem_singleton.mp he]; rfl) hne⟩ : IndexFiles ℕ Digest.hasher).catalog byteTools.codec ['/']

lemma filed_savedAlone (fieldName : Str) : (savedAlone fieldName).Filed ['/'] := by
  intro e he
  obtain rfl := mem_singleton.mp he
  exact ⟨"u64".toList, by decide, rfl⟩

end AeorDb.Query.Catalog
