import AeorDb.Query.Cursors

/-! Asking for the page before a page. -/

namespace AeorDb.Query

open Library Store List

section

variable {S N F : Type} [LinearOrder N] [DecidableEq F] {source : Source S N F} {fields : List (SortData F)} {query : Query}
  {found : MatchSet N F} {results results' : List (QueryResult N F)} {first last : QueryResult N F}

/-- No two of the found results are tied. -/
def TotalOn (fields : List (SortData F)) (found : MatchSet N F) : Prop :=
  ∀ a ∈ found.results, ∀ b ∈ found.results, precedes fields a b = true → precedes fields b a = true → a = b

/-- The results ahead of `first`. -/
def ahead (fields : List (SortData F)) (found : MatchSet N F) (first : QueryResult N F) : List (QueryResult N F) :=
  (found.results.mergeSort (precedes fields)).takeWhile (·.fileHash ≠ first.fileHash)

lemma mergeSort_eq (htotal : TotalOn fields found) (hresults : results.Perm found.results) :
    results.mergeSort (precedes fields) = found.results.mergeSort (precedes fields) := by
  have hordered := Paging.ordered_mergeSort (totalPreorder_precedes (N := N) fields)
  refine List.Perm.eq_of_pairwise (fun a b ha hb => ?_) (hordered results) (hordered found.results)
    ((mergeSort_perm ..).trans (hresults.trans (mergeSort_perm ..).symm))
  exact htotal a (hresults.mem_iff.mp (mem_mergeSort.mp ha)) b (mem_mergeSort.mp hb)

omit [LinearOrder N] in
lemma findIdx?_eq_some_takeWhile (h : first ∈ results) :
    results.findIdx? (·.fileHash = first.fileHash) = some (results.takeWhile (·.fileHash ≠ first.fileHash)).length := by
  induction results with
  | nil => cases h
  | cons r results ih =>
    by_cases hr : r.fileHash = first.fileHash
    · simp [findIdx?_cons, hr]
    · have hrest : first ∈ results := (mem_cons.mp h).resolve_left fun heq => hr (heq ▸ rfl)
      simp [findIdx?_cons, hr, ih hrest]

lemma executePaginated_before (hfields : List.Forall₂ (SortsBy source) query.orderBy fields) (hoffset : query.offset.getD 0 = 0)
    (htotal : TotalOn fields found) (hresults : results.Perm found.results) (hfirst : first ∈ found.results) :
    executePaginated source results { query with after := none, before := some (encodeCursor source query.orderBy first) } =
      .ok (pageOf source { query with after := none, before := some (encodeCursor source query.orderBy first) }
        (found.results.mergeSort (precedes fields)).length (ahead fields found first)) := by
  have hfind := findIdx?_eq_some_takeWhile (mem_mergeSort.mpr hfirst : first ∈ found.results.mergeSort (precedes fields))
  have htake := (prefix_iff_eq_take.mp ( List.takeWhile_prefix (l := found.results.mergeSort (precedes fields))
    fun r => decide (r.fileHash ≠ first.fileHash))).symm
  have hdecode : source.codec.decode (encodeCursor source query.orderBy first) = .ok first.fileHash := source.codec.decode_encode _
  simp only [executePaginated, sortResults_eq hfields, mergeSort_eq htotal hresults, skipCursor, cutCursor, hdecode, hfind, htake, skipOffset,
    hoffset, bind, Except.bind, lt_irrefl, if_false, ahead]

lemma take_eq_drop_iff {α : Type} {l : List α} (hl : l.Nodup) {n : ℕ} (hn : 1 ≤ n) : l.take n = l.drop (l.length - n) ↔ l.length ≤ n := by
  constructor
  · intro heq
    by_contra hlong
    have hhead := congrArg List.head? heq
    rw [head?_take, if_neg (by omega), head?_drop, List.head?_eq_getElem?] at hhead
    have hsame := (getElem?_inj (by omega : 0 < l.length) hl).mp hhead
    omega
  · intro hshort
    rw [take_of_length_le hshort, Nat.sub_eq_zero_of_le hshort, drop_zero]

/-- Before the first result of a page stands the page before it, exactly when that is the first page. -/
theorem previousPage_iff (hfields : List.Forall₂ (SortsBy source) query.orderBy fields) (hoffset : query.offset.getD 0 = 0)
    (htotal : TotalOn fields found) (hresults : results.Perm found.results) (hresults' : results'.Perm found.results)
    {page : PaginatedResult N F}
    (hpage : executePaginated source results { query with after := some (encodeCursor source query.orderBy last), before := none } = .ok page)
    (hfirst : page.results.head? = some first) :
    ∃ back, executePaginated source results' { query with after := none, before := some (encodeCursor source query.orderBy first) } = .ok back ∧
      (back.results = (ahead fields found first).drop ((ahead fields found first).length - query.effectiveLimit) ↔
        (ahead fields found first).length ≤ query.effectiveLimit) := by
  obtain ⟨sorted, hsorted, hpage⟩ := Result.bind_eq_ok.mp hpage
  obtain ⟨rest, hrest, hpage⟩ := Result.bind_eq_ok.mp hpage
  obtain ⟨p, rfl⟩ := skipCursor_ok hrest
  rw [sortResults_eq hfields] at hsorted
  cases hsorted
  simp only [cutCursor, skipOffset, hoffset, lt_irrefl, if_false, bind, Except.bind] at hpage
  cases hpage
  have htaken := mem_of_head? hfirst
  have hmem : first ∈ found.results := hresults.mem_iff.mp (mem_mergeSort.mp (mem_of_mem_drop (mem_of_mem_take htaken)))
  have hlimit : 1 ≤ query.effectiveLimit := by
    by_contra hzero
    have hnone : query.effectiveLimit = 0 := by omega
    simp [pageOf, show Query.effectiveLimit { query with after := _, before := none } = 0 from hnone] at hfirst
  exact ⟨_, executePaginated_before hfields hoffset htotal hresults' hmem, take_eq_drop_iff
    (((mergeSort_perm ..).nodup_iff.mpr found.distinct.of_map).sublist (takeWhile_sublist _)) hlimit⟩

end

def sized (n : ℕ) : QueryResult ℕ ℕ := { emptyFile n with totalSize := n }

def bySize : Query := { onePerPage with orderBy := [⟨"@size".toList, .asc⟩] }

def sizeOrder : List (SortData ℕ) := [⟨.empty, true, "@size".toList, .asc⟩]

def upTo (n : ℕ) : MatchSet ℕ ℕ := ⟨(List.range n).map sized, by
  rw [map_map]
  exact nodup_range.map fun _ _ h => h⟩

lemma sortsBy_size : List.Forall₂ (SortsBy unindexed) bySize.orderBy sizeOrder := by
  refine .cons ?_ .nil
  rw [SortsBy, if_pos (by decide)]

lemma totalOn_upTo : TotalOn sizeOrder (upTo 3) := by
  unfold TotalOn
  decide

lemma ordered_upTo : (upTo 3).results.Pairwise fun a b => precedes sizeOrder a b = true := by decide

lemma ahead_upTo : ahead sizeOrder (upTo 3) (sized 2) = [sized 0, sized 1] := by
  rw [ahead, mergeSort_of_pairwise ordered_upTo]
  decide

theorem previousPage_second : ∃ back, executePaginated unindexed (upTo 3).results
      { bySize with limit := some 2, after := none, before := some (encodeCursor unindexed bySize.orderBy (sized 2)) } = .ok back ∧
    (back.results = [sized 0, sized 1] ↔ 2 ≤ 2) := by
  have hpage := @executePaginated_eq _ _ _ _ _ unindexed sizeOrder
    { bySize with limit := some 2, after := some (encodeCursor unindexed bySize.orderBy (sized 1)) } sortsBy_size rfl rfl (some 1) ⟨1, rfl, rfl⟩
    (upTo 3).results
  rw [mergeSort_of_pairwise ordered_upTo] at hpage
  have hback := @previousPage_iff _ _ _ _ _ unindexed sizeOrder { bySize with limit := some 2 } (upTo 3) _ _ _ (sized 1) sortsBy_size rfl
    totalOn_upTo (.refl _) (.refl _) _ hpage rfl
  rwa [ahead_upTo] at hback

theorem previousPage_skips : TotalOn sizeOrder (upTo 3) ∧ ∃ page back,
    executePaginated unindexed (upTo 3).results { bySize with after := some (encodeCursor unindexed bySize.orderBy (sized 1)) } = .ok page ∧
      page.results = [sized 2] ∧
    executePaginated unindexed (upTo 3).results { bySize with before := some (encodeCursor unindexed bySize.orderBy (sized 2)) } = .ok back ∧
      back.results = [sized 0] := by
  have hpage := @executePaginated_eq _ _ _ _ _ unindexed sizeOrder
    { bySize with after := some (encodeCursor unindexed bySize.orderBy (sized 1)) } sortsBy_size rfl rfl (some 1) ⟨1, rfl, rfl⟩
    (upTo 3).results
  rw [mergeSort_of_pairwise ordered_upTo] at hpage
  have hback := @executePaginated_before _ _ _ _ _ unindexed sizeOrder bySize (upTo 3) _ (sized 2) sortsBy_size rfl totalOn_upTo (.refl _) (by decide)
  rw [ahead_upTo] at hback
  exact ⟨totalOn_upTo, _, _, hpage, rfl, hback, rfl⟩

end AeorDb.Query
