import AeorDb.Query.Pagination
import AeorDb.Library.Result

/-! Which queries list every match once when their cursors are followed. -/

namespace AeorDb.Query

open Store Library Result List Option Except Paging

variable {S N F : Type}

section

variable [LinearOrder N]

lemma transCmp_eq {α : Type} : Std.TransCmp (fun _ _ : α => Ordering.eq) where
  eq_swap := rfl
  isLE_trans _ _ := rfl

lemma transCmp_swap {α : Type} {cmp : α → α → Ordering} (h : Std.TransCmp cmp) : Std.TransCmp fun a b => (cmp a b).swap := by
  have hflip : (fun a b => (cmp a b).swap) = fun a b => cmp b a := by
    funext a b
    exact Std.OrientedCmp.eq_swap.symm
  rw [hflip]
  exact Std.TransCmp.opposite

variable [DecidableEq F]

lemma transCmp_compare (sd : SortData F) : Std.TransCmp (sd.compare : QueryResult N F → QueryResult N F → Ordering) := by
  have hcmp : Std.TransCmp (if sd.isVirtual = true then compareVirtual sd.field
      else compareOn fun a : QueryResult N F => ((sd.values.get a.fileHash).map (·.2)).getD []) := by
    split
    · rw [compareVirtual]
      split
      case h_7 => exact transCmp_eq
      all_goals infer_instance
    · infer_instance
  rw [SortData.compare]
  split
  · exact hcmp
  · exact transCmp_swap hcmp

lemma transCmp_compareBy (fields : List (SortData F)) : Std.TransCmp (compareBy fields : QueryResult N F → QueryResult N F → Ordering) := by
  induction fields with
  | nil => exact transCmp_eq
  | cons sd fields ih =>
    have := transCmp_compare (N := N) sd
    exact inferInstanceAs (Std.TransCmp (compareLex sd.compare (compareBy fields)))

lemma totalPreorder_precedes (fields : List (SortData F)) : Paging.TotalPreorder (precedes fields : QueryResult N F → QueryResult N F → Bool) := by
  have := transCmp_compareBy (N := N) fields
  refine ⟨fun h h' => Std.TransCmp.isLE_trans h h', fun a b => ?_⟩
  have hswap : compareBy fields b a = (compareBy fields a b).swap := Std.OrientedCmp.eq_swap
  rw [precedes, precedes, hswap]
  cases compareBy fields a b <;> simp

end

section

variable {source : Source S N F} {orderBy : List SortField} {fields : List (SortData F)}

def SortsBy (source : Source S N F) (sf : SortField) (sd : SortData F) : Prop :=
  if isVirtualField sf.field then sd = ⟨.empty, true, sf.field, sf.direction⟩
  else ∃ indexes index, source.loadIndexesForField sf.field = .ok indexes ∧ indexes.find? (·.converter.isOrderPreserving) = some index ∧
    sd = ⟨index.values, false, sf.field, sf.direction⟩

lemma sortDataOf_eq_ok_iff {sf : SortField} {sd : SortData F} : sortDataOf source sf = .ok sd ↔ SortsBy source sf sd := by
  rw [sortDataOf, SortsBy]
  split_ifs
  · constructor
    · rintro ⟨⟩
      rfl
    · rintro rfl
      rfl
  · cases hload : source.loadIndexesForField sf.field with
    | error e => simp [bind, Except.bind]
    | ok indexes =>
      cases hfind : indexes.find? (·.converter.isOrderPreserving) with
      | none => simp [bind, Except.bind, hfind]
      | some index => simp [bind, Except.bind, hfind, eq_comm]

lemma mapM_sortDataOf_eq_ok_iff : orderBy.mapM (sortDataOf source) = .ok fields ↔ List.Forall₂ (SortsBy source) orderBy fields := by
  simp only [mapM_eq_ok, sortDataOf_eq_ok_iff]

end

def Reads (source : Source S N F) (after : Option Str) (cursor : Option F) : Prop :=
  match after with
  | none => cursor = none
  | some text => ∃ hash, source.codec.decode text = .ok hash ∧ cursor = some hash

lemma skipCursor_eq [DecidableEq F] {source : Source S N F} {after : Option Str} {cursor : Option F} (h : Reads source after cursor) (results : List (QueryResult N F)) :
    skipCursor source after results = .ok (Paging.after (·.fileHash) cursor results) := by
  cases after with
  | none =>
    rw [show cursor = none from h]
    rfl
  | some text =>
    obtain ⟨hash, hdecode, rfl⟩ := h
    simp only [skipCursor, hdecode, bind, Except.bind, Paging.after]
    cases results.findIdx? (·.fileHash = hash) <;> rfl

section

variable [LinearOrder N] [DecidableEq F] {source : Source S N F} {fields : List (SortData F)} {query : Query}

lemma sortResults_eq (h : List.Forall₂ (SortsBy source) query.orderBy fields) (results : List (QueryResult N F)) :
    sortResults source query.orderBy results = .ok (results.mergeSort (precedes fields)) := by
  rw [sortResults]
  split_ifs with hskip
  · rcases hskip with hnone | rfl
    · rw [hnone] at h
      cases h
      have hordered : results.Pairwise fun a b => precedes ([] : List (SortData F)) a b = true := pairwise_of_forall fun _ _ => rfl
      rw [mergeSort_of_pairwise hordered]
    · rw [mergeSort_nil]
  · rw [mapM_sortDataOf_eq_ok_iff.mpr h]
    rfl

variable (hfields : List.Forall₂ (SortsBy source) query.orderBy fields) (hoffset : query.offset.getD 0 = 0) (hbefore : query.before = none)

include hfields hoffset hbefore

variable {cursor : Option F}

lemma executePaginated_eq (h : Reads source query.after cursor) (results : List (QueryResult N F)) :
    executePaginated source results query =
      .ok (pageOf source query results.length (Paging.after (·.fileHash) cursor (results.mergeSort (precedes fields)))) := by
  simp only [executePaginated, sortResults_eq hfields, skipCursor_eq h, hbefore, cutCursor, skipOffset, hoffset, bind, Except.bind, lt_irrefl,
    if_false, length_mergeSort]

lemma followCursors_eq (h : Reads source query.after cursor) (hlimit : 1 ≤ query.effectiveLimit) (fuel : ℕ)
    (present : ℕ → List (QueryResult N F)) : followCursors source present fuel query =
      .ok (walk (·.fileHash) query.effectiveLimit fuel cursor fun i => (present i).mergeSort (precedes fields)) := by
  induction fuel generalizing query cursor present with
  | zero => rfl
  | succ fuel ih =>
    rw [followCursors, executePaginated_eq hfields hoffset hbefore h, walk]
    set rest := after (·.fileHash) cursor ((present 0).mergeSort (precedes fields))
    by_cases hmore : query.effectiveLimit < rest.length
    · obtain ⟨last, hlast⟩ : ∃ last, (rest.take query.effectiveLimit).getLast? = some last := by
        rw [← isSome_iff_exists, getLast?_isSome]
        exact ne_nil_of_length_pos (by simp; omega)
      have hnext : Reads source (some (encodeCursor source query.orderBy last)) (some last.fileHash) :=
        ⟨_, source.codec.decode_encode _, rfl⟩
      have hrest := @ih { query with after := some (encodeCursor source query.orderBy last) } hfields hoffset hbefore _ hnext hlimit
        fun i => present (i + 1)
      have hlimit' : Query.effectiveLimit { query with after := some (encodeCursor source query.orderBy last) } = query.effectiveLimit := rfl
      simp only [pageOf, bind, Except.bind, hmore, decide_true, if_true, hlast, map_some, hrest, hlimit']
    · simp only [pageOf, bind, Except.bind, hmore, decide_false, if_false, take_of_length_le (not_lt.mp hmore)]

end

section

variable [DecidableEq F] {source : Source S N F} {results rest : List (QueryResult N F)} {query : Query}

lemma skipCursor_ok {after : Option Str} (h : skipCursor source after results = .ok rest) :
    ∃ p, rest = results.drop p := by
  cases after with
  | none => exact ⟨0, (ok.inj h).symm⟩
  | some text =>
    obtain ⟨hash, _, h⟩ := bind_eq_ok.mp h
    cases hfind : results.findIdx? (·.fileHash = hash) with
    | none =>
      rw [hfind] at h
      exact ⟨0, (ok.inj h).symm⟩
    | some pos =>
      rw [hfind] at h
      exact ⟨pos + 1, (ok.inj h).symm⟩

lemma cutCursor_ok {before : Option Str} (h : cutCursor source before results = .ok rest) :
    rest <+: results := by
  cases before with
  | none => exact ok.inj h ▸ prefix_rfl
  | some text =>
    obtain ⟨hash, _, h⟩ := bind_eq_ok.mp h
    cases hfind : results.findIdx? (·.fileHash = hash) with
    | none =>
      rw [hfind] at h
      exact ok.inj h ▸ prefix_rfl
    | some pos =>
      rw [hfind] at h
      exact ok.inj h ▸ List.take_prefix pos results

omit [DecidableEq F] in
lemma skipOffset_eq_drop (offset : ℕ) (results : List (QueryResult N F)) : skipOffset offset results = results.drop offset := by
  rw [skipOffset]
  split_ifs with hpos hlt
  · rfl
  · exact (drop_eq_nil_of_le (not_lt.mp hlt)).symm
  · rw [Nat.eq_zero_of_not_pos hpos, drop_zero]

variable [LinearOrder N]

lemma executePaginated_sublist {results : List (QueryResult N F)} {page : PaginatedResult N F}
    (h : executePaginated source results query = .ok page) :
    ∃ sorted, sortResults source query.orderBy results = .ok sorted ∧ page.results.Sublist (sorted.drop (query.offset.getD 0)) := by
  obtain ⟨sorted, hsorted, h⟩ := bind_eq_ok.mp h
  obtain ⟨rest, hskip, h⟩ := bind_eq_ok.mp h
  obtain ⟨kept, hcut, h⟩ := bind_eq_ok.mp h
  obtain ⟨p, hp⟩ := skipCursor_ok hskip
  rw [hp] at hcut
  refine ⟨sorted, hsorted, ?_⟩
  rw [← ok.inj h, pageOf, skipOffset_eq_drop]
  exact (take_sublist _ _).trans (((cutCursor_ok hcut).sublist.trans (drop_sublist p sorted)).drop _)

lemma sortResults_perm {orderBy : List SortField} {results sorted : List (QueryResult N F)} (h : sortResults source orderBy results = .ok sorted) :
    sorted.Perm results := by
  rw [sortResults] at h
  split_ifs at h
  · exact ok.inj h ▸ .refl _
  · obtain ⟨fields, _, h⟩ := bind_eq_ok.mp h
    exact ok.inj h ▸ mergeSort_perm ..

lemma followCursors_subset {results visited : List (QueryResult N F)} {fuel : ℕ}
    (h : followCursors source (fun _ => results) fuel query = .ok (some visited)) :
    ∃ sorted, sortResults source query.orderBy results = .ok sorted ∧ visited ⊆ sorted.drop (query.offset.getD 0) := by
  induction fuel generalizing query visited with
  | zero => cases h
  | succ fuel ih =>
    obtain ⟨page, hpage, h⟩ := bind_eq_ok.mp h
    obtain ⟨sorted, hsorted, hsub⟩ := executePaginated_sublist hpage
    refine ⟨sorted, hsorted, ?_⟩
    cases hnext : page.nextCursor with
    | none =>
      simp only [hnext] at h
      obtain rfl : page.results = visited := by simpa using h
      exact hsub.subset
    | some cursor =>
      simp only [hnext] at h
      obtain ⟨rest, hrest, h⟩ := bind_eq_ok.mp h
      obtain ⟨rest, rfl, rfl⟩ := Option.map_eq_some_iff.mp (ok.inj h)
      obtain ⟨sorted', hsorted', hrestSub⟩ := ih hrest
      obtain rfl : sorted = sorted' := ok.inj (hsorted.symm.trans hsorted')
      exact append_subset.mpr ⟨hsub.subset, hrestSub⟩

end

section

variable [LinearOrder N] [DecidableEq F]

structure MatchSet (N F : Type) where
  results : List (QueryResult N F)
  distinct : (results.map (·.fileHash)).Nodup

def EnumeratesOnce (source : Source S N F) (query : Query) (found : MatchSet N F) : Prop :=
  ∀ present : ℕ → List (QueryResult N F), (∀ i, (present i).Perm found.results) →
    ∃ fuel visited, followCursors source present fuel { query with after := none, before := none } = .ok (some visited) ∧
      visited.Perm found.results

variable {source : Source S N F} {query : Query} {found : MatchSet N F}

lemma not_enumeratesOnce_of_offset (hoffset : 0 < query.offset.getD 0) (hne : found.results ≠ []) : ¬ EnumeratesOnce source query found := by
  intro h
  obtain ⟨fuel, visited, hfollow, hperm⟩ := h (fun _ => found.results) fun _ => .refl _
  obtain ⟨sorted, hsorted, hsub⟩ := followCursors_subset hfollow
  have hshort := ((hperm.nodup_iff.mpr found.distinct.of_map).subperm hsub).length_le
  have hpos := length_pos_of_ne_nil hne
  rw [length_drop, hperm.length_eq, (sortResults_perm hsorted).length_eq] at hshort
  dsimp only at hshort
  omega

lemma exists_fields_of_enumeratesOnce (hne : found.results ≠ []) (h : EnumeratesOnce source query found) :
    ∃ fields, List.Forall₂ (SortsBy source) query.orderBy fields := by
  obtain ⟨fuel, visited, hfollow, _⟩ := h (fun _ => found.results) fun _ => .refl _
  obtain ⟨sorted, hsorted, _⟩ := followCursors_subset hfollow
  rw [sortResults] at hsorted
  split_ifs at hsorted with hskip
  · have hnone : query.orderBy = [] := hskip.resolve_right hne
    exact ⟨[], hnone ▸ .nil⟩
  · obtain ⟨fields, hfields, _⟩ := bind_eq_ok.mp hsorted
    exact ⟨fields, mapM_sortDataOf_eq_ok_iff.mp hfields⟩

lemma enumeratesOnce_of_none (hnone : found.results = []) : EnumeratesOnce source query found := by
  intro present hpresent
  refine ⟨1, [], ?_, hnone ▸ .nil⟩
  have hnil : present 0 = [] := by simpa [hnone] using hpresent 0
  simp [followCursors, executePaginated, hnil, sortResults, skipCursor, cutCursor, skipOffset, pageOf, bind, Except.bind]

lemma enumeratesOnce_iff_walk {fields : List (SortData F)} (hlimit : 1 ≤ query.effectiveLimit) (hoffset : query.offset.getD 0 = 0)
    (hfields : List.Forall₂ (SortsBy source) query.orderBy fields) : EnumeratesOnce source query found ↔
      ∀ lists : ℕ → List (QueryResult N F), (∀ i, (lists i).Perm found.results ∧ Paging.Ordered (precedes fields) (lists i)) →
        ∃ fuel visited, walk (·.fileHash) query.effectiveLimit fuel none lists = some visited ∧ visited.Perm found.results := by
  have hfollow : ∀ fuel present, followCursors source present fuel { query with after := none, before := none } =
      .ok (walk (·.fileHash) query.effectiveLimit fuel none fun i => (present i).mergeSort (precedes fields)) := fun fuel present =>
    @followCursors_eq S N F _ _ source fields { query with after := none, before := none } hfields hoffset rfl none rfl hlimit fuel present
  constructor
  · intro h lists hlists
    obtain ⟨fuel, visited, hvisited, hperm⟩ := h lists fun i => (hlists i).1
    have hsorted : (fun i => (lists i).mergeSort (precedes fields)) = lists := by
      funext i
      exact mergeSort_of_pairwise (hlists i).2
    rw [hfollow, hsorted] at hvisited
    exact ⟨fuel, visited, ok.inj hvisited, hperm⟩
  · intro h present hpresent
    obtain ⟨fuel, visited, hvisited, hperm⟩ := h (fun i => (present i).mergeSort (precedes fields)) fun i =>
      ⟨(mergeSort_perm ..).trans (hpresent i), ordered_mergeSort (totalPreorder_precedes fields) _⟩
    exact ⟨fuel, visited, by rw [hfollow, hvisited], hperm⟩

end

def unaryCodec : CursorCodec ℕ ℕ where
  encode cursor := List.replicate cursor.hash '0'
  decode text := .ok text.length
  decode_encode cursor := by rw [length_replicate]

def unindexed : Source ℕ ℕ ℕ where
  codec := unaryCodec
  headHash := []
  loadIndexesForField _ := .ok []

def onePerPage : Query where
  limit := some 1
  offset := none
  orderBy := []
  after := none
  before := none
  includeTotal := false

def emptyFile (hash : ℕ) : QueryResult ℕ ℕ := ⟨hash, [], [], 0, 0, 0, 0⟩

end AeorDb.Query
