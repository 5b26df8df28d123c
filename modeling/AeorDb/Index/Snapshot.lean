import AeorDb.Index.Lookup

/-! What readers see: the published snapshot, its lookups, its listing and its counts. -/

namespace AeorDb.Index

open AeorDb.Library AeorDb.Store List

variable {H : Type}

lemma sum_set {l : List ℕ} {b old : ℕ} (h : l[b]? = some old) (new : ℕ) : (l.set b new).sum + old = l.sum + new := by
  induction l generalizing b with
  | nil => simp at h
  | cons a l ih =>
    cases b with
    | zero =>
      obtain rfl : a = old := by simpa using h
      simp only [set_cons_zero, sum_cons]
      omega
    | succ b =>
      have hrest := ih (by simpa using h)
      simp only [set_cons_succ, sum_cons]
      omega

lemma buildPageTypeCounts_set {pages : List (Page H)} {b : ℕ} {old : Page H} (h : pages[b]? = some old) (new : Page H) :
    buildPageTypeCounts (pages.set b new) =
      fun i => buildPageTypeCounts pages i - liveTypeCountsInPage old i + liveTypeCountsInPage new i := by
  funext i
  have hget : (pages.map (liveTypeCountsInPage · i))[b]? = some (liveTypeCountsInPage old i) := by simp [h]
  have hsum := sum_set hget (liveTypeCountsInPage new i)
  have hle := le_sum_of_mem (mem_of_getElem? hget)
  simp only [buildPageTypeCounts, map_set]
  omega

def reread (pages : List (Page H)) (disk : ℕ → Page H) (buckets : List ℕ) : List (Page H) :=
  pages.mapIdx fun b page => if b ∈ buckets then disk b else page

section

variable (pages : List (Page H)) (disk : ℕ → Page H)
include pages disk

lemma getElem?_reread (buckets : List ℕ) (b : ℕ) :
    (reread pages disk buckets)[b]? = pages[b]?.map fun page => if b ∈ buckets then disk b else page := by
  simp [reread]

lemma reread_nil : reread pages disk [] = pages := by
  apply ext_getElem?
  intro i
  simp [getElem?_reread]

lemma reread_concat (buckets : List ℕ) (b : ℕ) :
    reread pages disk (buckets ++ [b]) = (reread pages disk buckets).set b (disk b) := by
  apply ext_getElem?
  intro i
  rw [getElem?_reread, getElem?_set, getElem?_reread]
  by_cases hi : b = i
  · subst hi
    by_cases hlt : b < pages.length <;> simp [reread, hlt]
  · simp [hi, Ne.symm hi]

end

lemma foldl_recount (s : DiskKVStore H) (hcounts : s.snapshot.pageTypeCounts = buildPageTypeCounts s.snapshot.pages)
    (buckets : List ℕ) (hnodup : buckets.Nodup) :
    buckets.foldl s.recount s.snapshot.pageTypeCounts = buildPageTypeCounts (reread s.snapshot.pages s.pages buckets) := by
  induction buckets using List.reverseRecOn with
  | nil => rw [reread_nil, foldl_nil, hcounts]
  | append_singleton buckets b ih =>
    obtain ⟨hbuckets, -, hb⟩ := nodup_append.mp hnodup
    have hnew : b ∉ buckets := fun hmem => hb b hmem b (by simp) rfl
    rw [List.foldl_append, foldl_cons, foldl_nil, ih hbuckets, reread_concat, DiskKVStore.recount]
    have hget := getElem?_reread s.snapshot.pages s.pages buckets b
    cases hpage : s.snapshot.pages[b]? with
    | none =>
      have hlen : (reread s.snapshot.pages s.pages buckets).length ≤ b := by simpa [reread] using hpage
      rw [set_eq_of_length_le hlen]
    | some page =>
      rw [hpage, Option.map_some, if_neg hnew] at hget
      exact (buildPageTypeCounts_set hget (s.pages b)).symm

variable [DecidableEq H] {layout : Layout H}

namespace ReadSnapshot

structure Sound (layout : Layout H) (n : ℕ) (r : ReadSnapshot H) : Prop where
  nvt_eq : r.nvt = n
  bucketCount_eq : r.bucketCount = n
  length_pages : r.pages.length = n
  bucketFor_eq : ∀ b page, r.pages[b]? = some page → ∀ e ∈ page.entries, layout.bucketFor e.hash n = b
  counts_eq : r.pageTypeCounts = buildPageTypeCounts r.pages

def paged (r : ReadSnapshot H) : List (KVEntry H) := r.pages.flatMap fun page => page.entries

section

variable {n : ℕ} {r : ReadSnapshot H} (hr : r.Sound layout n)

include hr

lemma readFromDisk_eq (h : H) ( includeDeleted : Bool) : r.readFromDisk layout h includeDeleted =
    (r.pages[layout.bucketFor h n]?.bind (·.get h)).filter fun e => includeDeleted || !e.isDeleted := by
  rw [readFromDisk, hr.nvt_eq, hr.bucketCount_eq]
  split_ifs with hb
  · rw [getElem?_eq_none (hr.length_pages.trans_le hb)]
    rfl
  · cases r.pages[layout.bucketFor h n]? with
    | none => rfl
    | some page =>
      cases hget : page.get h with
      | none => simp [hget]
      | some e => cases includeDeleted <;> cases hd : e.isDeleted <;> simp [hget, hd, Option.filter]

lemma readFromDisk_true (h : H) : r.readFromDisk layout h true = r.pages[layout.bucketFor h n]?.bind (·.get h) := by
  rw [readFromDisk_eq hr]
  cases r.pages[layout.bucketFor h n]?.bind (·.get h) <;> rfl

variable {e : KVEntry H}

lemma readFromDisk_eq_some {h : H} : r.readFromDisk layout h true = some e ↔ e ∈ r.paged ∧ e.hash = h := by
  rw [readFromDisk_true hr, paged, mem_flatMap]
  simp only [Option.bind_eq_some_iff, Table.get_eq_some]
  constructor
  · rintro ⟨page, hpage, he, rfl⟩
    exact ⟨⟨page, mem_of_getElem? hpage, he⟩, rfl⟩
  · rintro ⟨⟨page, hpage, he⟩, rfl⟩
    obtain ⟨b, hb⟩ := mem_iff_getElem?.mp hpage
    rw [hr.bucketFor_eq b page hb e he]
    exact ⟨page, hb, he, rfl⟩

lemma readFromDisk_false (h : H) : r.readFromDisk layout h false = (r.readFromDisk layout h true).filter fun e => !e.isDeleted := by
  rw [readFromDisk_eq hr, readFromDisk_eq hr, Option.filter_filter]
  simp

omit [DecidableEq H] in
lemma nodup_paged : (r.paged.map KVEntry.hash).Nodup := by
  rw [paged, map_flatMap, nodup_flatMap]
  refine ⟨fun page _ => page.nodup, pairwise_iff_getElem.mpr fun i j hi hj hij => ?_⟩
  intro h hleft hright
  obtain ⟨a, ha, rfl⟩ := mem_map.mp hleft
  obtain ⟨b, hb, hab⟩ := mem_map.mp hright
  have hbucket := hr.bucketFor_eq i _ (getElem?_eq_getElem hi) a ha
  rw [← hab, hr.bucketFor_eq j _ (getElem?_eq_getElem hj) b hb] at hbucket
  omega

lemma get_eq_getRaw (h : H) : r.get layout h = (r.getRaw layout h).filter fun e => !e.isDeleted := by
  rw [get, getRaw, readFromDisk_false hr]
  cases r.buffer.get h with
  | none => rfl
  | some e => cases hd : e.isDeleted <;> simp [Option.filter, hd]

omit hr in
lemma iterAll_eq (r : ReadSnapshot H) : r.iterAll = (r.paged.filter fun e => !e.isDeleted && !r.buffer.contains e.hash) ++
    r.buffer.entries.filter fun e => !e.isDeleted := by
  rw [iterAll, paged, filter_flatMap]

lemma mem_iterAll : e ∈ r.iterAll ↔ r.getRaw layout e.hash = some e ∧ e.isDeleted = false := by
  rw [iterAll_eq, mem_append, mem_filter, mem_filter, getRaw, Option.or_eq_some_iff, readFromDisk_eq_some hr,
    Table.get_eq_some]
  simp only [Bool.and_eq_true, Bool.not_eq_true', Table.contains, Option.isSome_eq_false_iff, Option.isNone_iff_eq_none]
  tauto

lemma nodup_iterAll : r.iterAll.Nodup := by
  rw [iterAll_eq]
  refine List.Nodup.append ((nodup_paged hr).of_map.filter _) (r.buffer.nodup.of_map.filter _) ?_
  intro e hpage hbuffer
  have hkey := Table.contains_iff.mpr (Table.mem_keys.mpr ⟨e, (mem_filter.mp hbuffer).1, rfl⟩)
  simp [hkey] at hpage

end

section

omit [DecidableEq H] in
lemma typeIndex_eq_iff {t : UInt8} (ht : t &&& 0x0F = t) (e : KVEntry H) : typeIndex e.typeFlags = typeIndex t ↔ e.entryType = t := by
  rw [typeIndex, typeIndex, Fin.mk.injEq, UInt8.toNat_inj, ht]
  rfl

lemma foldl_replace {α : Type} (p q : α → Bool) (l : List α) (count : ℕ) (h : l.countP p ≤ count) :
    l.foldl (fun c x => if q x then (if p x then c - 1 else c) + 1 else if p x then c - 1 else c) count =
      count - l.countP p + l.countP q := by
  induction l generalizing count with
  | nil => rfl
  | cons x l ih =>
    rw [countP_cons] at h
    rw [foldl_cons, countP_cons, countP_cons]
    cases hp : p x <;> cases q x <;> simp only [hp, if_true, Bool.false_eq_true, if_false] at h ⊢ <;>
      rw [ih _ (by omega)] <;> omega

variable {n : ℕ} {r : ReadSnapshot H} (hr : r.Sound layout n) {t : UInt8} (ht : t &&& 0x0F = t)

include hr ht

omit [DecidableEq H] in
lemma pageTypeCounts_eq : r.pageTypeCounts (typeIndex t) = r.paged.countP fun e => !e.isDeleted && e.entryType = t := by
  rw [hr.counts_eq, buildPageTypeCounts, paged, countP_flatMap]
  congr 1
  refine map_congr_left fun page _ => ?_
  simp only [liveTypeCountsInPage, typeIndex_eq_iff ht, Function.comp]

omit ht in
lemma countP_covered : (r.paged.countP fun e => (!e.isDeleted && e.entryType = t) && r.buffer.contains e.hash) =
    r.buffer.entries.countP fun b => (r.readFromDisk layout b.hash false).any (·.entryType = t) := by
  have hlen : ∀ l : List (KVEntry H), l.length = (l.map KVEntry.hash).length := fun l => length_map _ |>.symm
  rw [countP_eq_length_filter, countP_eq_length_filter, hlen, hlen (List.filter _ r.buffer.entries)]
  refine List.Perm.length_eq ((perm_ext_iff_of_nodup ?_ ?_).mpr fun h => ?_)
  · exact (nodup_paged hr).sublist (filter_sublist.map _)
  · exact r.buffer.nodup.sublist (filter_sublist.map _)
  · simp only [mem_map, mem_filter, Bool.and_eq_true, Bool.not_eq_true', decide_eq_true_eq, Table.contains_iff, Table.mem_keys,
      Option.any_eq_true, readFromDisk_false hr, Option.filter_eq_some_iff, readFromDisk_eq_some hr]
    constructor
    · rintro ⟨e, ⟨he, ⟨hlive, htype⟩, b, hb, hhash⟩, rfl⟩
      exact ⟨b, ⟨hb, e, ⟨⟨he, hhash.symm⟩, hlive⟩, htype⟩, hhash⟩
    · rintro ⟨b, ⟨hb, e, ⟨⟨he, hhash⟩, hlive⟩, htype⟩, rfl⟩
      exact ⟨e, ⟨he, ⟨hlive, htype⟩, b, hb, hhash.symm⟩, hhash⟩

lemma countByType_eq : r.countByType layout t = (r.iterAll.filter fun e => e.entryType = t).length := by
  have hsplit := countP_eq_countP_filter_add r.paged (fun e => !e.isDeleted && e.entryType = t) fun e => r.buffer.contains e.hash
  rw [countP_filter, countP_filter, countP_covered hr] at hsplit
  have hfold : r.countByType layout t = _ :=
    foldl_replace (fun b : KVEntry H => (r.readFromDisk layout b.hash false).any fun e : KVEntry H => e.entryType = t)
      (fun b => !b.isDeleted && b.entryType = t) r.buffer.entries (r.pageTypeCounts (typeIndex t))
      (by rw [pageTypeCounts_eq hr ht]; omega)
  have hpages : (fun e : KVEntry H => decide (e.entryType = t) && (!e.isDeleted && !r.buffer.contains e.hash)) =
      fun e => (!e.isDeleted && decide (e.entryType = t)) && !r.buffer.contains e.hash := by
    funext e
    cases e.isDeleted <;> cases r.buffer.contains e.hash <;> simp
  have hbuffer : (fun e : KVEntry H => decide (e.entryType = t) && !e.isDeleted) = fun e => !e.isDeleted && decide (e.entryType = t) :=
    funext fun e => Bool.and_comm _ _
  rw [hfold, pageTypeCounts_eq hr ht, iterAll_eq, filter_append, length_append, ← countP_eq_length_filter,
    ← countP_eq_length_filter, countP_filter, countP_filter, hpages, hbuffer]
  omega

end

structure SameAnswers (layout : Layout H) (r r' : ReadSnapshot H) : Prop where
  get_eq : ∀ h, r'.get layout h = r.get layout h
  getRaw_eq : ∀ h, r'.getRaw layout h = r.getRaw layout h
  iterAll_iff : ∀ e, e ∈ r'.iterAll ↔ e ∈ r.iterAll
  countByType_eq : ∀ t < 16, r'.countByType layout t = r.countByType layout t

lemma sameAnswers_of_getRaw {n n' : ℕ} {r r' : ReadSnapshot H} (hr : r.Sound layout n) (hr' : r'.Sound layout n')
    (hraw : ∀ h, r'.getRaw layout h = r.getRaw layout h) : SameAnswers layout r r' := by
  have hmem : ∀ e, e ∈ r'.iterAll ↔ e ∈ r.iterAll := fun e => by rw [mem_iterAll hr, mem_iterAll hr', hraw]
  have hperm : r'.iterAll.Perm r.iterAll := (perm_ext_iff_of_nodup (nodup_iterAll hr') (nodup_iterAll hr)).mpr hmem
  refine ⟨fun h => ?_, hraw, hmem, fun t ht => ?_⟩
  · rw [get_eq_getRaw hr, get_eq_getRaw hr', hraw]
  · have hbits : t &&& 0x0F = t := by
      apply UInt8.toNat_inj.mp
      rw [UInt8.toNat_and]
      exact (Nat.and_two_pow_sub_one_eq_mod _ 4).trans (Nat.mod_eq_of_lt (UInt8.lt_iff_toNat_lt.mp ht))
    rw [countByType_eq hr hbits, countByType_eq hr' hbits]
    exact (hperm.filter _).length_eq

end ReadSnapshot

namespace DiskKVStore

omit [DecidableEq H]

lemma sound_new {pages : ℕ → Page H} {n : ℕ} (hpages : ∀ b < n, ∀ e ∈ (pages b).entries, layout.bucketFor e.hash n = b)
    (buffer : Entries H) (entryCount : ℕ) : (ReadSnapshot.new buffer n n entryCount ((List.range n).map pages)).Sound layout n where
  nvt_eq := rfl
  bucketCount_eq := rfl
  length_pages := by simp [ReadSnapshot.new]
  bucketFor_eq := by
    intro b page hpage
    rw [ReadSnapshot.new, getElem?_map, Option.map_eq_some_iff] at hpage
    obtain ⟨b', hb', rfl⟩ := hpage
    obtain ⟨hb, rfl⟩ : b < n ∧ b = b' := by simpa [List.getElem?_eq_some_iff] using hb'
    exact hpages b hb
  counts_eq := rfl

variable {s : DiskKVStore H}

lemma sound_publishBufferOnly (hs : s.snapshot.Sound layout s.bucketCount) (hnvt : s.sharedNvt = s.bucketCount) :
    s.publishBufferOnly.snapshot.Sound layout s.bucketCount :=
  ⟨hnvt, rfl, hs.length_pages, hs.bucketFor_eq, hs.counts_eq⟩

lemma sound_publishSnapshotIncremental (hs : s.snapshot.Sound layout s.bucketCount)
    (hpages : ∀ b < s.bucketCount, ∀ e ∈ (s.pages b).entries, layout.bucketFor e.hash s.bucketCount = b) {buckets : List ℕ}
    (hnodup : buckets.Nodup) : (s.publishSnapshotIncremental buckets).snapshot.Sound layout s.bucketCount where
  nvt_eq := rfl
  bucketCount_eq := rfl
  length_pages := by simpa [publishSnapshotIncremental] using hs.length_pages
  bucketFor_eq := by
    intro b page hpage
    rw [show (s.publishSnapshotIncremental buckets).snapshot.pages = reread s.snapshot.pages s.pages buckets from rfl, getElem?_reread,
      Option.map_eq_some_iff] at hpage
    obtain ⟨old, hold, rfl⟩ := hpage
    split_ifs
    · exact hpages b ((List.getElem?_eq_some_iff.mp hold).1.trans_eq hs.length_pages)
    · exact hs.bucketFor_eq b old hold
  counts_eq := foldl_recount s hs.counts_eq buckets hnodup

end DiskKVStore

end AeorDb.Index
