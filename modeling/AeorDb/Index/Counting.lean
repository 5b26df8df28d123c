import AeorDb.Index.Flushing
import AeorDb.Wal.HotIndexSpec

/-! The number of entries that the index keeps, against the entries it lists. -/

namespace AeorDb.Index.DiskKVStore

open AeorDb.Library AeorDb.Store AeorDb.Wal HotIndex List Option Table Bool ReadSnapshot

variable {H : Type} [DecidableEq H] {layout : Layout H} {s s' : DiskKVStore H}

def len (s : DiskKVStore H) : ℕ := s.entryCount

def Counted (layout : Layout H) (s : DiskKVStore H) : Prop := s.len = (s.iterAll layout).length

lemma length_iterAll (s : DiskKVStore H) : (s.iterAll layout).length = (s.allEntries layout).entries.countP fun e => !e.isDeleted := by
  rw [iterAll, ← countP_eq_length_filter]
  exact (layout.order_perm _ _).countP_eq _

lemma nodup_iterAll (s : DiskKVStore H) : (s.iterAll layout).Nodup :=
  ((layout.order_perm _ _).nodup_iff.mpr (s.allEntries layout).nodup.of_map).filter _

lemma length_iterAll_congr (hs : s.Placed layout) (hs' : s'.Placed layout) (h : ∀ k, s'.lookup layout k = s.lookup layout k) :
    (s'.iterAll layout).length = (s.iterAll layout).length := by
  rw [length_iterAll, length_iterAll]
  refine (perm_entries fun k => ?_).countP_eq _
  rw [get_allEntries layout hs, get_allEntries layout hs', h]

variable {e : KVEntry H}

lemma length_iterAll_update (hs : s.Placed layout) (hs' : s'.Placed layout)
    (h : ∀ k, s'.lookup layout k = if k = e.hash then some e else s.lookup layout k) :
    (s'.iterAll layout).length + (if (s.get layout e.hash).isSome then 1 else 0) =
      (s.iterAll layout).length + if e.isDeleted then 0 else 1 := by
  have hcount := (s.allEntries layout).countP_insert e fun e => !e.isDeleted
  have hperm : (s'.allEntries layout).entries.countP (fun e => !e.isDeleted) =
      ((s.allEntries layout).insert e).entries.countP fun e => !e.isDeleted := by
    refine (Table.perm_entries fun k => ?_).countP_eq _
    rw [get_allEntries layout hs', h, Table.get_insert, get_allEntries layout hs]
  have hold : (((s.allEntries layout).get e.hash).any fun e => !e.isDeleted) = (s.get layout e.hash).isSome := by
    rw [get_allEntries layout hs, get_eq_lookup]
    cases hl : s.lookup layout e.hash with
    | none => rfl
    | some x => cases hd : x.isDeleted <;> simp [Option.filter, hd]
  rw [length_iterAll, length_iterAll, hperm, ← hold, hcount]
  cases e.isDeleted <;> rfl

lemma Counted.of_lookup (hc : Counted layout s) (hs : s.Placed layout) (hs' : s'.Placed layout)
    (hlookup : ∀ k, s'.lookup layout k = s.lookup layout k) (hcount : s'.entryCount = s.entryCount) : Counted layout s' := by
  rw [Counted, len, hcount, length_iterAll_congr hs hs' hlookup]
  exact hc

def CountedAsNew (layout : Layout H) (s : DiskKVStore H) (e : KVEntry H) : Prop :=
  s.writeBuffer.contains e.hash = false ∧ s.snapshot.getRaw layout e.hash = none

/-- The entry is counted as new exactly when it is live and the hash had no live entry, and a deleted entry covers no live one. -/
def InsertCounts (layout : Layout H) (s : DiskKVStore H) (e : KVEntry H) : Prop :=
  (CountedAsNew layout s e ↔ e.isDeleted = false ∧ s.get layout e.hash = none) ∧ (e.isDeleted = true → s.get layout e.hash = none)

lemma entryCount_bufferEntry (s : DiskKVStore H) (e : KVEntry H) [Decidable (CountedAsNew layout s e)] :
    (s.bufferEntry layout e).entryCount = if CountedAsNew layout s e then s.entryCount + 1 else s.entryCount := by
  have hiff : ((!s.writeBuffer.contains e.hash && !s.entryExistsOnDisk layout e.hash) = true) ↔ CountedAsNew layout s e := by
    simp [CountedAsNew, entryExistsOnDisk]
  exact if_congr hiff rfl rfl

lemma counted_bufferEntry (hs : s.Placed layout) (hc : Counted layout s) (he : InsertCounts layout s e) :
    Counted layout (s.bufferEntry layout e) := by
  classical
  have hlen := length_iterAll_update hs (placed_bufferEntry layout hs e) (lookup_bufferEntry layout s e)
  obtain ⟨hnew, hcover⟩ := he
  rw [Counted, len] at hc ⊢
  rw [entryCount_bufferEntry, if_congr hnew rfl rfl]
  cases hget : s.get layout e.hash with
  | none =>
    cases hd : e.isDeleted <;> simp [hget, hd] at hlen ⊢ <;> omega
  | some x =>
    cases hd : e.isDeleted with
    | true => simp [hcover hd] at hget
    | false =>
      simp [hget, hd] at hlen ⊢
      omega

variable (layout) in
def BulkCounts : List (KVEntry H) → DiskKVStore H → Prop
  | [], _ => True
  | e :: es, s => InsertCounts layout s e ∧
      (writeBufferThreshold ≤ (s.bufferEntry layout e).writeBuffer.entries.length → (s.bufferEntry layout e).overflowEntries layout = []) ∧
      BulkCounts es (s.bulkInsertOne layout e)

lemma counted_bulkInsert (hs : s.Placed layout) (hc : Counted layout s) {es : List (KVEntry H)} (hes : BulkCounts layout es s) :
    Counted layout (s.bulkInsert layout es) := by
  induction es generalizing s with
  | nil => exact hc
  | cons e es ih =>
    obtain ⟨he, hfit, hes⟩ := hes
    refine ih (placed_bulkInsertOne layout hs e) ?_ hes
    have hb := counted_bufferEntry hs hc he
    have hplaced := placed_bufferEntry layout hs e
    rw [bulkInsertOne]
    split_ifs with hfull
    · exact hb.of_lookup hplaced (placed_flushNoSnapshot layout hplaced) (lookup_flushNoSnapshot layout (hfit hfull))
        (by rw [flushNoSnapshot]; split_ifs <;> rfl)
    · exact hb

lemma counted_flushFrom (hs : s.WellKept layout) (hc : Counted layout s) {fuel : ℕ} (hok : s.flushFrom layout fuel = .ok () s') :
    Counted layout s' := by
  rcases flushFrom_cases layout hs.sized fuel with ⟨_, h⟩ | ⟨_, hover, h⟩ | ⟨_, h⟩ | ⟨_, err, h⟩
  · cases h.symm.trans hok
    exact hc
  · cases h.symm.trans hok
    exact hc.of_lookup hs.placed (wellKept_written hs).placed (lookup_written hover) rfl
  · cases h.symm.trans hok
    exact hc.of_lookup hs.placed (wellKept_writtenKept hs).placed
      (fun h => (lookup_bufferOverflow layout _ _ h).trans (s.lookup_writePages layout h)) rfl
  · cases h.symm.trans hok

lemma counted_insert (hs : s.WellKept layout) (hc : Counted layout s) (he : InsertCounts layout s e)
    (hok : s.insert layout e = .ok () s') : Counted layout s' := by
  have hb := counted_bufferEntry hs.placed hc he
  have hkept : (s.bufferEntry layout e).WellKept layout := hs.buffered _ _
  rw [DiskKVStore.insert] at hok
  split_ifs at hok
  · exact counted_flushFrom hkept hb hok
  · cases hok
    exact hb.of_lookup hkept.placed hkept.published.placed (fun _ => rfl) rfl

section

omit [DecidableEq H] in
lemma withFlags_isDeleted (e : KVEntry H) (newFlags : UInt8) : (withFlags e newFlags).isDeleted = decide (newFlags &&& kvFlagDeleted ≠ 0) := by
  have hand : ((e.typeFlags &&& 0x0F) ||| (newFlags &&& 0xF0)) &&& kvFlagDeleted = newFlags &&& kvFlagDeleted := by
    apply UInt8.toBitVec_inj.mp
    ext i hi
    simp only [UInt8.toBitVec_or, BitVec.getElem_and, BitVec.getElem_or, kvFlagDeleted]
    interval_cases i <;> simp
  rw [withFlags, KVEntry.isDeleted, hand]

variable {h : H} {x : KVEntry H} {n : ℕ}

lemma length_iterAll_replace (hs : s.Placed layout) (hget : s.get layout h = some x) (he : e.hash = h)
    (entryCount : ℕ) : ({ s with writeBuffer := s.writeBuffer.insert e, entryCount := entryCount }.iterAll layout).length + 1 =
      (s.iterAll layout).length + if e.isDeleted then 0 else 1 := by
  have hplaced : { s with writeBuffer := s.writeBuffer.insert e, entryCount := entryCount }.Placed layout :=
    ⟨hs.bucketCount_pos, hs.bucketFor_eq⟩
  have hlen := length_iterAll_update hs hplaced (e := e) fun k => by
    by_cases hk : k = e.hash <;> simp [lookup, hk]
  rwa [he, hget, isSome_some, if_pos rfl] at hlen

lemma hash_of_get (hs : s.Placed layout) {x : KVEntry H} (hget : s.get layout h = some x) : x.hash = h := by
  rw [get_eq_lookup, filter_eq_some_iff] at hget
  exact (lookup_mem_hashes layout hs hget.1).1

lemma counted_published (hc : Counted layout s) (hs : s.Placed layout) : Counted layout s.publishBufferOnly :=
  hc.of_lookup hs ⟨hs.bucketCount_pos, hs.bucketFor_eq⟩ (fun _ => rfl) rfl

lemma counted_updateFlags (hs : s.WellKept layout) (hc : Counted layout s) {newFlags : UInt8}
    (hflags : s.get layout h ≠ none → newFlags &&& kvFlagDeleted = 0) : Counted layout (s.updateFlags layout h newFlags).1 := by
  rw [updateFlags]
  cases hget : s.get layout h with
  | none => exact hc
  | some x =>
    have hlive : (withFlags x newFlags).isDeleted = false := by
      rw [withFlags_isDeleted, hflags (by simp [hget])]
      rfl
    have hhash : (withFlags x newFlags).hash = h := hash_of_get (x := x) hs.placed hget
    have hlen := length_iterAll_replace hs.placed hget hhash s.entryCount
    rw [hlive] at hlen
    refine counted_published ?_ (hs.buffered _ s.entryCount).placed
    rw [Counted, len] at hc ⊢
    exact hc.trans (Nat.add_right_cancel hlen).symm

lemma counted_marked (hs : s.Placed layout) (hc : Counted layout s) (hget : s.get layout h = some x)
    (he : e.hash = h) :
    Counted layout { s with writeBuffer := s.writeBuffer.insert (markedDeleted e), entryCount := s.entryCount - 1 } := by
  have hlen := length_iterAll_replace hs hget (e := markedDeleted e) he (s.entryCount - 1)
  rw [show (markedDeleted e).isDeleted = true from isDeleted_of_flag e e.typeFlags] at hlen
  rw [Counted, len] at hc ⊢
  simp only [if_true] at hlen
  dsimp only
  omega

def Shows (layout : Layout H) (r : ReadSnapshot H) (s : DiskKVStore H) (h : H) : Prop :=
  r.get layout h ≠ none → s.writeBuffer.contains h = true ∨ s.get layout h ≠ none

variable {r : ReadSnapshot H}

lemma markFrom_cases (hr : r.Sound layout n) (hshow : Shows layout r s h) :
    markFrom layout r s h = s ∨ ∃ e, e.hash = h ∧ s.get layout h ≠ none ∧ markFrom layout r s h =
      { s with writeBuffer := s.writeBuffer.insert (markedDeleted e), entryCount := s.entryCount - 1 } := by
  rw [markFrom]
  cases hfound : (s.writeBuffer.get h).or (r.getRaw layout h) with
  | none => exact .inl rfl
  | some e =>
    dsimp only
    split_ifs with hd
    · exact .inl rfl
    refine .inr ⟨e, ?_, ?_, rfl⟩
    · rcases Option.or_eq_some_iff.mp hfound with hget | ⟨_, hget⟩
      · exact (Table.get_eq_some.mp hget).2
      · rcases Option.or_eq_some_iff.mp hget with hget | ⟨_, hget⟩
        · exact (get_eq_some.mp hget).2
        · exact ((readFromDisk_eq_some hr).mp hget).2
    · rcases Option.or_eq_some_iff.mp hfound with hget | ⟨hnone, hget⟩
      · rw [get, hget]
        simp [hd]
      · have hlive : r.get layout h ≠ none := by
          rw [ReadSnapshot.get_eq_getRaw hr, hget]
          simp [Option.filter, hd]
        refine (hshow hlive).resolve_left ?_
        simp [Table.contains, hnone]

lemma shows_insert {h k : H} (hk : Shows layout r s k) (he : e.hash = h) (entryCount : ℕ) :
    Shows layout r { s with writeBuffer := s.writeBuffer.insert e, entryCount := entryCount } k := by
  intro hlive
  by_cases heq : k = h
  · left
    simp [Table.contains, heq, he]
  · have hother : k ≠ e.hash := fun h' => heq (h'.trans he)
    refine (hk hlive).imp ?_ ?_
    · simp [Table.contains, hother]
    · rw [get_eq_lookup, get_eq_lookup]
      simp [lookup, hother]

lemma counted_foldl_markFrom (hs : s.WellKept layout) (hc : Counted layout s) (hr : r.Sound layout n)
    {hashes : List H} (hshow : ∀ h ∈ hashes, Shows layout r s h) : Counted layout (hashes.foldl (markFrom layout r) s) := by
  induction hashes generalizing s with
  | nil => exact hc
  | cons h hashes ih =>
    obtain ⟨hh, hrest⟩ := forall_mem_cons.mp hshow
    rw [foldl_cons]
    rcases markFrom_cases hr hh with heq | ⟨e, he, hget, heq⟩
    · rw [heq]
      exact ih hs hc hrest
    · obtain ⟨x, hx⟩ := ne_none_iff_exists'.mp hget
      rw [heq]
      exact ih (hs.buffered _ _) (counted_marked hs.placed hc hx he) fun k hk =>
        shows_insert (hrest k hk) (e := markedDeleted e) he _

end

section

variable {pages : ℕ → Page H} {n : ℕ}

def Overlapped (voids : List VoidRecord) (e : KVEntry H) : Bool :=
  entryOverlapsVoidRanges (buildMergedVoidRanges voids) e

structure OpensClean (pages : ℕ → Page H) (n : ℕ) (hotEntries : List (KVEntry H)) (hotVoids : List VoidRecord) : Prop where
  hot_live : ∀ e ∈ hotEntries, e.isDeleted = false
  apart : ∀ e ∈ hotEntries, ∀ x ∈ pageEntries pages n, x.hash ≠ e.hash
  page_live : ∀ x ∈ pageEntries pages n, x.isDeleted = true → Overlapped hotVoids x = true

lemma foldl_maskVoided {xs : List (KVEntry H)} (hxs : (xs.map KVEntry.hash).Nodup) {b : Entries H} (hb : ∀ x ∈ xs, b.get x.hash = none)
    (voids : List VoidRecord) (count : ℕ) : (xs.foldl (maskVoided voids) (b, count)).2 = count + xs.countP (Overlapped voids) ∧
      ∀ k, (xs.foldl (maskVoided voids) (b, count)).1.get k =
        (b.get k).or ((xs.find? fun x => x.hash = k && Overlapped voids x).map markedDeleted) := by
  induction xs generalizing b count with
  | nil => simp
  | cons x xs ih =>
    obtain ⟨hnew, hxs⟩ := nodup_cons.mp hxs
    obtain ⟨hx, hb⟩ := forall_mem_cons.mp hb
    have hmask : maskVoided voids (b, count) x =
        if Overlapped voids x then (b.insert (markedDeleted x), count + 1) else (b, count) := by
      simp only [maskVoided, Table.contains, hx, isSome_none, false_eq_true, if_false]
      rfl
    rw [foldl_cons, hmask]
    by_cases hover : Overlapped voids x = true
    · have hb' : ∀ y ∈ xs, (b.insert (markedDeleted x)).get y.hash = none := by
        intro y hy
        have hne : y.hash ≠ (markedDeleted x).hash := fun h => hnew (mem_map.mpr ⟨y, hy, h⟩)
        rw [Table.get_insert, if_neg hne]
        exact hb y hy
      obtain ⟨hcount, hget⟩ := ih hxs hb' (count + 1)
      rw [if_pos hover]
      refine ⟨by rw [hcount, countP_cons_of_pos hover]; omega, fun k => ?_⟩
      rw [hget, Table.get_insert, find?_cons]
      by_cases hk : k = x.hash
      · subst hk
        have hself : x.hash = (markedDeleted x).hash := rfl
        simp [hover, hx, hself.symm]
      · have hne : k ≠ (markedDeleted x).hash := hk
        simp [hne, Ne.symm hk]
    · obtain ⟨hcount, hget⟩ := ih hxs hb count
      rw [if_neg hover]
      refine ⟨by rw [hcount, countP_cons_of_neg hover], fun k => ?_⟩
      rw [hget, find?_cons]
      simp [hover]

omit [DecidableEq H] in
lemma nodup_pageEntries (hpages : ∀ b < n, ∀ e ∈ (pages b).entries, layout.bucketFor e.hash n = b) :
    ((pageEntries pages n).map KVEntry.hash).Nodup := by
  have hnodup := nodup_paged (sound_new hpages ⟨[], nodup_nil⟩ 0)
  rwa [paged, new, flatMap_map] at hnodup

lemma mem_pageEntries (hpos : 0 < n) (hpages : ∀ b < n, ∀ e ∈ (pages b).entries, layout.bucketFor e.hash n = b) :
    e ∈ pageEntries pages n ↔ (pages (layout.bucketFor e.hash n)).get e.hash = some e := by
  rw [pageEntries, mem_flatMap, Table.get_eq_some]
  constructor
  · rintro ⟨b, hb, he⟩
    rw [hpages b (mem_range.mp hb) e he]
    exact ⟨he, rfl⟩
  · exact fun he => ⟨_, mem_range.mpr (layout.bucketFor_lt _ _ hpos), he.1⟩

lemma mem_iterAll_masked (hs : s.Placed layout) {hot : Entries H} {voids : List VoidRecord}
    (hbuffer : ∀ k, s.writeBuffer.get k = (hot.get k).or
      (((pageEntries s.pages s.bucketCount).find? fun x => x.hash = k && Overlapped voids x).map markedDeleted))
    (hapart : ∀ x ∈ pageEntries s.pages s.bucketCount, hot.get x.hash = none) (hlive : ∀ e ∈ hot.entries, e.isDeleted = false)
    (hpage : ∀ x ∈ pageEntries s.pages s.bucketCount, x.isDeleted = true → Overlapped voids x = true) :
    e ∈ s.iterAll layout ↔ e ∈ hot.entries ∨ e ∈ pageEntries s.pages s.bucketCount ∧ Overlapped voids e = false := by
  have hmem := mem_pageEntries hs.bucketCount_pos hs.bucketFor_eq (e := e)
  rw [mem_iterAll layout hs, lookup, hbuffer, Option.or_assoc]
  constructor
  · rintro ⟨hfound, hd⟩
    rcases Option.or_eq_some_iff.mp hfound with hget | ⟨_, hfound⟩
    · exact .inl (get_eq_some.mp hget).1
    rcases Option.or_eq_some_iff.mp hfound with hmask | ⟨hnone, hget⟩
    · obtain ⟨x, _, rfl⟩ := Option.map_eq_some_iff.mp hmask
      rw [markedDeleted, isDeleted_of_flag] at hd
      cases hd
    · refine .inr ⟨hmem.mpr hget, ?_⟩
      have hnot := find?_eq_none.mp (Option.map_eq_none_iff.mp hnone) e (hmem.mpr hget)
      simpa using hnot
  · rintro (he | ⟨he, hover⟩)
    · rw [get_eq_some.mpr ⟨he, rfl⟩]
      exact ⟨rfl, hlive e he⟩
    · have hfind : (pageEntries s.pages s.bucketCount).find? (fun x => x.hash = e.hash && Overlapped voids x) = none := by
        refine find?_eq_none.mpr fun x hx hxe => ?_
        simp only [and_eq_true, decide_eq_true_eq] at hxe
        obtain rfl := inj_on_of_nodup_map (nodup_pageEntries hs.bucketFor_eq) hx he hxe.1
        rw [hover] at hxe
        exact absurd hxe.2 false_ne_true
      rw [hapart e he, hfind]
      refine ⟨hmem.mp he, ?_⟩
      cases hd : e.isDeleted with
      | false => rfl
      | true => simp [hpage e he hd] at hover

lemma mem_of_mem_insertAll {es : List (KVEntry H)} (he : e ∈ (empty.insertAll es : Entries H).entries) : e ∈ es := by
  have hget : (empty.insertAll es : Entries H).get e.hash = some e := get_eq_some.mpr ⟨he, rfl⟩
  rw [get_insertAll, get_empty, or_none] at hget
  exact (latest_some hget).1

lemma counted_opened {kvBlockOffset hotTailOffset stage : ℕ} {hotEntries : List (KVEntry H)} {hotVoids : List VoidRecord}
    (hs : (opened layout kvBlockOffset hotTailOffset stage pages hotEntries hotVoids).WellKept layout)
    (hclean : OpensClean pages (opened layout kvBlockOffset hotTailOffset stage pages hotEntries hotVoids).bucketCount hotEntries hotVoids) :
    Counted layout (opened layout kvBlockOffset hotTailOffset stage pages hotEntries hotVoids) := by
  let t := opened layout kvBlockOffset hotTailOffset stage pages hotEntries hotVoids
  let hot : Entries H := empty.insertAll hotEntries
  have hnodup : ((pageEntries pages t.bucketCount).map KVEntry.hash).Nodup := nodup_pageEntries hs.placed.bucketFor_eq
  have hapart : ∀ x ∈ pageEntries pages t.bucketCount, hot.get x.hash = none := by
    intro x hx
    refine get_eq_none.mpr fun hkey => ?_
    obtain ⟨e, he, hh⟩ := mem_keys.mp hkey
    exact hclean.apart e (mem_of_mem_insertAll he) x hx hh.symm
  obtain ⟨hvoided, hbuffer⟩ := foldl_maskVoided hnodup hapart hotVoids 0
  have hlist : ∀ e, e ∈ t.iterAll layout ↔ e ∈ hot.entries ∨ e ∈ pageEntries pages t.bucketCount ∧ Overlapped hotVoids e = false :=
    fun e => mem_iterAll_masked hs.placed hbuffer hapart (fun e he => hclean.hot_live e (mem_of_mem_insertAll he)) hclean.page_live
  have hperm : (t.iterAll layout).Perm (hot.entries ++ (pageEntries pages t.bucketCount).filter fun x => !Overlapped hotVoids x) := by
    refine (perm_ext_iff_of_nodup t.nodup_iterAll ?_).mpr fun e => ?_
    · refine List.Nodup.append hot.nodup.of_map (hnodup.of_map.filter _) fun e he hpage => ?_
      have hnone := hapart e (mem_filter.mp hpage).1
      rw [get_eq_some.mpr ⟨he, rfl⟩] at hnone
      cases hnone
    · rw [hlist, mem_append, mem_filter, not_eq_true']
  have hsum : ((List.range t.bucketCount).map fun b => (pages b).entries.length).sum = (pageEntries pages t.bucketCount).length :=
    length_flatMap.symm
  have hcount : t.entryCount = ((List.range t.bucketCount).map fun b => (pages b).entries.length).sum -
      ((pageEntries pages t.bucketCount).foldl (maskVoided hotVoids) (hot, 0)).2 + hot.entries.length := rfl
  have hsplit : (pageEntries pages t.bucketCount).length = (pageEntries pages t.bucketCount).countP (Overlapped hotVoids) +
      (pageEntries pages t.bucketCount).countP fun x => !Overlapped hotVoids x := by
    rw [length_eq_countP_add_countP (Overlapped hotVoids)]
    congr 2
    funext x
    cases Overlapped hotVoids x <;> rfl
  rw [Counted, len, hperm.length_eq, length_append, ← countP_eq_length_filter]
  refine hcount.trans ?_
  rw [hsum, hvoided]
  omega

end

def Careful (layout : Layout H) (s : DiskKVStore H) : Call H → Prop
  | .openStore _ hotEntries hotVoids => OpensClean s.pages s.bucketCount hotEntries hotVoids
  | .insert e => InsertCounts layout s e
  | .bulkInsert es => BulkCounts layout es s
  | .updateFlags h newFlags => s.get layout h ≠ none → newFlags &&& kvFlagDeleted = 0
  | .markDeleted _ => True
  | .markDeletedBatch hashes => ∀ h ∈ hashes, Shows layout s.snapshot s h
  | .flush => True

lemma counted_call (hs : s.WellKept layout) (hcount : Counted layout s) {c : Call H} (hc : Careful layout s c)
    (hok : s.call layout c = .ok () s') : Counted layout s' := by
  cases c with
  | openStore hotTailOffset hotEntries hotVoids =>
    cases hok
    have hkept := wellKept_call hs (.openStore hotTailOffset hotEntries hotVoids)
    apply counted_opened hkept
    rw [bucketCount_opened hs]
    exact hc
  | insert e => exact counted_insert hs hcount hc hok
  | bulkInsert es =>
    cases hok
    exact counted_bulkInsert hs.placed hcount hc
  | updateFlags h newFlags =>
    cases hok
    exact counted_updateFlags hs hcount hc
  | markDeleted h =>
    cases hok
    rw [markDeleted]
    cases hget : s.get layout h with
    | none => exact hcount
    | some x => exact counted_published (counted_marked hs.placed hcount hget (hash_of_get hs.placed hget)) (hs.buffered _ _).placed
  | markDeletedBatch hashes =>
    cases hok
    exact counted_published (counted_foldl_markFrom hs hcount hs.sound hc) (wellKept_foldl_markFrom hs _ hashes).placed
  | flush => exact counted_flushFrom hs hcount hok

variable (layout) in
inductive CarefulRun : DiskKVStore H → Prop
  | create (kvBlockOffset hotTailOffset stage : ℕ) : CarefulRun (create layout kvBlockOffset hotTailOffset stage)
  | opened (kvBlockOffset hotTailOffset stage : ℕ) (pages : ℕ → Page H) (hotEntries : List (KVEntry H)) (hotVoids : List VoidRecord)
      (hpages : ∀ b < (opened layout kvBlockOffset hotTailOffset stage pages hotEntries hotVoids).bucketCount, ∀ e ∈ (pages b).entries,
        layout.bucketFor e.hash (opened layout kvBlockOffset hotTailOffset stage pages hotEntries hotVoids).bucketCount = b)
      (hclean : OpensClean pages (opened layout kvBlockOffset hotTailOffset stage pages hotEntries hotVoids).bucketCount hotEntries hotVoids) :
      CarefulRun (opened layout kvBlockOffset hotTailOffset stage pages hotEntries hotVoids)
  | call {s s' : DiskKVStore H} (hs : CarefulRun s) (c : Call H) (hc : Careful layout s c) (hok : s.call layout c = .ok () s') :
      CarefulRun s'

lemma counted_create (kvBlockOffset hotTailOffset stage : ℕ) : Counted layout (create layout kvBlockOffset hotTailOffset stage) := by
  have hplaced := placed_create layout kvBlockOffset hotTailOffset stage
  have hnone : (create layout kvBlockOffset hotTailOffset stage).iterAll layout = [] := by
    refine eq_nil_iff_forall_not_mem.mpr fun e he => ?_
    have hfound := ((mem_iterAll layout hplaced).mp he).1
    cases hfound
  rw [Counted, hnone]
  rfl

theorem len_eq_length_iterAll (hs : CarefulRun layout s) : s.len = (s.iterAll layout).length := by
  have hboth : s.WellKept layout ∧ Counted layout s := by
    induction hs with
    | create kvBlockOffset hotTailOffset stage => exact ⟨wellKept_create _ _ _, counted_create _ _ _⟩
    | opened kvBlockOffset hotTailOffset stage pages hotEntries hotVoids hpages hclean =>
      exact ⟨wellKept_opened hpages, counted_opened (wellKept_opened hpages) hclean⟩
    | call _ c hc hok ih =>
      have hkept := wellKept_call ih.1 c
      rw [hok] at hkept
      exact ⟨hkept, counted_call ih.1 ih.2 hc hok⟩
  exact hboth.2

def twoInserted : DiskKVStore ℕ :=
  Trace.final (runCalls spread [.insert (clashEntry 0), .markDeleted 0, .insert (clashEntry 1)] (create spread 256 65792 0))

theorem len_twoInserted : twoInserted.len = (twoInserted.iterAll spread).length ∧ twoInserted.len = 1 := by
  refine ⟨len_eq_length_iterAll ?_, by decide⟩
  refine .call (.call (.call (.create 256 65792 0) (.insert (clashEntry 0)) ?_ rfl) (.markDeleted 0) trivial rfl) (.insert (clashEntry 1)) ?_ rfl
  · unfold Careful InsertCounts CountedAsNew
    decide
  · unfold Careful InsertCounts CountedAsNew
    decide

theorem reinserted_not_counted : ∃ s', runCalls spread [.insert (clashEntry 0), .markDeleted 0, .insert (clashEntry 0)]
    (create spread 256 65792 0) = .ok () s' ∧ s'.len = 0 ∧ (s'.iterAll spread).length = 1 :=
  ⟨_, rfl, by decide, by decide⟩

end AeorDb.Index.DiskKVStore
