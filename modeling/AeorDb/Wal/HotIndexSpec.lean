import AeorDb.Wal.Space

/-! What lookups find after the operations of the index, and the voids that its hot tail lists. -/

namespace AeorDb.Wal

open Library Store Index KVEntry
open List hiding span

def ApartAll (voids : List VoidRecord) : Prop := ∀ v ∈ voids, ∀ w ∈ voids, v ≠ w → v.span.Apart w.span

lemma ApartAll.subset {voids voids' : List VoidRecord} (h : ApartAll voids) (hsub : ∀ v ∈ voids', v ∈ voids) : ApartAll voids' :=
  fun v hv w hw => h v (hsub v hv) w (hsub w hw)

variable {voids : List VoidRecord}

lemma ApartAll.sanitize (h : ApartAll voids) (walStart walEnd : ℕ) :
    ApartAll (sanitizePendingVoids voids walStart walEnd) := h.subset fun _ hv => (mem_filter.mp hv).1

lemma mem_of_mem_sanitize {walStart walEnd : ℕ} {v : VoidRecord}
    (h : v ∈ sanitizePendingVoids voids walStart walEnd) : v ∈ voids := (mem_filter.mp h).1

namespace HotIndex

variable {H : Type} {kv : HotIndex H} {walStart walEnd : ℕ} {fate : H → Fate} {h : H} {x y : KVEntry H}

structure Tidy (kv : HotIndex H) : Prop where
  pending : ApartAll kv.pendingVoids
  hot : ApartAll kv.hotTail.voids
  writes : kv.writeBuffer.entries = [] → kv.hotTail.writes = []

structure Bare (kv : HotIndex H) : Prop where
  pages : kv.pages.entries = []
  writeBuffer : kv.writeBuffer.entries = []
  hotTail : kv.hotTail.writes = []

variable {v : VoidRecord}

lemma Tidy.setPendingVoids (ht : kv.Tidy) (hv : ApartAll voids) : (kv.setPendingVoids walStart walEnd voids).Tidy :=
  ⟨hv.sanitize _ _, ht.hot, ht.writes⟩

lemma Tidy.forceFlushHotBuffer (ht : kv.Tidy) : (kv.forceFlushHotBuffer walStart walEnd).Tidy :=
  ⟨ht.pending.sanitize _ _, ht.pending.sanitize _ _, id⟩

lemma Tidy.flushHotBuffer (ht : kv.Tidy) : (kv.flushHotBuffer walStart walEnd).Tidy := by
  unfold HotIndex.flushHotBuffer
  split_ifs
  · exact ht
  · exact ⟨ht.forceFlushHotBuffer.pending, ht.forceFlushHotBuffer.hot, ht.forceFlushHotBuffer.writes⟩

lemma Bare.flushHotBuffer (hb : kv.Bare) : (kv.flushHotBuffer walStart walEnd).Bare := by
  unfold HotIndex.flushHotBuffer
  split_ifs
  · exact hb
  · exact ⟨hb.pages, hb.writeBuffer, hb.writeBuffer⟩

lemma mem_pending_flushHotBuffer (hv : v ∈ (kv.flushHotBuffer walStart walEnd).pendingVoids) : v ∈ kv.pendingVoids := by
  unfold HotIndex.flushHotBuffer at hv
  split_ifs at hv
  · exact hv
  · exact mem_of_mem_sanitize hv

lemma writeBuffer_flushHotBuffer : (kv.flushHotBuffer walStart walEnd).writeBuffer = kv.writeBuffer := by
  unfold HotIndex.flushHotBuffer
  split_ifs <;> rfl

lemma pages_flushHotBuffer : (kv.flushHotBuffer walStart walEnd).pages = kv.pages := by
  unfold HotIndex.flushHotBuffer
  split_ifs <;> rfl

variable [DecidableEq H]

lemma get_all (kv : HotIndex H) (h : H) : kv.all.get h = (kv.writeBuffer.get h).or (kv.pages.get h) := by
  rw [all, Table.get_insertAll, Table.latest_eq_get _ fun _ => Iff.rfl]

lemma get_eq_some : kv.get h = some x ↔ kv.all.get h = some x ∧ x.isDeleted = false := by
  rw [get, Option.filter_eq_some_iff, Bool.not_eq_true']

lemma hash_of_get (hx : kv.get h = some x) : x.hash = h := (Table.get_eq_some.mp (get_eq_some.mp hx).1).2

lemma mem_iterAll : x ∈ kv.iterAll ↔ kv.get x.hash = some x := by
  rw [iterAll, mem_filter, get_eq_some, Table.get_eq_some, Bool.not_eq_true']
  simp

lemma Bare.get_eq_none (hb : kv.Bare) (h : H) : kv.get h = none := by
  have hall : kv.all.get h = none := by
    rw [get_all, Table.get, Table.get, hb.pages, hb.writeBuffer]
    rfl
  rw [get, hall]
  rfl

lemma Bare.flush (hb : kv.Bare) : kv.flush walStart walEnd fate = kv := if_pos hb.writeBuffer

lemma Bare.of_flush (hb : kv.Bare) : (kv.flush walStart walEnd fate).Bare := by
  rw [hb.flush]
  exact hb

def Shrinks (kv kv' : HotIndex H) : Prop := ∀ h x, kv'.get h = some x → kv.get h = some x

lemma Shrinks.of_eq {kv kv' : HotIndex H} (hbuffer : kv'.writeBuffer = kv.writeBuffer) (hpages : kv'.pages = kv.pages) : kv.Shrinks kv' := by
  intro h x hx
  rwa [get, all, hbuffer, hpages, ← all, ← get] at hx

lemma Shrinks.trans {kv kv' kv'' : HotIndex H} (h : kv.Shrinks kv') (h' : kv'.Shrinks kv'') : kv.Shrinks kv'' :=
  fun k x hx => h k x (h' k x hx)

lemma all_flushHotBuffer : (kv.flushHotBuffer walStart walEnd).all = kv.all := by
  rw [all, writeBuffer_flushHotBuffer, pages_flushHotBuffer, ← all]

lemma all_flush (hx : (kv.flush walStart walEnd fate).all.get h = some x) : kv.all.get h = some x := by
  unfold flush at hx
  split_ifs at hx with hempty
  · exact hx
  · simp only [get_all, Table.get_insertAll, Table.latest_eq_get _ fun _ => Iff.rfl, Table.get_filter] at hx
    rw [get_all]
    cases hb : kv.writeBuffer.get h with
    | none => simpa [hb] using hx
    | some y =>
      obtain ⟨_, rfl⟩ := Table.get_eq_some.mp hb
      -- an entry that is not on its page is only found where the flush has put it
      cases hp : kv.pages.contains y.hash with
      | true => simpa [hb, hp, Option.filter] using hx
      | false =>
        have hnone : kv.pages.get y.hash = none := by
          rw [Table.contains, Option.isSome_eq_false_iff, Option.isNone_iff_eq_none] at hp
          exact hp
        cases hf : fate y.hash <;> simp [hb, hp, hnone, hf, Option.filter] at hx <;> simp [hx]

lemma shrinks_flush : kv.Shrinks (kv.flush walStart walEnd fate) := by
  intro h x hx
  obtain ⟨hall, hlive⟩ := get_eq_some.mp hx
  exact get_eq_some.mpr ⟨all_flush hall, hlive⟩

lemma all_insert (hx : (kv.insert walStart walEnd fate y).all.get h = some x) :
    h = y.hash ∧ x = y ∨ h ≠ y.hash ∧ kv.all.get h = some x := by
  have hbuffered : ({ kv with writeBuffer := kv.writeBuffer.insert y, hotBuffer := kv.hotBuffer ++ [y] } : HotIndex H).all.get h = some x := by
    unfold insert at hx
    dsimp only at hx
    split_ifs at hx with hhot hfull hfull
    · have hflushed := all_flush hx
      rwa [all_flushHotBuffer] at hflushed
    · rwa [all_flushHotBuffer] at hx
    · exact all_flush hx
    · exact hx
  rw [get_all, Table.get_insert] at hbuffered
  by_cases hy : h = y.hash
  · exact Or.inl ⟨hy, by simpa [hy] using hbuffered.symm⟩
  · refine Or.inr ⟨hy, ?_⟩
    rw [get_all]
    simpa [hy] using hbuffered

lemma get_insert (hx : (kv.insert walStart walEnd fate y).get h = some x) : h = y.hash ∧ x = y ∨ h ≠ y.hash ∧ kv.get h = some x := by
  obtain ⟨hall, hlive⟩ := get_eq_some.mp hx
  exact (all_insert hall).imp_right fun ⟨hne, hold⟩ => ⟨hne, get_eq_some.mpr ⟨hold, hlive⟩⟩

lemma get_of_insert_deleted (hy : y.isDeleted = true)
    (hx : ({ kv with writeBuffer := kv.writeBuffer.insert y } : HotIndex H).get h = some x) : h ≠ y.hash ∧ kv.get h = some x := by
  rw [get_eq_some, get_all, Table.get_insert] at hx
  by_cases hh : h = y.hash
  · obtain rfl : y = x := by simpa [hh] using hx.1
    rw [hy] at hx
    cases hx.2
  · refine ⟨hh, get_eq_some.mpr ⟨?_, hx.2⟩⟩
    rw [get_all]
    simpa [hh] using hx.1

omit [DecidableEq H] in
lemma isDeleted_of_flag (x : KVEntry H) (flags : UInt8) : ({ x with typeFlags := flags ||| kvFlagDeleted } : KVEntry H).isDeleted = true := by
  have hand : (flags ||| kvFlagDeleted) &&& kvFlagDeleted = kvFlagDeleted := by
    apply UInt8.toBitVec_inj.mp
    ext i hi
    simp only [UInt8.toBitVec_and, UInt8.toBitVec_or, BitVec.getElem_and, BitVec.getElem_or]
    cases kvFlagDeleted.toBitVec[i] <;> simp
  simp only [isDeleted, hand]
  decide

lemma get_markDeleted {k : H} (hx : (kv.markDeleted k).get h = some x) : h ≠ k ∧ kv.get h = some x := by
  unfold markDeleted at hx
  cases hk : kv.get k with
  | none =>
    rw [hk] at hx
    refine ⟨?_, hx⟩
    rintro rfl
    rw [hk] at hx
    cases hx
  | some y =>
    rw [hk] at hx
    have hget := get_of_insert_deleted (isDeleted_of_flag y y.typeFlags) hx
    exact ⟨hash_of_get hk ▸ hget.1, hget.2⟩

lemma get_markDeletedBatch {hashes : List H} (hx : (kv.markDeletedBatch hashes).get h = some x) : h ∉ hashes ∧ kv.get h = some x := by
  induction hashes generalizing kv with
  | nil => exact ⟨not_mem_nil, hx⟩
  | cons k hashes ih =>
    obtain ⟨hrest, hget⟩ := ih hx
    obtain ⟨hk, hget⟩ := get_markDeleted hget
    exact ⟨by simp [hk, hrest], hget⟩

lemma Tidy.flush (ht : kv.Tidy) : (kv.flush walStart walEnd fate).Tidy := by
  unfold HotIndex.flush
  split_ifs
  · exact ht
  · exact ⟨ht.pending.sanitize _ _, ht.pending.sanitize _ _, id⟩

lemma mem_pending_flush (hv : v ∈ (kv.flush walStart walEnd fate).pendingVoids) : v ∈ kv.pendingVoids := by
  unfold HotIndex.flush at hv
  split_ifs at hv
  · exact hv
  · exact mem_of_mem_sanitize hv

lemma Tidy.buffered (ht : kv.Tidy) (y : KVEntry H) (hot : List (KVEntry H)) :
    ({ kv with writeBuffer := kv.writeBuffer.insert y, hotBuffer := hot } : HotIndex H).Tidy :=
  ⟨ht.pending, ht.hot, fun hnil => absurd hnil (ne_nil_of_mem (Table.mem_insert.mpr (.inl rfl)))⟩

lemma Tidy.insert (ht : kv.Tidy) : (kv.insert walStart walEnd fate y).Tidy := by
  have hbuffered := ht.buffered y (kv.hotBuffer ++ [y])
  unfold HotIndex.insert
  dsimp only
  split_ifs
  · exact hbuffered.flushHotBuffer.flush
  · exact hbuffered.flushHotBuffer
  · exact hbuffered.flush
  · exact hbuffered

lemma mem_pending_insert (hv : v ∈ (kv.insert walStart walEnd fate y).pendingVoids) : v ∈ kv.pendingVoids := by
  let buffered : HotIndex H := { kv with writeBuffer := kv.writeBuffer.insert y, hotBuffer := kv.hotBuffer ++ [y] }
  suffices h : v ∈ buffered.pendingVoids from h
  unfold HotIndex.insert at hv
  dsimp only at hv
  split_ifs at hv
  · exact mem_pending_flushHotBuffer (mem_pending_flush hv)
  · exact mem_pending_flushHotBuffer hv
  · exact mem_pending_flush hv
  · exact hv

lemma Tidy.markDeleted (ht : kv.Tidy) (k : H) : (kv.markDeleted k).Tidy := by
  unfold HotIndex.markDeleted
  split
  · exact ht.buffered _ _
  · exact ht

lemma Bare.markDeletedBatch (hb : kv.Bare) (hashes : List H) : (kv.markDeletedBatch hashes).Bare := by
  induction hashes with
  | nil => exact hb
  | cons k hashes ih =>
    have hsame : kv.markDeleted k = kv := by rw [HotIndex.markDeleted, hb.get_eq_none]
    rw [HotIndex.markDeletedBatch, foldl_cons, hsame]
    exact ih

lemma Tidy.markDeletedBatch (ht : kv.Tidy) (hashes : List H) : (kv.markDeletedBatch hashes).Tidy := by
  induction hashes generalizing kv with
  | nil => exact ht
  | cons k hashes ih => exact ih (ht.markDeleted k)

def voidSpans (voids : List VoidRecord) : List Span :=
  ((voids.filter (·.size ≠ 0)).map VoidRecord.span).mergeSort fun a b => a.start < b.start || a.start = b.start && a.stop ≤ b.stop

lemma sorted_voidSpans (voids : List VoidRecord) : (voidSpans voids).Pairwise fun a b => a.start ≤ b.start := by
  refine (pairwise_mergeSort ?_ ?_ _).imp ?_
  · intro a b c hab hbc
    simp only [Bool.or_eq_true, Bool.and_eq_true, decide_eq_true_eq] at *
    omega
  · intro a b
    simp only [Bool.or_eq_true, Bool.and_eq_true, decide_eq_true_eq]
    omega
  · intro a b hab
    simp only [Bool.or_eq_true, Bool.and_eq_true, decide_eq_true_eq] at hab
    omega

lemma exists_voidSpan_iff {P : Span → Prop} : (∃ s ∈ voidSpans voids, P s) ↔ ∃ v ∈ voids, 0 < v.size ∧ P v.span := by
  simp [voidSpans, mem_mergeSort, Nat.pos_iff_ne_zero, and_assoc]

lemma voidSpans_pos (s : Span) (hs : s ∈ voidSpans voids) : 0 < s.size := by
  obtain ⟨v, -, hpos, rfl⟩ := exists_voidSpan_iff.mp ⟨s, hs, rfl⟩
  exact hpos

omit [DecidableEq H] in
lemma overlaps_merged_iff : entryOverlapsVoidRanges (buildMergedVoidRanges voids) x = true ↔
    0 < x.totalLength ∧ ∃ v ∈ voids, 0 < v.size ∧ ¬ v.span.Apart (span x) := by
  rw [entryOverlapsVoidRanges, Bool.and_eq_true, decide_eq_true_eq, ← Nat.pos_iff_ne_zero]
  refine and_congr_right fun hx => ?_
  have hlength : x.offset < x.offset + x.totalLength := Nat.lt_add_of_pos_right hx
  refine (Span.meets_merged_iff (sorted_voidSpans voids) voidSpans_pos hlength).trans (exists_voidSpan_iff.trans ?_)
  refine exists_congr fun v => and_congr_right fun _ => and_congr_right fun hpos => (Span.inter_nonempty_iff hpos hlength).trans ?_
  simp only [Span.Apart, not_or, not_le, Span.stop, span]

section

def Counts (v : VoidRecord) : Prop := 0 < v.size ∧ v.offset + v.size < 2 ^ 64

-- a record whose end does not fit in 64 bits is passed over
def buildCheckedVoidRanges (voids : List VoidRecord) : List Span := buildMergedVoidRanges (voids.filter fun v => v.offset + v.size < 2 ^ 64)

def rangeOverlapsVoidRanges (entryStart entryEnd : ℕ) (ranges : List Span) : Bool :=
  entryStart < entryEnd && Span.meets ranges entryStart entryEnd

theorem void_filtering_exact (voids : List VoidRecord) :
    (buildCheckedVoidRanges voids).Pairwise (fun a b => a.stop < b.start) ∧ (∀ r ∈ buildCheckedVoidRanges voids, 0 < r.size) ∧
    (∀ i, (∃ r ∈ buildCheckedVoidRanges voids, i ∈ r.places) ↔ ∃ v ∈ voids, Counts v ∧ i ∈ v.span.places) ∧
    ∀ entryStart entryEnd, rangeOverlapsVoidRanges entryStart entryEnd (buildCheckedVoidRanges voids) = true ↔
      ∃ v ∈ voids, Counts v ∧ (v.span.places ∩ Set.Ico entryStart entryEnd).Nonempty := by
  have hcounts {P : Span → Prop} : (∃ s ∈ voidSpans (voids.filter fun v => v.offset + v.size < 2 ^ 64), P s) ↔
      ∃ v ∈ voids, Counts v ∧ P v.span := by
    rw [exists_voidSpan_iff]
    simp only [mem_filter, decide_eq_true_eq, Counts, and_assoc, and_left_comm]
  obtain ⟨hapart, hsizes, hplaces⟩ := Span.merged_spec (sorted_voidSpans (voids.filter fun v => v.offset + v.size < 2 ^ 64)) voidSpans_pos
  refine ⟨hapart, hsizes, fun i => (hplaces i).trans hcounts, fun lo hi => ?_⟩
  rw [rangeOverlapsVoidRanges, Bool.and_eq_true, decide_eq_true_eq]
  by_cases hlt : lo < hi
  · rw [and_iff_right hlt]
    exact (Span.meets_merged_iff (sorted_voidSpans _) voidSpans_pos hlt).trans hcounts
  · simp [hlt]

end

lemma get_empty_insertAll (xs : List (KVEntry H)) (h : H) : ((Table.empty : Entries H).insertAll xs).get h = Table.latest hash xs h := by
  rw [Table.get_insertAll, Table.get_empty, Option.or_none]

lemma get_opened (hx : (kv.opened voids).get h = some x) :
    Table.latest hash kv.hotTail.writes h = some x ∨ Table.latest hash kv.hotTail.writes h = none ∧ kv.pages.get h = some x ∧
      entryOverlapsVoidRanges (buildMergedVoidRanges voids) x = false := by
  rw [get_eq_some, get_all, opened] at hx
  dsimp only at hx
  rw [Table.get_insertAll, get_empty_insertAll] at hx
  obtain ⟨hget, hlive⟩ := hx
  generalize hmask : (kv.pages.entries.filter fun x =>
    !Table.contains (Table.insertAll Table.empty kv.hotTail.writes) x.hash && entryOverlapsVoidRanges (buildMergedVoidRanges voids) x) = masked at hget
  cases hl : Table.latest hash (masked.map markedDeleted) h with
  | some y =>
    obtain ⟨z, _, rfl⟩ := mem_map.mp (Table.latest_some hl).1
    obtain rfl : markedDeleted z = x := by simpa [hl] using hget
    rw [markedDeleted, isDeleted_of_flag] at hlive
    cases hlive
  | none =>
    rw [hl, Option.none_or] at hget
    cases hw : Table.latest hash kv.hotTail.writes h with
    | some y => exact Or.inl (by simpa [hw] using hget)
    | none =>
      rw [hw, Option.none_or] at hget
      refine Or.inr ⟨rfl, hget, ?_⟩
      rw [← Bool.not_eq_true]
      intro hover
      obtain ⟨hmem, rfl⟩ := Table.get_eq_some.mp hget
      have hin : x ∈ masked := by
        rw [← hmask, mem_filter, hover, Table.contains, get_empty_insertAll, hw]
        exact ⟨hmem, rfl⟩
      exact Table.latest_eq_none_iff.mp hl _ (mem_map_of_mem hin) rfl

end HotIndex

end AeorDb.Wal
