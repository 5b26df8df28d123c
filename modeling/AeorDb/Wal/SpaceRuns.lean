import AeorDb.Store.Digest
import AeorDb.Wal.ExpansionSafe
import AeorDb.Wal.SpaceSafe
import Mathlib.Logic.Relation

/-! Runs of a database: voids stay apart from live entries as long as a rebuild finds nothing in them. -/

namespace AeorDb.Wal.Space

open Library Store Index HotIndex KVEntry
open List hiding span

variable {H : Type} [DecidableEq H] {hs : Hasher H} {fate : H → Fate} {s : Space H} {x : KVEntry H} {k : H}

section

structure Movable (s : Space H) (newKvEnd copyEnd : ℕ) : Prop where
  grows : s.walStart ≤ newKvEnd
  covers : newKvEnd ≤ copyEnd
  reaches : copyEnd ≤ s.walEnd
  whole : ∀ r ∈ s.log, r.offset < copyEnd → r.span.stop ≤ copyEnd

variable {newKvEnd copyEnd : ℕ} {emptyKey : H} {timestamp : ℤ} {v : VoidRecord} {voids : List VoidRecord} {r : LogRecord H}

lemma mem_adjustVoids {oldKvEnd delta newWalStart newWalEnd : ℕ}
    (hv : v ∈ adjustVoidsForExpansion voids oldKvEnd copyEnd delta newWalStart newWalEnd) :
    0 < v.size ∧ v.span.Within newWalStart newWalEnd ∧
      ∃ u ∈ voids, oldKvEnd ≤ u.offset ∧ v.span = u.span.shift delta ∨ v = u := by
  obtain ⟨u, hu, hv⟩ := mem_filterMap.mp hv
  rw [Option.filter_eq_some_iff] at hv
  obtain ⟨hmoved, hvalid⟩ := hv
  have hin : 0 < v.size ∧ v.span.Within newWalStart newWalEnd := by
    simp only [validReusableRange, Bool.and_eq_true, decide_eq_true_eq] at hvalid
    simp only [Span.Within, Span.stop, VoidRecord.span]
    omega
  refine ⟨hin.1, hin.2, u, hu, ?_⟩
  split_ifs at hmoved with hcopied hneg hlow
  · cases hmoved
    refine Or.inl ⟨hcopied.1, ?_⟩
    simp only [VoidRecord.span, Span.shift]
    rw [← Int.natCast_add, Int.toNat_natCast]
  · exact Or.inr (Option.some.inj hmoved).symm

omit [DecidableEq H] in
lemma span_adjustOffset (walStart copyEnd delta : ℕ) (y : KVEntry H) :
    walStart ≤ y.offset ∧ y.offset < copyEnd ∧ span (adjustOffset walStart copyEnd delta y) = (span y).shift delta ∨
    ¬ (walStart ≤ y.offset ∧ y.offset < copyEnd) ∧ adjustOffset walStart copyEnd delta y = y := by
  by_cases hmoved : walStart ≤ y.offset ∧ y.offset < copyEnd
  · refine Or.inl ⟨hmoved.1, hmoved.2, ?_⟩
    rw [adjustOffset, if_pos hmoved]
    simp only [span, Span.shift]
    rw [← Int.natCast_add, Int.toNat_natCast]
  · exact Or.inr ⟨hmoved, if_neg hmoved⟩

omit [DecidableEq H] in
lemma mem_relocatedLog (hr : r ∈ s.relocatedLog copyEnd) : r ∈ s.log ∧ copyEnd ≤ r.offset ∨
    ∃ t ∈ s.log, t.offset < copyEnd ∧ s.walStart ≤ t.offset ∧ r = { t with offset := t.offset + (s.walEnd - s.walStart) } := by
  rcases mem_append.mp hr with hr | hr
  · exact Or.inl (by simpa using hr)
  · obtain ⟨t, ht, rfl⟩ := mem_map.mp hr
    simp only [mem_filter, Bool.and_eq_true, decide_eq_true_eq] at ht
    exact Or.inr ⟨t, ht.1, ht.2.2, ht.2.1, rfl⟩

lemma Sound.relocatedIn (h : s.Sound) (hm : s.Movable newKvEnd copyEnd) (hr : r ∈ s.relocatedLog copyEnd) :
    0 < r.totalLength ∧ copyEnd ≤ r.offset ∧ r.span.stop ≤ s.walEnd + (copyEnd - s.walStart) := by
  have := hm.reaches
  rcases mem_relocatedLog hr with ⟨hr, hle⟩ | ⟨t, ht, hlt, hge, rfl⟩
  · obtain ⟨hpos, _, hhi⟩ := h.logIn r hr
    exact ⟨hpos, hle, hhi.trans (Nat.le_add_right _ _)⟩
  · have hstop := hm.whole t ht hlt
    simp only [Span.stop, LogRecord.span] at hstop ⊢
    exact ⟨(h.logIn t ht).1, by omega, by omega⟩

lemma Sound.relocatedApart (h : s.Sound) (copyEnd : ℕ) : (s.relocatedLog copyEnd).Pairwise fun a b => a.span.Apart b.span := by
  refine pairwise_append.mpr ⟨h.logApart.filter _, pairwise_map.mpr ?_, fun a ha b hb => ?_⟩
  · exact (h.logApart.filter _).imp fun hab => hab.shift (s.walEnd - s.walStart)
  · obtain ⟨_, _, hhi⟩ := h.logIn a (mem_of_mem_filter ha)
    obtain ⟨t, ht, rfl⟩ := mem_map.mp hb
    simp only [mem_filter, Bool.and_eq_true, decide_eq_true_eq] at ht
    refine Or.inl (hhi.trans ?_)
    simp only [LogRecord.span]
    omega

omit [DecidableEq H] in
lemma mem_tailVoid (hr : r ∈ tailVoid hs emptyKey timestamp newKvEnd copyEnd) :
    0 < r.totalLength ∧ r.offset = newKvEnd ∧ r.span.stop = copyEnd := by
  unfold tailVoid at hr
  split_ifs at hr with hroom
  · obtain rfl := mem_singleton.mp hr
    simp only [fixedHeaderSize] at hroom
    refine ⟨?_, rfl, ?_⟩ <;> simp only [Span.stop, LogRecord.span] <;> omega
  · cases hr

lemma get_expand (hx : (s.expandKvBlockOnline hs fate emptyKey timestamp newKvEnd copyEnd).kv.get k = some x) :
    ∃ y, s.kv.get k = some y ∧ x = adjustOffset s.walStart copyEnd ((s.walEnd : ℤ) - s.walStart) y := by
  simp only [expandKvBlockOnline] at hx
  rw [get_eq_some, get_all, Table.get_empty, get_empty_insertAll] at hx
  obtain ⟨hmem, rfl⟩ := Table.latest_some hx.1
  obtain ⟨y, hy, rfl⟩ := mem_map.mp (mem_of_mem_filter hmem)
  exact ⟨y, by simpa only [hash_adjustOffset] using mem_iterAll.mp hy, rfl⟩

lemma Sound.mem_voids_expand (h : s.Sound) (hv : v ∈ adjustVoidsForExpansion s.voids.entries s.walStart copyEnd
      ((s.walEnd : ℤ) - s.walStart) newKvEnd (s.walEnd + (copyEnd - s.walStart))) :
    0 < v.size ∧ v.span.Within newKvEnd (s.walEnd + (copyEnd - s.walStart)) ∧ ∃ u ∈ s.voids.entries,
      s.walStart ≤ u.offset ∧ v.span = u.span.shift (s.walEnd - s.walStart) ∨ v = u := by
  rw [← Int.natCast_sub h.ordered] at hv
  exact mem_adjustVoids hv

lemma Sound.le_shift_start (h : s.Sound) {a : Span} (ha : s.walStart ≤ a.start) : s.walEnd ≤ (a.shift (s.walEnd - s.walStart)).start := by
  simp only [Span.shift]
  omega

lemma Sound.voidsApart_expand (h : s.Sound) : ApartAll (adjustVoidsForExpansion s.voids.entries s.walStart copyEnd
    ((s.walEnd : ℤ) - s.walStart) newKvEnd (s.walEnd + (copyEnd - s.walStart))) := by
  intro v hv w hw hne
  obtain ⟨_, _, u, hu, hcase⟩ := h.mem_voids_expand hv
  obtain ⟨_, _, u', hu', hcase'⟩ := h.mem_voids_expand hw
  rcases hcase with ⟨hlo, hspan⟩ | rfl <;> rcases hcase' with ⟨hlo', hspan'⟩ | rfl
  · rw [hspan, hspan']
    refine (h.voidsApart u hu u' hu' ?_).shift _
    rintro rfl
    have hsame : v.span = w.span := hspan.trans hspan'.symm
    cases v
    cases w
    simp only [VoidRecord.span, Span.mk.injEq] at hsame
    exact hne (by rw [hsame.1, hsame.2])
  · rw [hspan]
    exact Or.inr ((h.voidsIn w hu').2.2.trans (h.le_shift_start hlo))
  · rw [hspan']
    exact Or.inl ((h.voidsIn v hu).2.2.trans (h.le_shift_start hlo'))
  · exact h.voidsApart v hu w hu' hne

lemma Sound.free_expand (h : s.Sound) (hv : v ∈ adjustVoidsForExpansion s.voids.entries s.walStart copyEnd
      ((s.walEnd : ℤ) - s.walStart) newKvEnd (s.walEnd + (copyEnd - s.walStart))) {y : KVEntry H} (hy : s.kv.get k = some y) :
    v.span.Apart (span (adjustOffset s.walStart copyEnd ((s.walEnd : ℤ) - s.walStart) y)) := by
  obtain ⟨_, _, u, hu, hcase⟩ := h.mem_voids_expand hv
  rw [← Int.natCast_sub h.ordered]
  rcases hcase with ⟨hlo, hspan⟩ | rfl <;> rcases span_adjustOffset s.walStart copyEnd (s.walEnd - s.walStart) y with ⟨hlo', _, hspan'⟩ | ⟨_, hstay⟩
  · rw [hspan, hspan']
    exact (h.free u hu k y hy).shift _
  · rw [hspan, hstay]
    exact Or.inr ((h.entryIn hy).2.2.trans (h.le_shift_start hlo))
  · rw [hspan']
    exact Or.inl ((h.voidsIn v hu).2.2.trans (h.le_shift_start hlo'))
  · rw [hstay]
    exact h.free v hu k y hy

lemma Sound.expandKvBlockOnline (h : s.Sound) (hm : s.Movable newKvEnd copyEnd) :
    (s.expandKvBlockOnline hs fate emptyKey timestamp newKvEnd copyEnd).Sound where
  ordered := hm.covers.trans (hm.reaches.trans (Nat.le_add_right _ _))
  logIn r hr := by
    rcases mem_append.mp hr with hr | hr
    · obtain ⟨hpos, hlo, hhi⟩ := h.relocatedIn hm hr
      exact ⟨hpos, hm.covers.trans hlo, hhi⟩
    · obtain ⟨hpos, hlo, hhi⟩ := mem_tailVoid hr
      exact ⟨hpos, hlo.ge, hhi.trans_le (hm.reaches.trans (Nat.le_add_right _ _))⟩
  logApart := by
    refine pairwise_append.mpr ⟨h.relocatedApart copyEnd, ?_, fun a ha b hb => ?_⟩
    · unfold tailVoid
      split_ifs
      · exact pairwise_singleton ..
      · exact .nil
    · exact Or.inr ((mem_tailVoid hb).2.2.trans_le (h.relocatedIn hm ha).2.1)
  indexed k x hx := by
    obtain ⟨y, hy, rfl⟩ := get_expand hx
    obtain ⟨r, hr, hkey, hspan⟩ := h.indexed k y hy
    have hoffset : r.offset = y.offset := congrArg Span.start hspan
    have hge : s.walStart ≤ r.offset := (h.logIn r hr).2.1
    rw [← Int.natCast_sub h.ordered]
    rcases span_adjustOffset s.walStart copyEnd (s.walEnd - s.walStart) y with
      ⟨_, hlt, hspan'⟩ | ⟨hout, hstay⟩
    · refine ⟨{ r with offset := r.offset + (s.walEnd - s.walStart) }, ?_, hkey, ?_⟩
      · refine mem_append_left _ (mem_append_right _ (mem_map_of_mem (mem_filter.mpr ⟨hr, ?_⟩)))
        simpa [hoffset] using ⟨hoffset ▸ hge, hlt⟩
      · rw [hspan', ← hspan]
        rfl
    · refine ⟨r, mem_append_left _ (mem_append_left _ (mem_filter.mpr ⟨hr, ?_⟩)), hkey, by rw [hstay, hspan]⟩
      rw [not_and, Nat.not_lt] at hout
      exact decide_eq_true (hoffset ▸ hout (hoffset ▸ hge))
  voidsIn v hv := by
    obtain ⟨hpos, hin, _⟩ := h.mem_voids_expand (mem_replaceAll hv).1
    exact ⟨hpos, hin⟩
  voidsApart := h.voidsApart_expand.subset fun v hv => (mem_replaceAll hv).1
  free v hv k x hx := by
    obtain ⟨y, hy, rfl⟩ := get_expand hx
    exact h.free_expand (mem_replaceAll hv).1 hy
  tidy := ⟨h.voidsApart_expand.sanitize _ _, h.voidsApart_expand.sanitize _ _, fun _ => rfl⟩
  bare hlog := by
    have hnone : s.log = [] := by
      refine eq_nil_iff_forall_not_mem.mpr fun r hr => ?_
      have hkept : ∀ t, t ∉ s.relocatedLog copyEnd := eq_nil_iff_forall_not_mem.mp (append_eq_nil_iff.mp hlog).1
      by_cases hlt : r.offset < copyEnd
      · refine hkept _ (mem_append_right _ (mem_map_of_mem (mem_filter.mpr ⟨hr, ?_⟩)))
        simpa using ⟨(h.logIn r hr).2.1, hlt⟩
      · exact hkept r (mem_append_left _ (mem_filter.mpr ⟨hr, decide_eq_true (Nat.not_lt.mp hlt)⟩))
    have hiter : s.kv.iterAll = [] := by
      refine eq_nil_iff_forall_not_mem.mpr fun x hx => ?_
      have hget := mem_iterAll.mp hx
      rw [(h.bare hnone).get_eq_none] at hget
      cases hget
    exact ⟨by simp only [Space.expandKvBlockOnline, hiter]; rfl, rfl, rfl⟩

lemma mem_replaceAll_of_mem (hapart : ApartAll voids) (hpos : ∀ v ∈ voids, 0 < v.size) (hv : v ∈ voids) :
    v ∈ (VoidManager.replaceAll voids).entries := by
  have hkeep : ∀ (ws : List VoidRecord) (vm : VoidManager), (∀ w ∈ ws, w ≠ v → w.offset ≠ v.offset) → v ∈ vm.entries ∨ v ∈ ws →
      v ∈ (ws.foldl VoidManager.registerVoid vm).entries := by
    intro ws
    induction ws with
    | nil => exact fun vm _ h => h.resolve_right not_mem_nil
    | cons w ws ih =>
      intro vm hoff h
      obtain ⟨hw, hws⟩ := forall_mem_cons.mp hoff
      refine ih _ hws ?_
      by_cases heq : w = v
      · subst heq
        refine Or.inl ?_
        have hsize : ¬ w.size < VoidManager.minimumVoidSize := Nat.not_lt.mpr (hpos w hv)
        rw [VoidManager.registerVoid, if_neg hsize]
        exact Table.mem_insert.mpr (Or.inl rfl)
      · rcases h with h | h
        · refine Or.inl ?_
          unfold VoidManager.registerVoid
          split_ifs
          · exact h
          · exact Table.mem_insert.mpr (Or.inr ⟨h, fun hk => hw heq hk.symm⟩)
        · exact Or.inr ((mem_cons.mp h).resolve_left fun hvw => heq hvw.symm)
  refine hkeep voids Table.empty (fun w hw hne heq => ?_) (Or.inr hv)
  have hne' := hapart w hw v hv hne
  have := hpos w hw
  have := hpos v hv
  simp only [Span.Apart, Span.stop, VoidRecord.span] at hne'
  omega

lemma Sound.synced_expand (h : s.Sound) : (s.expandKvBlockOnline hs fate emptyKey timestamp newKvEnd copyEnd).Synced := fun _ hv =>
  mem_replaceAll_of_mem h.voidsApart_expand (fun _ hw => (h.mem_voids_expand hw).1) (mem_of_mem_sanitize hv)

end

variable (fate) in
lemma hotTail_shutdown (h : s.Sound) (hsync : s.Synced) : (s.shutdown fate).kv.hotTail.writes = (s.shutdown fate).kv.writeBuffer.entries ∧
    ((s.shutdown fate).kv.hotTail.writes = [] ∨ ∀ v ∈ (s.shutdown fate).kv.hotTail.voids, v ∈ s.voids.entries) := by
  unfold Space.shutdown
  dsimp only
  by_cases hempty : s.kv.writeBuffer.entries = []
  · rw [flush, if_pos hempty, flushHotBuffer]
    split_ifs
    · rw [h.tidy.writes hempty, hempty]
      exact ⟨rfl, Or.inl rfl⟩
    · exact ⟨rfl, Or.inl hempty⟩
  · rw [flush, if_neg hempty, flushHotBuffer]
    split_ifs
    · exact ⟨rfl, Or.inr fun v hv => hsync v (mem_of_mem_sanitize hv)⟩
    · exact ⟨rfl, Or.inr fun v hv => hsync v (mem_of_mem_sanitize (mem_of_mem_sanitize hv))⟩

lemma Sound.shutdown (h : s.Sound) : (s.shutdown fate).Sound :=
  h.shrink (shrinks_flush.trans (.of_eq writeBuffer_flushHotBuffer pages_flushHotBuffer)) h.tidy.flush.flushHotBuffer fun hb => hb.of_flush.flushHotBuffer

variable {t : Space H}

lemma get_openClean (hwrites : t.kv.hotTail.writes = t.kv.writeBuffer.entries) (hx : t.openClean.kv.get k = some x) :
    t.kv.get k = some x ∧ (t.kv.hotTail.writes ≠ [] ∨ entryOverlapsVoidRanges (buildMergedVoidRanges
      (t.kv.hotTail.voids.filter fun v => validReusableRange v.offset v.size t.walStart t.walEnd)) x = false) := by
  have hopened : (t.kv.opened (t.kv.hotTail.voids.filter fun v => validReusableRange v.offset v.size t.walStart t.walEnd)).get k = some x := hx
  rw [get_eq_some, get_all]
  have hlive := (get_eq_some.mp hopened).2
  have hbuffer : Table.latest hash t.kv.hotTail.writes k = t.kv.writeBuffer.get k := by
    rw [hwrites]
    exact Table.latest_eq_get _ (fun _ => Iff.rfl) k
  rcases get_opened hopened with hl | ⟨hl, hpage, hover⟩
  · refine ⟨⟨?_, hlive⟩, Or.inl (ne_nil_of_mem (Table.latest_some hl).1)⟩
    rw [← hbuffer, hl]
    rfl
  · refine ⟨⟨?_, hlive⟩, Or.inr hover⟩
    rw [← hbuffer, hl, hpage]
    rfl

lemma Sound.openClean (h : t.Sound) (hwrites : t.kv.hotTail.writes = t.kv.writeBuffer.entries)
    (hvoids : t.kv.hotTail.writes = [] ∨ ∀ v ∈ t.kv.hotTail.voids, v ∈ t.voids.entries) : t.openClean.Sound := by
  unfold Space.openClean
  dsimp only
  generalize hvs : t.kv.hotTail.voids.filter (fun v => validReusableRange v.offset v.size t.walStart t.walEnd) = voids
  have hmem : ∀ v ∈ voids, v ∈ t.kv.hotTail.voids ∧ 0 < v.size ∧ v.span.Within t.walStart t.walEnd := by
    intro v hv
    rw [← hvs] at hv
    obtain ⟨hv, hvalid⟩ := mem_filter.mp hv
    simp only [validReusableRange, Bool.and_eq_true, decide_eq_true_eq, ne_eq] at hvalid
    simp only [Span.Within, Span.stop, VoidRecord.span]
    exact ⟨hv, by omega, by omega⟩
  have hget : ∀ k x, (t.kv.opened voids).get k = some x → t.kv.get k = some x ∧
      (t.kv.hotTail.writes ≠ [] ∨ entryOverlapsVoidRanges (buildMergedVoidRanges voids) x = false) := by
    intro k x hx
    rw [← hvs] at hx ⊢
    exact get_openClean hwrites hx
  have hapart : ApartAll voids := h.tidy.hot.subset fun v hv => (hmem v hv).1
  apply Sound.syncVoidsToKvWriter
  refine ⟨h.ordered, h.logIn, h.logApart, fun k x hx => h.indexed k x (hget k x hx).1, fun v hv => (hmem v (mem_replaceAll hv).1).2,
    hapart.subset fun v hv => (mem_replaceAll hv).1, fun v hv k x hx => ?_, ⟨hapart, h.tidy.hot, fun hnil => ?_⟩, fun hlog => ?_⟩
  · obtain ⟨hold, hcase⟩ := hget k x hx
    obtain ⟨hv, hpos, _⟩ := hmem v (mem_replaceAll hv).1
    rcases hcase with hne | hover
    · exact h.free v (hvoids.resolve_left hne v hv) k x hold
    · by_contra hmeet
      rw [overlaps_merged_iff.mpr ⟨(h.entryIn hold).1, _, (mem_replaceAll ‹_›).1, hpos, hmeet⟩] at hover
      cases hover
  · -- the buffer of a reopened index has at least the entries of the hot tail
    by_contra hne
    obtain ⟨x, rest, hcons⟩ := exists_cons_of_ne_nil hne
    have hfirst : t.kv.hotTail.writes = x :: rest := hcons
    have hkey : x.hash ∈ (t.kv.opened voids).writeBuffer.keys := by
      rw [opened, Table.keys_insertAll, Table.keys_insertAll, hfirst]
      simp
    obtain ⟨y, hy, _⟩ := Table.mem_keys.mp hkey
    exact ne_nil_of_mem hy hnil
  · obtain ⟨hpages, _, hwrites⟩ := h.bare hlog
    refine ⟨hpages, ?_, hwrites⟩
    simp only [opened, hpages, hwrites]
    rfl

lemma Sound.reopen (h : s.Sound) (hsync : s.Synced) : (s.shutdown fate).openClean.Sound := by
  obtain ⟨hwrites, hvoids⟩ := hotTail_shutdown fate h hsync
  exact h.shutdown.openClean hwrites hvoids

/-- What happens to a database: stores and batches, deletions, sweeps, rebuilds at run time, recovery from the
gaps of the index, growth of the index block, and clean restarts. -/
inductive Step (hs : Hasher H) : Space H → Space H → Prop
  | store (fate : H → Fate) (e : NewEntry H) (s : Space H) : Step hs s (s.storeEntry hs fate e)
  | batch (fate : H → Fate) (batch : List (NewEntry H)) (s : Space H) : Step hs s (s.flushBatch hs fate batch)
  | delete (k : H) (s : Space H) : Step hs s (s.markEntryDeleted k)
  | sweep (live : H → Bool) (s : Space H) : Step hs s (s.gcSweep live)
  | rebuild (fate : H → Fate) {s : Space H} : (∀ v ∈ s.voids.entries, ∀ r ∈ s.log, v.span.Apart r.span) → Step hs s (s.rebuildKv hs fate)
  | gapScan (s : Space H) : Step hs s s.recoverVoidsViaGapScan.syncVoidsToKvWriter
  | replay (fate : H → Fate) (s : Space H) : Step hs s (s.recoverAfterEmergencySpillReplay hs fate)
  | expand (fate : H → Fate) (emptyKey : H) (timestamp : ℤ) {newKvEnd copyEnd : ℕ} {s : Space H} : s.Movable newKvEnd copyEnd →
      Step hs s (s.expandKvBlockOnline hs fate emptyKey timestamp newKvEnd copyEnd)
  | reopen (fate : H → Fate) (s : Space H) : Step hs s (s.shutdown fate).openClean

lemma sound_fresh (walStart : ℕ) : (fresh walStart : Space H).Sound where
  ordered := le_rfl
  logIn r hr := absurd hr not_mem_nil
  logApart := .nil
  indexed k x hx := by cases hx
  voidsIn v hv := absurd hv not_mem_nil
  voidsApart v hv := absurd hv not_mem_nil
  free v hv := absurd hv not_mem_nil
  tidy := ⟨fun v hv => absurd hv not_mem_nil, fun v hv => absurd hv not_mem_nil, fun _ => rfl⟩
  bare _ := ⟨rfl, rfl, rfl⟩

lemma Sound.step {t : Space H} (h : s.Sound) (hsync : s.Synced) (hstep : Step hs s t) : t.Sound ∧ t.Synced := by
  cases hstep with
  | store fate e => exact h.storeEntry hsync e
  | batch fate batch => exact h.flushBatch hsync batch
  | delete k => exact h.markEntryDeleted hsync k
  | sweep live => exact h.gcSweep hsync live
  | rebuild fate hfree => exact ⟨h.rebuildKv hs fate hfree, fun _ hv => absurd (mem_pending_flush hv) not_mem_nil⟩
  | gapScan => exact ⟨h.recoverVoidsViaGapScan.syncVoidsToKvWriter, synced_syncVoidsToKvWriter _⟩
  | replay fate => exact h.recoverAfterEmergencySpillReplay
  | expand fate emptyKey timestamp hm => exact ⟨h.expandKvBlockOnline hm, h.synced_expand⟩
  | reopen fate => exact ⟨h.reopen hsync, synced_syncVoidsToKvWriter _⟩

lemma Sound.run {t : Space H} (h : s.Sound) (hsync : s.Synced) (hrun : Relation.ReflTransGen (Step hs) s t) : t.Sound ∧ t.Synced := by
  induction hrun with
  | refl => exact ⟨h, hsync⟩
  | tail _ hstep ih => exact ih.1.step ih.2 hstep

theorem voids_disjoint_live {walStart : ℕ} (hrun : Relation.ReflTransGen (Step hs) (fresh walStart) s) :
    ∀ v ∈ s.voids.entries, ∀ k x, s.kv.get k = some x → Disjoint v.span.places (KVEntry.span x).places := by
  have hsound := ((sound_fresh walStart).run (fun v hv => absurd hv not_mem_nil) hrun).1
  exact fun v hv k x hx => (hsound.free v hv k x hx).disjoint

def chunkKey (b : UInt8) : Digest := Digest.hasher.chunkHash [b]

def chunkEntry (b : UInt8) : NewEntry Digest := ⟨.chunk, 0, chunkKey b, 10, b.toNat, none⟩

def everywhere (_ : Digest) : Fate := .paged

def stored : Space Digest := (fresh 1000).storeEntry Digest.hasher everywhere (chunkEntry 1)

def swept : Space Digest := stored.gcSweep fun _ => false

def halfSwept : Space Digest := (stored.storeEntry Digest.hasher everywhere (chunkEntry 2)).gcSweep fun k => k = chunkKey 2

theorem voids_disjoint_live_halfSwept :
    halfSwept.voids.entries.map VoidRecord.span = [⟨1000, 105⟩] ∧
    (halfSwept.kv.get (chunkKey 2)).map KVEntry.span = some ⟨1105, 105⟩ ∧
    ∀ v ∈ halfSwept.voids.entries, ∀ k x, halfSwept.kv.get k = some x → Disjoint v.span.places (KVEntry.span x).places := by
  have hrun : Relation.ReflTransGen (Step Digest.hasher) (fresh 1000) halfSwept := by
    apply Relation.ReflTransGen.tail _ (.sweep (fun k => k = chunkKey 2) _)
    apply Relation.ReflTransGen.tail _ (.store everywhere (chunkEntry 2) stored)
    exact .single (.store everywhere (chunkEntry 1) (fresh 1000))
  exact ⟨by decide +kernel, by decide +kernel, voids_disjoint_live hrun⟩

def resurrected : Space Digest := swept.rebuildKv Digest.hasher everywhere

def overwritten : Space Digest := resurrected.storeEntry Digest.hasher everywhere (chunkEntry 2)

/-- A rebuild finds the swept chunk in the log and makes it live again in a void. The next chunk of its size
is then written over it. -/
theorem rebuildKv_revives_void :
    swept.voids.entries.map VoidRecord.span = [⟨1000, 105⟩] ∧
    (resurrected.kv.get (chunkKey 1)).map KVEntry.span = some ⟨1000, 105⟩ ∧
    resurrected.voids.entries = swept.voids.entries ∧
    (overwritten.kv.get (chunkKey 1)).map KVEntry.span = some ⟨1000, 105⟩ ∧
    (overwritten.kv.get (chunkKey 2)).map KVEntry.span = some ⟨1000, 105⟩ ∧
    ¬ Disjoint (⟨1000, 105⟩ : Span).places (⟨1000, 105⟩ : Span).places := by
  refine ⟨by decide +kernel, by decide +kernel, by decide +kernel, by decide +kernel, by decide +kernel, ?_⟩
  exact Span.not_disjoint_of_eq rfl (by decide)

end AeorDb.Wal.Space
