import AeorDb.Library.Result
import AeorDb.Wal.HotIndexSpec

/-! Voids stay apart from live entries. -/

namespace AeorDb.Wal

open Library Store Index KVEntry HotIndex
open List hiding span

section

variable {vm rest : VoidManager} {v w : VoidRecord} {voids : List VoidRecord}

lemma mem_registerVoid (h : w ∈ (vm.registerVoid v).entries) : w = v ∧ 0 < v.size ∨ w ∈ vm.entries := by
  unfold VoidManager.registerVoid at h
  split_ifs at h with hsize
  · exact Or.inr h
  · rcases Table.mem_insert.mp h with rfl | h
    · exact Or.inl ⟨rfl, Nat.not_lt.mp hsize⟩
    · exact Or.inr h.1

lemma mem_foldl_registerVoid (h : w ∈ (voids.foldl VoidManager.registerVoid vm).entries) : w ∈ voids ∧ 0 < w.size ∨ w ∈ vm.entries := by
  induction voids generalizing vm with
  | nil => exact Or.inr h
  | cons v voids ih =>
    rcases ih h with ⟨hmem, hpos⟩ | hmem
    · exact Or.inl ⟨mem_cons_of_mem _ hmem, hpos⟩
    · rcases mem_registerVoid hmem with ⟨rfl, hpos⟩ | hmem
      · exact Or.inl ⟨mem_cons_self .., hpos⟩
      · exact Or.inr hmem

lemma mem_replaceAll (h : w ∈ (VoidManager.replaceAll voids).entries) : w ∈ voids ∧ 0 < w.size :=
  (mem_foldl_registerVoid h).resolve_right not_mem_nil

lemma findVoid_spec {minimumUseful needed : ℕ} (h : vm.findVoid minimumUseful needed = some (v, rest)) : v ∈ vm.entries ∧ needed ≤ v.size ∧
    ∀ w ∈ rest.entries, w ∈ vm.entries ∧ w ≠ v ∨ w = ⟨v.offset + needed, v.size - needed⟩ ∧ 0 < w.size := by
  obtain ⟨u, hu, heq⟩ := Option.map_eq_some_iff.mp h
  obtain ⟨rfl, hrest⟩ := Prod.mk.inj heq
  have hmem := mem_mergeSort.mp (mem_of_mem_head? hu)
  obtain ⟨hmem, hneeded⟩ := mem_filter.mp hmem
  have herase : ∀ w ∈ (vm.erase u.offset).entries, w ∈ vm.entries ∧ w ≠ u := by
    intro w hw
    obtain ⟨hw, hne⟩ := mem_filter.mp hw
    refine ⟨hw, ?_⟩
    rintro rfl
    simp at hne
  refine ⟨hmem, by simpa using hneeded, fun w hw => ?_⟩
  rw [← hrest] at hw
  split_ifs at hw
  · rcases mem_registerVoid hw with ⟨rfl, hpos⟩ | hw
    · exact Or.inr ⟨rfl, hpos⟩
    · exact Or.inl (herase w hw)
  · exact Or.inl (herase w hw)

lemma takeVoid_spec {minimumUseful needed walStart walEnd n : ℕ} {slot : Option VoidRecord}
    (hin : ∀ v ∈ vm.entries, 0 < v.size ∧ v.span.Within walStart walEnd)
    (h : vm.takeVoid minimumUseful needed walStart walEnd n = (slot, rest)) :
    slot = none ∧ rest = vm ∨ ∃ v, slot = some v ∧ vm.findVoid minimumUseful needed = some (v, rest) := by
  cases n with
  | zero => exact Or.inl (by simpa [VoidManager.takeVoid, eq_comm] using h)
  | succ n =>
    cases hfind : vm.findVoid minimumUseful needed with
    | none =>
      rw [VoidManager.takeVoid, hfind] at h
      exact Or.inl (by simpa [eq_comm] using h)
    | some found =>
      obtain ⟨v, rest'⟩ := found
      obtain ⟨hpos, hlo, hhi⟩ := hin v (findVoid_spec hfind).1
      have hvalid : validReusableRange v.offset v.size walStart walEnd = true := by
        simp only [Span.stop, VoidRecord.span] at hlo hhi
        simp only [validReusableRange, Bool.and_eq_true, decide_eq_true_eq]
        omega
      rw [VoidManager.takeVoid, hfind] at h
      simp only [hvalid, if_true, Prod.mk.injEq] at h
      exact Or.inr ⟨v, h.1.symm, by rw [h.2]⟩

end

namespace Space

variable {H : Type} [DecidableEq H]

structure Sound (s : Space H) : Prop where
  ordered : s.walStart ≤ s.walEnd
  logIn : ∀ r ∈ s.log, 0 < r.totalLength ∧ r.span.Within s.walStart s.walEnd
  logApart : s.log.Pairwise fun a b => a.span.Apart b.span
  indexed : ∀ k x, s.kv.get k = some x → ∃ r ∈ s.log, r.key = k ∧ r.span = span x
  voidsIn : ∀ v ∈ s.voids.entries, 0 < v.size ∧ v.span.Within s.walStart s.walEnd
  voidsApart : ApartAll s.voids.entries
  free : ∀ v ∈ s.voids.entries, ∀ k x, s.kv.get k = some x → v.span.Apart (span x)
  tidy : s.kv.Tidy
  bare : s.log = [] → s.kv.Bare

def Synced (s : Space H) : Prop := ∀ v ∈ s.kv.pendingVoids, v ∈ s.voids.entries

variable {hs : Hasher H} {fate : H → Fate} {s : Space H} {e : NewEntry H} {x : KVEntry H} {k : H}

section

variable (h : s.Sound)
include h

lemma Sound.entryIn (hx : s.kv.get k = some x) : 0 < x.totalLength ∧ (span x).Within s.walStart s.walEnd := by
  obtain ⟨r, hr, _, hspan⟩ := h.indexed k x hx
  obtain ⟨hpos, hin⟩ := h.logIn r hr
  rw [hspan] at hin
  exact ⟨hpos.trans_eq (congrArg Span.size hspan), hin⟩

lemma Sound.recordsApart {r t : LogRecord H} (hr : r ∈ s.log) (ht : t ∈ s.log) (hne : r ≠ t) : r.span.Apart t.span :=
  have : Std.Symm fun a b : LogRecord H => a.span.Apart b.span := ⟨fun _ _ => Span.Apart.symm⟩
  h.logApart.forall hr ht hne

lemma Sound.entriesApart {k' : H} {x' : KVEntry H} (hne : k ≠ k') (hx : s.kv.get k = some x) (hx' : s.kv.get k' = some x') :
    (span x).Apart (span x') := by
  obtain ⟨r, hr, rfl, hspan⟩ := h.indexed _ x hx
  obtain ⟨r', hr', rfl, hspan'⟩ := h.indexed _ x' hx'
  rw [← hspan, ← hspan']
  exact h.recordsApart hr hr' fun heq => hne (congrArg LogRecord.key heq)

lemma Sound.shrink {kv : HotIndex H} (hget : s.kv.Shrinks kv) (htidy : kv.Tidy) (hbare : s.kv.Bare → kv.Bare) : ({ s with kv := kv } : Space H).Sound :=
  ⟨h.ordered, h.logIn, h.logApart, fun k x hx => h.indexed k x (hget k x hx), h.voidsIn, h.voidsApart,
    fun v hv k x hx => h.free v hv k x (hget k x hx), htidy, fun hlog => hbare (h.bare hlog)⟩

lemma Sound.insertKv (hr : ∃ r ∈ s.log, r.key = x.hash ∧ r.span = span x) (hfree : ∀ v ∈ s.voids.entries, v.span.Apart (span x)) : (s.insertKv fate x).Sound where
  ordered := h.ordered
  logIn := h.logIn
  logApart := h.logApart
  indexed k y hy := by
    rcases get_insert hy with ⟨rfl, rfl⟩ | ⟨_, hold⟩
    · exact hr
    · exact h.indexed k y hold
  voidsIn := h.voidsIn
  voidsApart := h.voidsApart
  free v hv k y hy := by
    rcases get_insert hy with ⟨rfl, rfl⟩ | ⟨_, hold⟩
    · exact hfree v hv
    · exact h.free v hv k y hold
  tidy := h.tidy.insert
  bare hlog := by
    obtain ⟨r, hmem, _⟩ := hr
    exact absurd hlog (ne_nil_of_mem hmem)

lemma Sound.syncVoidsToKvWriter : s.syncVoidsToKvWriter.Sound :=
  h.shrink (.of_eq rfl rfl) (h.tidy.setPendingVoids h.voidsApart) fun hb => ⟨hb.1, hb.2, hb.3⟩

end

omit [DecidableEq H] in
lemma synced_syncVoidsToKvWriter (s : Space H) : s.syncVoidsToKvWriter.Synced := fun _ => mem_of_mem_sanitize

lemma Sound.forceHotTailFlush (h : s.Sound) : s.forceHotTailFlush.Sound :=
  h.shrink (.of_eq rfl rfl) h.tidy.forceFlushHotBuffer fun hb => ⟨hb.1, hb.2, hb.2⟩

omit [DecidableEq H] in
lemma Synced.forceHotTailFlush (h : s.Synced) : s.forceHotTailFlush.Synced := fun v hv => h v (mem_of_mem_sanitize hv)

lemma Sound.write (h : s.Sound) {r : LogRecord H} {walEnd : ℕ} {rest : VoidManager} (hpos : 0 < r.totalLength)
    (hin : r.span.Within s.walStart walEnd) (hend : s.walEnd ≤ walEnd) (hlive : ∀ k x, s.kv.get k = some x → (span x).Apart r.span)
    (hrest : ∀ v ∈ rest.entries, 0 < v.size ∧ ∃ w ∈ s.voids.entries, w.offset ≤ v.offset ∧ v.span.stop ≤ w.span.stop)
    (hapart : ApartAll rest.entries) : ({ s with walEnd := walEnd, log := overwrite s.log r, voids := rest } : Space H).Sound where
  ordered := h.ordered.trans hend
  logIn t ht := by
    rcases mem_append.mp ht with ht | ht
    · obtain ⟨hpos, hlo, hhi⟩ := h.logIn t (mem_of_mem_filter ht)
      exact ⟨hpos, hlo, hhi.trans hend⟩
    · obtain rfl := mem_singleton.mp ht
      exact ⟨hpos, hin⟩
  logApart := by
    refine pairwise_append.mpr ⟨h.logApart.filter _, pairwise_singleton .., fun a ha b hb => ?_⟩
    obtain rfl := mem_singleton.mp hb
    simpa using (mem_filter.mp ha).2
  indexed k x hx := by
    obtain ⟨t, ht, hkey, hspan⟩ := h.indexed k x hx
    refine ⟨t, mem_append_left _ (mem_filter.mpr ⟨ht, ?_⟩), hkey, hspan⟩
    simpa [hspan] using hlive k x hx
  voidsIn v hv := by
    obtain ⟨hpos, w, hw, hlo, hhi⟩ := hrest v hv
    obtain ⟨_, hwlo, hwhi⟩ := h.voidsIn w hw
    exact ⟨hpos, hwlo.trans hlo, (hhi.trans hwhi).trans hend⟩
  voidsApart := hapart
  free v hv k x hx := by
    obtain ⟨_, w, hw, hlo, hhi⟩ := hrest v hv
    exact (h.free w hw k x hx).of_le hlo hhi
  tidy := h.tidy
  bare hlog := absurd hlog (ne_nil_of_mem (mem_append_right _ (mem_singleton_self r)))

omit [DecidableEq H] in
lemma recordAt_pos (e : NewEntry H) (offset : ℕ) : 0 < (recordAt hs e offset).totalLength := by
  simp only [recordAt, entryLength, fixedHeaderSize]
  omega

lemma Sound.appendEntry (h : s.Sound) (e : NewEntry H) : (s.appendEntry hs e).Sound := by
  refine h.write (recordAt_pos e _) ⟨h.ordered, le_rfl⟩ (Nat.le_add_right _ _) (fun k x hx => Or.inl (h.entryIn hx).2.2) (fun v hv => ?_)
    h.voidsApart
  exact ⟨(h.voidsIn v hv).1, v, hv, le_rfl, le_rfl⟩

lemma Sound.voidsBefore (h : s.Sound) {v : VoidRecord} (hv : v ∈ s.voids.entries) {y : KVEntry H} (hy : s.walEnd ≤ y.offset) :
    v.span.Apart (span y) := Or.inl ((h.voidsIn v hv).2.2.trans hy)

omit [DecidableEq H] in
lemma mem_overwrite (log : List (LogRecord H)) (r : LogRecord H) : r ∈ overwrite log r := mem_append_right _ (mem_singleton_self r)

lemma Sound.appendStored (h : s.Sound) (e : NewEntry H) (flags : UInt8) :
    ((s.appendEntry hs e).insertKv fate ⟨flags, e.key, s.walEnd, entryLength hs hs.hashLength e.valueLength⟩).Sound :=
  (h.appendEntry e).insertKv ⟨recordAt hs e s.walEnd, mem_overwrite _ _, rfl, rfl⟩ fun _ hv => h.voidsBefore hv le_rfl

lemma Sound.reuseStored (h : s.Sound) {v : VoidRecord} {rest : VoidManager} {flags : UInt8} {minimumUseful : ℕ}
    (hfind : s.voids.findVoid minimumUseful (entryLength hs hs.hashLength e.valueLength) = some (v, rest)) :
    ((s.reuseVoid hs e v rest).insertKv fate ⟨flags, e.key, v.offset, entryLength hs hs.hashLength e.valueLength⟩).Sound := by
  obtain ⟨hv, hneeded, hrest⟩ := findVoid_spec hfind
  obtain ⟨_, hlo, hhi⟩ := h.voidsIn v hv
  have hstart : v.span.start ≤ (recordAt hs e v.offset).span.start := le_rfl
  have hstop : (recordAt hs e v.offset).span.stop ≤ v.span.stop := Nat.add_le_add_left hneeded _
  -- what is left are other voids and the end of this one
  have hpart : ∀ w ∈ rest.entries, 0 < w.size ∧ ∃ u ∈ s.voids.entries, u.offset ≤ w.offset ∧ w.span.stop ≤ u.span.stop := by
    intro w hw
    rcases hrest w hw with ⟨hw, _⟩ | ⟨rfl, hpos⟩
    · exact ⟨(h.voidsIn w hw).1, w, hw, le_rfl, le_rfl⟩
    · refine ⟨hpos, v, hv, Nat.le_add_right _ _, ?_⟩
      simp only [Span.stop, VoidRecord.span]
      omega
  have hbehind : ∀ w ∈ rest.entries, w.span.Apart (recordAt hs e v.offset).span := by
    intro w hw
    rcases hrest w hw with ⟨hw, hne⟩ | ⟨rfl, _⟩
    · exact ((h.voidsApart v hv w hw hne.symm).of_le hstart hstop).symm
    · exact Or.inr le_rfl
  have hapart : ApartAll rest.entries := by
    intro u hu w hw hne
    rcases hrest u hu with ⟨hu, hu'⟩ | ⟨rfl, _⟩ <;> rcases hrest w hw with ⟨hw, hw'⟩ | ⟨rfl, _⟩
    · exact h.voidsApart u hu w hw hne
    · refine ((h.voidsApart v hv u hu hu'.symm).of_le (Nat.le_add_right _ _) ?_).symm
      simp only [Span.stop, VoidRecord.span]
      omega
    · refine (h.voidsApart v hv w hw hw'.symm).of_le (Nat.le_add_right _ _) ?_
      simp only [Span.stop, VoidRecord.span]
      omega
    · exact absurd rfl hne
  refine Sound.insertKv (h.write (recordAt_pos e _) ⟨hlo, hstop.trans hhi⟩ le_rfl (fun k x hx => ?_) hpart hapart)
    ⟨_, mem_overwrite _ _, rfl, rfl⟩ hbehind
  exact ((h.free v hv k x hx).of_le hstart hstop).symm

lemma Sound.storeEntry (h : s.Sound) (hsync : s.Synced) (e : NewEntry H) : (s.storeEntry hs fate e).Sound ∧ (s.storeEntry hs fate e).Synced := by
  unfold Space.storeEntry
  dsimp only
  split_ifs with hlong hchunk
  · exact ⟨h, hsync⟩
  · generalize htaken : s.voids.takeVoid _ _ _ _ _ = taken
    obtain ⟨slot, rest⟩ := taken
    rcases takeVoid_spec h.voidsIn htaken with ⟨rfl, rfl⟩ | ⟨v, rfl, hfind⟩
    · simp only [if_true]
      exact ⟨h.appendStored e _, fun v hv => hsync v (mem_pending_insert hv)⟩
    · exact ⟨(h.reuseStored hfind).syncVoidsToKvWriter, synced_syncVoidsToKvWriter _⟩
  · simp only [if_true]
    exact ⟨h.appendStored e _, fun v hv => hsync v (mem_pending_insert hv)⟩

omit [DecidableEq H] in
lemma appendBatch_concat (batch : List (NewEntry H)) (e : NewEntry H) (s : Space H) :
    appendBatch hs (batch ++ [e]) s = ((appendBatch hs batch s).1.appendEntry hs e, (appendBatch hs batch s).2 ++
      [⟨e.kvType, e.key, (appendBatch hs batch s).1.walEnd, entryLength hs hs.hashLength e.valueLength⟩]) := by
  simp [appendBatch]

structure Batched (s s' : Space H) (xs : List (KVEntry H)) : Prop where
  sound : s'.Sound
  kv : s'.kv = s.kv
  voids : s'.voids = s.voids
  walEnd : s.walEnd ≤ s'.walEnd
  written : ∀ x ∈ xs, s.walEnd ≤ x.offset ∧ ∃ r ∈ s'.log, r.key = x.hash ∧ r.span = span x

variable (hs) in
lemma Sound.appendBatch (h : s.Sound) (batch : List (NewEntry H)) : Batched s (appendBatch hs batch s).1 (appendBatch hs batch s).2 := by
  induction batch using List.reverseRecOn with
  | nil => exact ⟨h, rfl, rfl, le_rfl, by simp [Space.appendBatch]⟩
  | append_singleton batch e ih =>
    rw [appendBatch_concat]
    refine ⟨ih.sound.appendEntry e, ih.kv, ih.voids, ih.walEnd.trans (Nat.le_add_right _ _), fun x hx => ?_⟩
    rcases mem_append.mp hx with hx | hx
    · obtain ⟨hoffset, r, hr, hkey, hspan⟩ := ih.written x hx
      refine ⟨hoffset, r, mem_append_left _ (mem_filter.mpr ⟨hr, ?_⟩), hkey, hspan⟩
      exact decide_eq_true (Or.inl (ih.sound.logIn r hr).2.2)
    · obtain rfl := mem_singleton.mp hx
      exact ⟨ih.walEnd, _, mem_overwrite _ _, rfl, rfl⟩

lemma Sound.flushBatch (h : s.Sound) (hsync : s.Synced) (batch : List (NewEntry H)) :
    (s.flushBatch hs fate batch).Sound ∧ (s.flushBatch hs fate batch).Synced := by
  have hb := h.appendBatch hs batch
  unfold Space.flushBatch
  generalize hxs : (Space.appendBatch hs batch s).2 = xs at hb
  generalize (Space.appendBatch hs batch s).1 = t at hb
  clear hxs
  have ht : t.Synced := by
    rw [Synced, hb.kv, hb.voids]
    exact hsync
  have hfree : ∀ x ∈ xs, ∀ v ∈ t.voids.entries, v.span.Apart (span x) := by
    intro x hx v hv
    rw [hb.voids] at hv
    exact h.voidsBefore hv (hb.written x hx).1
  have hlog : ∀ x ∈ xs, ∃ r ∈ t.log, r.key = x.hash ∧ r.span = span x := fun x hx => (hb.written x hx).2
  have hsound := hb.sound
  clear hb
  induction xs generalizing t with
  | nil => exact ⟨hsound, ht⟩
  | cons x xs ih =>
    obtain ⟨hx, hxs⟩ := forall_mem_cons.mp hlog
    obtain ⟨hfx, hfxs⟩ := forall_mem_cons.mp hfree
    exact ih (t.insertKv fate x) (fun v hv => ht v (mem_pending_insert hv)) hfxs hxs (hsound.insertKv hx hfx)

lemma Sound.markEntryDeleted (h : s.Sound) (hsync : s.Synced) (k : H) : (s.markEntryDeleted k).Sound ∧ (s.markEntryDeleted k).Synced := by
  unfold Space.markEntryDeleted
  split
  next x hx =>
    refine ⟨h.shrink (fun _ _ hy => (get_of_insert_deleted (isDeleted_of_flag _ _) hy).2) (h.tidy.buffered _ _) fun hb => ?_,
      hsync⟩
    rw [hb.get_eq_none] at hx
    cases hx
  · exact ⟨h, hsync⟩

lemma Sound.find_record (h : s.Sound) {r : LogRecord H} (hr : r ∈ s.log) {offset : ℕ} (hoffset : r.offset = offset) :
    (s.log.find? fun r => r.offset = offset) = some r := by
  cases hfind : s.log.find? fun r => decide (r.offset = offset) with
  | none => simpa [hoffset] using find?_eq_none.mp hfind r hr
  | some r' =>
    have hoffset' : r'.offset = offset := by simpa using find?_some hfind
    -- two records at one offset would overlap
    by_contra hne
    have hapart := h.recordsApart (mem_of_find?_eq_some hfind) hr fun heq => hne (heq ▸ rfl)
    have hpos := (h.logIn r' (mem_of_find?_eq_some hfind)).1
    have hpos' := (h.logIn r hr).1
    simp only [Span.Apart, Span.stop, LogRecord.span] at hapart
    omega

lemma Sound.candidate (h : s.Sound) {live : H → Bool} {candidates : List (H × VoidRecord)} (hc : s.garbageCandidates live = .ok candidates)
    {c : H × VoidRecord} (hmem : c ∈ candidates) : ∃ x, s.kv.get c.1 = some x ∧ c.2.span = span x := by
  obtain ⟨x, hx, hok⟩ := Result.mapM_ok_mem_right hc c hmem
  obtain ⟨r, hr, rfl⟩ := Result.map_eq_ok.mp hok
  have hget := mem_iterAll.mp (mem_filter.mp hx).1
  refine ⟨x, hget, ?_⟩
  obtain ⟨t, ht, hkey, hspan⟩ := h.indexed _ x hget
  have hoffset : t.offset = x.offset := congrArg Span.start hspan
  unfold readEntryHeaderAt at hr
  split_ifs at hr with hout
  rw [h.find_record ht hoffset] at hr
  obtain rfl := Except.ok.inj hr
  rw [← hspan]
  exact congrArg (fun o => (⟨o, t.totalLength⟩ : Span)) hoffset.symm

lemma Sound.gcSweep (h : s.Sound) (hsync : s.Synced) (live : H → Bool) : (s.gcSweep live).Sound ∧ (s.gcSweep live).Synced := by
  unfold Space.gcSweep
  split
  · exact ⟨h, hsync⟩
  · exact ⟨h, hsync⟩
  next candidates _ hc =>
    refine ⟨Sound.forceHotTailFlush (Sound.syncVoidsToKvWriter ?_), (synced_syncVoidsToKvWriter _).forceHotTailFlush⟩
    generalize hfreed : candidates.filter (fun c => validReusableRange c.2.offset c.2.size s.walStart s.walEnd) = freed
    have hmem : ∀ c ∈ freed, ∃ x, s.kv.get c.1 = some x ∧ c.2.span = span x := by
      intro c hcf
      rw [← hfreed] at hcf
      exact h.candidate hc (mem_of_mem_filter hcf)
    -- a registered void is an old one or the place of an entry that is no longer live
    have hvoid : ∀ v ∈ ((freed.map Prod.snd).foldl VoidManager.registerVoid s.voids).entries,
        v ∈ s.voids.entries ∨ ∃ k ∈ freed.map Prod.fst, ∃ x, s.kv.get k = some x ∧ v.span = span x := by
      intro v hv
      rcases mem_foldl_registerVoid hv with ⟨hv, _⟩ | hv
      · obtain ⟨c, hcf, rfl⟩ := mem_map.mp hv
        exact Or.inr ⟨c.1, mem_map_of_mem hcf, hmem c hcf⟩
      · exact Or.inl hv
    refine ⟨h.ordered, h.logIn, h.logApart, fun k x hx => h.indexed k x (get_markDeletedBatch hx).2, fun v hv => ?_,
      fun v hv w hw hne => ?_, fun v hv k x hx => ?_, h.tidy.markDeletedBatch _,
      fun hlog => (h.bare hlog).markDeletedBatch _⟩
    · rcases hvoid v hv with hv | ⟨k, _, x, hx, hspan⟩
      · exact h.voidsIn v hv
      · obtain ⟨hpos, hin⟩ := h.entryIn hx
        rw [← hspan] at hin
        exact ⟨hpos.trans_eq (congrArg Span.size hspan).symm, hin⟩
    · rcases hvoid v hv with hv | ⟨k, _, x, hx, hspan⟩ <;> rcases hvoid w hw with hw | ⟨k', _, x', hx', hspan'⟩
      · exact h.voidsApart v hv w hw hne
      · exact hspan' ▸ h.free v hv k' x' hx'
      · exact (hspan ▸ h.free w hw k x hx).symm
      · rw [hspan, hspan']
        refine h.entriesApart ?_ hx hx'
        rintro rfl
        obtain rfl := Option.some.inj (hx.symm.trans hx')
        have hsame : v.span = w.span := hspan.trans hspan'.symm
        obtain ⟨o, n⟩ := v
        obtain ⟨o', n'⟩ := w
        simp only [VoidRecord.span, Span.mk.injEq] at hsame
        exact hne (by rw [hsame.1, hsame.2])
    · obtain ⟨hnot, hx⟩ := get_markDeletedBatch hx
      rcases hvoid v hv with hv | ⟨k', hk', x', hx', hspan⟩
      · exact h.free v hv k x hx
      · rw [hspan]
        refine h.entriesApart ?_ hx' hx
        rintro rfl
        exact hnot hk'

omit [DecidableEq H] in
lemma foldl_max_eq {ends : List ℕ} {n : ℕ} (h : ∀ m ∈ ends, m ≤ n) : ends.foldl max n = n := by
  induction ends with
  | nil => rfl
  | cons m ends ih =>
    obtain ⟨hm, hends⟩ := forall_mem_cons.mp h
    rw [foldl_cons, max_eq_left hm, ih hends]

lemma log_rebuildKv : (s.rebuildKv hs fate).log = s.log := by simp only [Space.rebuildKv]

lemma voids_rebuildKv : (s.rebuildKv hs fate).voids = s.voids := by simp only [Space.rebuildKv]

lemma walStart_rebuildKv : (s.rebuildKv hs fate).walStart = s.walStart := by simp only [Space.rebuildKv]

lemma Sound.walEnd_rebuildKv (h : s.Sound) : (s.rebuildKv hs fate).walEnd = s.walEnd := by
  refine foldl_max_eq fun m hm => ?_
  obtain ⟨r, hr, rfl⟩ := mem_map.mp hm
  exact (h.logIn r hr).2.2

lemma all_rebuildKv (hx : (s.rebuildKv hs fate).kv.all.get k = some x) : ∃ r ∈ s.log, r.key = k ∧ r.span = span x := by
  have hcreated := all_flush hx
  rw [get_all, get_empty_insertAll, Table.get_empty, Option.or_none] at hcreated
  obtain ⟨hmem, rfl⟩ := Table.latest_some hcreated
  obtain ⟨y, hy, rfl⟩ := mem_map.mp hmem
  obtain ⟨r, hr, hhash, hoffset, hlength⟩ := placed_resolveRebuildRecords _ _ _ y hy
  obtain ⟨t, ht, rfl⟩ := mem_map.mp hr
  exact ⟨t, ht, hhash, by rw [LogRecord.span, span]; exact congrArg₂ Span.mk hoffset hlength⟩

lemma indexed_rebuildKv (hx : (s.rebuildKv hs fate).kv.get k = some x) : ∃ r ∈ s.log, r.key = k ∧ r.span = span x :=
  all_rebuildKv (get_eq_some.mp hx).1

lemma rebuilt_ne_nil (hlog : s.log ≠ []) : (s.rebuilt hs).entries ≠ [] := by
  have hinsert : ∀ (t : RebuildKvRecords H) r, (t.insert r).entries ≠ [] := fun t r => ne_nil_of_mem (Table.mem_insert.mpr (Or.inl rfl))
  have hresolve : ∀ (t : RebuildKvRecords H) r, (resolveRebuildRecord t r).entries ≠ [] := by
    intro t r
    unfold resolveRebuildRecord
    cases hget : t.get r.hash with
    | none => exact hinsert t r
    | some existing =>
      dsimp only
      split_ifs
      · exact hinsert t r
      · exact ne_nil_of_mem (Table.get_eq_some.mp hget).1
  have hmark : ∀ order (t : RebuildKvRecords H) key, t.entries ≠ [] → (markRebuildRecordDeletedIfOlder order t key).entries ≠ [] := by
    intro order t key ht
    unfold markRebuildRecordDeletedIfOlder
    split
    · split_ifs
      · exact hinsert t _
      · exact ht
    · exact ht
  have hscan : ∀ (rs : List (RebuildKvRecord H)) t, t.entries ≠ [] → (rs.foldl resolveRebuildRecord t).entries ≠ [] := by
    intro rs
    induction rs with
    | nil => exact fun _ ht => ht
    | cons r rs ih => exact fun t _ => ih _ (hresolve t r)
  have hkeys : ∀ (keys : List H) order (t : RebuildKvRecords H), t.entries ≠ [] →
      (keys.foldl (markRebuildRecordDeletedIfOlder order) t).entries ≠ [] := by
    intro keys order
    induction keys with
    | nil => exact fun _ ht => ht
    | cons key keys ih => exact fun t ht => ih _ (hmark order t key ht)
  have hreplay : ∀ (ds : List (Str × RebuildOrder)) (t : RebuildKvRecords H), t.entries ≠ [] →
      (ds.foldl (replayDeletionRecord hs) t).entries ≠ [] := by
    intro ds
    induction ds with
    | nil => exact fun _ ht => ht
    | cons d ds ih => exact fun t ht => ih _ (hkeys _ _ t ht)
  obtain ⟨r, rs, hcons⟩ := exists_cons_of_ne_nil hlog
  rw [rebuilt, resolveRebuildRecords, hcons, map_cons, foldl_cons]
  exact hreplay _ _ (hscan _ _ (hresolve _ _))

lemma insertAll_ne_nil {xs : List (KVEntry H)} (hxs : xs ≠ []) : ((Table.empty : Entries H).insertAll xs).entries ≠ [] := by
  obtain ⟨x, rest, rfl⟩ := exists_cons_of_ne_nil hxs
  have hkeys : x.hash ∈ ((Table.empty : Entries H).insertAll (x :: rest)).keys := by
    rw [Table.keys_insertAll]
    simp
  obtain ⟨y, hy, _⟩ := Table.mem_keys.mp hkeys
  exact ne_nil_of_mem hy

lemma Sound.tidy_rebuildKv (h : s.Sound) : (s.rebuildKv hs fate).kv.Tidy := by
  apply HotIndex.Tidy.flush
  refine ⟨fun v hv => absurd hv not_mem_nil, h.tidy.hot, fun hnil => ?_⟩
  by_cases hlog : s.log = []
  · exact (h.bare hlog).hotTail
  · exact absurd hnil (insertAll_ne_nil (by simpa using rebuilt_ne_nil hlog))

lemma Sound.bare_rebuildKv (h : s.Sound) (hlog : s.log = []) : (s.rebuildKv hs fate).kv.Bare := by
  have hnone : s.rebuilt hs = Table.empty := by
    rw [rebuilt, hlog]
    rfl
  unfold Space.rebuildKv
  rw [hnone]
  dsimp only
  apply HotIndex.Bare.of_flush
  exact ⟨rfl, rfl, (h.bare hlog).hotTail⟩

variable (hs fate) in
lemma Sound.rebuildKv (h : s.Sound) (hfree : ∀ v ∈ s.voids.entries, ∀ r ∈ s.log, v.span.Apart r.span) : (s.rebuildKv hs fate).Sound := by
  constructor
  · rw [h.walEnd_rebuildKv, walStart_rebuildKv]
    exact h.ordered
  · rw [h.walEnd_rebuildKv, walStart_rebuildKv, log_rebuildKv]
    exact h.logIn
  · rw [log_rebuildKv]
    exact h.logApart
  · rw [log_rebuildKv]
    exact fun k x hx => indexed_rebuildKv hx
  · rw [h.walEnd_rebuildKv, walStart_rebuildKv, voids_rebuildKv]
    exact h.voidsIn
  · rw [voids_rebuildKv]
    exact h.voidsApart
  · rw [voids_rebuildKv]
    intro v hv k x hx
    obtain ⟨r, hr, _, hspan⟩ := indexed_rebuildKv hx
    exact hspan ▸ hfree v hv r hr
  · exact h.tidy_rebuildKv
  · rw [log_rebuildKv]
    exact h.bare_rebuildKv

lemma Sound.dropVoids (h : s.Sound) : ({ s with voids := Table.empty } : Space H).Sound :=
  ⟨h.ordered, h.logIn, h.logApart, h.indexed, fun _ hv => absurd hv not_mem_nil, fun _ hv => absurd hv not_mem_nil,
    fun _ hv => absurd hv not_mem_nil, h.tidy, h.bare⟩

lemma Sound.recoverVoidsViaGapScan (h : s.Sound) : s.recoverVoidsViaGapScan.Sound := by
  unfold Space.recoverVoidsViaGapScan
  dsimp only
  generalize hranges : ((s.kv.iterAll.filter fun x => validReusableRange x.offset x.totalLength s.walStart s.walEnd).map
    span).mergeSort (fun a b => decide (a.start ≤ b.start)) = ranges
  have hsorted : ranges.Pairwise fun a b => a.start ≤ b.start := by
    rw [← hranges]
    refine (pairwise_mergeSort ?_ ?_ _).imp fun hab => of_decide_eq_true hab
    · intro a b c hab hbc
      exact decide_eq_true ((of_decide_eq_true hab).trans (of_decide_eq_true hbc))
    · intro a b
      simpa using le_total a.start b.start
  have hmem : ∀ k x, s.kv.get k = some x → span x ∈ ranges := by
    intro k x hx
    obtain ⟨hpos, hlo, hhi⟩ := h.entryIn hx
    have hvalid : validReusableRange x.offset x.totalLength s.walStart s.walEnd = true := by
      simp only [Span.stop, span] at hlo hhi
      simp only [validReusableRange, Bool.and_eq_true, decide_eq_true_eq, ne_eq]
      omega
    rw [← hranges, mem_mergeSort]
    have hiter : x ∈ s.kv.iterAll := mem_iterAll.mpr (by rwa [hash_of_get hx])
    exact mem_map_of_mem (mem_filter.mpr ⟨hiter, hvalid⟩)
  have hstarts : ∀ a ∈ ranges, a.start ≤ s.walEnd := by
    intro a ha
    rw [← hranges, mem_mergeSort] at ha
    obtain ⟨x, hx, rfl⟩ := mem_map.mp ha
    obtain ⟨_, hlo, hhi⟩ := h.entryIn (mem_iterAll.mp (mem_filter.mp hx).1)
    exact (Nat.le_add_right _ _).trans hhi
  have hgap : ∀ v ∈ (VoidManager.replaceAll ((Span.gaps u32Max s.walStart ranges).map fun g => ⟨g.start, g.size⟩)).entries,
      v.span ∈ Span.gaps u32Max s.walStart ranges ∧ 0 < v.size := by
    intro v hv
    obtain ⟨hv, hpos⟩ := mem_replaceAll hv
    obtain ⟨g, hg, rfl⟩ := mem_map.mp hv
    exact ⟨hg, hpos⟩
  refine ⟨h.ordered, h.logIn, h.logApart, h.indexed, fun v hv => ?_, fun v hv w hw hne => ?_, fun v hv k x hx => ?_, h.tidy, h.bare⟩
  · obtain ⟨hg, hpos⟩ := hgap v hv
    exact ⟨hpos, Span.le_start_of_mem_gaps hg, Span.gaps_stop_le hstarts hg⟩
  · have : Std.Symm Span.Apart := ⟨fun _ _ => Span.Apart.symm⟩
    refine (Span.gaps_pairwise u32Max s.walStart ranges).forall (hgap v hv).1 (hgap w hw).1 fun heq => hne ?_
    obtain ⟨hoffset, hsize⟩ := Span.mk.inj heq
    cases v
    cases w
    simp_all
  · exact Span.gaps_apart hsorted (hgap v hv).1 (hmem k x hx)

lemma Sound.recoverAfterEmergencySpillReplay (h : s.Sound) :
    (s.recoverAfterEmergencySpillReplay hs fate).Sound ∧ (s.recoverAfterEmergencySpillReplay hs fate).Synced := by
  have hrebuilt := h.dropVoids.rebuildKv hs fate fun _ hv => absurd hv not_mem_nil
  -- the scan replaces whatever voids there were
  have hscan : (s.rebuildKv hs fate).recoverVoidsViaGapScan.Sound := hrebuilt.recoverVoidsViaGapScan
  exact ⟨hscan.syncVoidsToKvWriter.forceHotTailFlush, (synced_syncVoidsToKvWriter _).forceHotTailFlush⟩

end Space

end AeorDb.Wal
