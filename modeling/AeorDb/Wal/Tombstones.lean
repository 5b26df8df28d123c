import AeorDb.Wal.SpaceRuns

/-! Index entries that are flagged as deleted keep their place in the log. Reads that include them find the
entry of the key for as long as no chunk is written over that place. -/

namespace AeorDb.Wal

open Library Store Index Digest KVEntry List Option Table HotIndex Space

variable {H : Type}

namespace HotIndex

variable [DecidableEq H] {kv kv' : HotIndex H} {h : H} {x y : KVEntry H}

def resized (kv : HotIndex H) (kept : H → Bool) : HotIndex H :=
  { kv with pages := kv.pages.filter fun x => !x.isDeleted || kept x.hash }

def Retains (kv kv' : HotIndex H) : Prop :=
  ∀ h x, kv'.all.get h = some x → ∃ y, kv.all.get h = some y ∧ span y = span x

lemma Retains.of_all (hall : ∀ h x, kv'.all.get h = some x → kv.all.get h = some x) : kv.Retains kv' :=
  fun h x hx => ⟨x, hall h x hx, rfl⟩

lemma Retains.trans {kv'' : HotIndex H} (hr : kv.Retains kv') (hr' : kv'.Retains kv'') : kv.Retains kv'' := by
  intro h x hx
  obtain ⟨y, hy, hspan⟩ := hr' h x hx
  obtain ⟨z, hz, hspan'⟩ := hr h y hy
  exact ⟨z, hz, hspan'.trans hspan⟩

lemma all_resized {kept : H → Bool} (hx : (kv.resized kept).all.get h = some x) : kv.all.get h = some x := by
  rw [get_all] at hx ⊢
  cases hb : kv.writeBuffer.get h with
  | some y =>
    rw [resized, hb] at hx
    exact hx
  | none =>
    simp only [resized, hb, Table.get_filter] at hx
    exact (Option.filter_eq_some_iff.mp hx).1

lemma retains_replace (hget : kv.all.get y.hash = some x) (hspan : span x = span y) :
    kv.Retains { kv with writeBuffer := kv.writeBuffer.insert y } := by
  intro h z hz
  rw [get_all] at hz
  by_cases hh : h = y.hash
  · obtain rfl : y = z := by simpa [hh] using hz
    exact ⟨x, hh ▸ hget, hspan⟩
  · refine ⟨z, ?_, rfl⟩
    rw [get_all]
    simpa [hh] using hz

lemma retains_markDeleted (kv : HotIndex H) (k : H) : kv.Retains (kv.markDeleted k) := by
  unfold markDeleted
  split
  next x hx =>
    have hget := (get_eq_some.mp hx).1
    obtain rfl := hash_of_get hx
    exact retains_replace (y := markedDeleted x) hget rfl
  · exact .of_all fun _ _ hx => hx

lemma retains_markDeletedBatch (kv : HotIndex H) (hashes : List H) : kv.Retains (kv.markDeletedBatch hashes) := by
  induction hashes generalizing kv with
  | nil => exact .of_all fun _ _ hx => hx
  | cons k hashes ih => exact (retains_markDeleted kv k).trans (ih _)

lemma retains_opened (hwrites : kv.hotTail.writes = kv.writeBuffer.entries) (voids : List VoidRecord) : kv.Retains (kv.opened voids) := by
  intro h x hx
  have hbuffer : Table.latest hash kv.hotTail.writes h = kv.writeBuffer.get h := by
    rw [hwrites]
    exact latest_eq_get _ (fun _ => Iff.rfl) h
  rw [get_all, opened] at hx
  rw [get_insertAll, get_empty_insertAll, hbuffer] at hx
  generalize hmask : (kv.pages.entries.filter fun x =>
    !Table.contains (Table.insertAll Table.empty kv.hotTail.writes) x.hash && entryOverlapsVoidRanges (buildMergedVoidRanges voids) x) = masked at hx
  cases hl : Table.latest hash (masked.map markedDeleted) h with
  | none =>
    refine ⟨x, ?_, rfl⟩
    rw [get_all, ← hx, hl, none_or]
  | some y =>
    obtain ⟨hmem, hhash⟩ := latest_some hl
    obtain ⟨z, hz, rfl⟩ := mem_map.mp hmem
    obtain rfl : markedDeleted z = x := by simpa [hl] using hx
    rw [← hmask, mem_filter, Bool.and_eq_true, Table.contains, get_empty_insertAll] at hz
    obtain ⟨hpage, hnot, _⟩ := hz
    have hz' : z.hash = h := hhash
    rw [hz', hbuffer] at hnot
    have hnone : kv.writeBuffer.get h = none := by simpa using hnot
    refine ⟨z, ?_, rfl⟩
    rw [get_all, hnone]
    exact Table.get_eq_some.mpr ⟨hpage, hz'⟩

end HotIndex

namespace Space

variable [DecidableEq H] {hs : Hasher H} {fate : H → Fate} {s t : Space H} {e : NewEntry H} {k : H} {x : KVEntry H}

/-- The entry of a hash, flagged as deleted or not. `stray` is what the bytes at an offset decode to at which
no entry starts. The key of what is read is not compared with the hash. -/
def getEntryIncludingDeleted (stray : ℕ → EngineResult (LogRecord H)) (s : Space H) (h : H) : EngineResult (Option (LogRecord H)) :=
  match s.kv.all.get h with
  | none => .ok none
  | some x =>
    if validReusableRange x.offset x.totalLength s.walStart s.walEnd then
      match s.log.find? fun r => r.offset = x.offset with
      | some r => .ok (some r)
      | none => (stray x.offset).map some
    else
      .error (.corruptEntry x.offset
        ("KV entry points outside current WAL region " ++ toString s.walStart ++ ".." ++ toString s.walEnd ++ " for hash"))

def Traced (s : Space H) : Prop := ∀ k x, s.kv.all.get k = some x → ∃ r ∈ s.log, r.key = k ∧ r.span = span x

def Spares (hs : Hasher H) (s : Space H) (e : NewEntry H) : Prop :=
  e.entryType = .chunk → ∀ v ∈ s.voids.entries, entryLength hs hs.hashLength e.valueLength ≤ v.size →
    ∀ k x, s.kv.all.get k = some x → x.isDeleted = true → (span x).Apart ⟨v.offset, entryLength hs hs.hashLength e.valueLength⟩

lemma Traced.retains (ht : s.Traced) {kv : HotIndex H} (hr : s.kv.Retains kv) : ({ s with kv := kv } : Space H).Traced := by
  intro k x hx
  obtain ⟨y, hy, hspan⟩ := hr k x hx
  obtain ⟨r, hr, hkey, hspan'⟩ := ht k y hy
  exact ⟨r, hr, hkey, hspan'.trans hspan⟩

lemma Traced.syncVoidsToKvWriter (ht : s.Traced) : s.syncVoidsToKvWriter.Traced := ht

lemma Traced.insertKv (ht : s.Traced) (hr : ∃ r ∈ s.log, r.key = x.hash ∧ r.span = span x) : (s.insertKv fate x).Traced := by
  intro k y hy
  rcases all_insert hy with ⟨rfl, rfl⟩ | ⟨_, hold⟩
  · exact hr
  · exact ht k y hold

omit [DecidableEq H] in
lemma mem_overwrite_of_apart {log : List (LogRecord H)} {r r' : LogRecord H} (hr : r ∈ log) (hapart : r.span.Apart r'.span) :
    r ∈ overwrite log r' := mem_append_left _ (mem_filter.mpr ⟨hr, decide_eq_true hapart⟩)

lemma Sound.mem_log_appendEntry (h : s.Sound) (e : NewEntry H) {r : LogRecord H} (hr : r ∈ s.log) : r ∈ (s.appendEntry hs e).log :=
  mem_overwrite_of_apart hr (Or.inl (h.logIn r hr).2.2)

section

variable (ht : s.Traced) (h : s.Sound)
include ht h

lemma Traced.appendEntry (e : NewEntry H) : (s.appendEntry hs e).Traced := by
  intro k x hx
  obtain ⟨r, hr, hkey, hspan⟩ := ht k x hx
  exact ⟨r, h.mem_log_appendEntry e hr, hkey, hspan⟩

lemma Traced.appendStored (e : NewEntry H) (flags : UInt8) :
    ((s.appendEntry hs e).insertKv fate ⟨flags, e.key, s.walEnd, entryLength hs hs.hashLength e.valueLength⟩).Traced :=
  (ht.appendEntry h e).insertKv ⟨recordAt hs e s.walEnd, mem_overwrite _ _, rfl, rfl⟩

lemma Traced.reuseStored (hspare : s.Spares hs e) (hchunk : e.entryType = .chunk) {v : VoidRecord} {rest : VoidManager} {flags : UInt8} {minimumUseful : ℕ} (hfind : s.voids.findVoid minimumUseful (entryLength hs hs.hashLength e.valueLength) = some (v, rest)) :
    ((s.reuseVoid hs e v rest).insertKv fate ⟨flags, e.key, v.offset, entryLength hs hs.hashLength e.valueLength⟩).Traced := by
  obtain ⟨hv, hneeded, _⟩ := findVoid_spec hfind
  refine Traced.insertKv (fun k x hx => ?_) ⟨_, mem_overwrite _ _, rfl, rfl⟩
  obtain ⟨r, hr, hkey, hspan⟩ := ht k x hx
  refine ⟨r, mem_overwrite_of_apart hr ?_, hkey, hspan⟩
  rw [hspan]
  cases hdel : x.isDeleted with
  | true => exact hspare hchunk v hv hneeded k x hx hdel
  | false =>
    have hstart : v.span.start ≤ (recordAt hs e v.offset).span.start := le_rfl
    have hstop : (recordAt hs e v.offset).span.stop ≤ v.span.stop := Nat.add_le_add_left hneeded _
    exact ((h.free v hv k x (get_eq_some.mpr ⟨hx, hdel⟩)).of_le hstart hstop).symm

lemma Traced.storeEntry (hspare : s.Spares hs e) : (s.storeEntry hs fate e).Traced := by
  unfold Space.storeEntry
  dsimp only
  split_ifs with hlong hchunk
  · exact ht
  · generalize htaken : s.voids.takeVoid _ _ _ _ _ = taken
    obtain ⟨slot, rest⟩ := taken
    rcases takeVoid_spec h.voidsIn htaken with ⟨rfl, rfl⟩ | ⟨v, rfl, hfind⟩
    · simp only [if_true]
      exact ht.appendStored h e _
    · exact (ht.reuseStored h hspare hchunk hfind).syncVoidsToKvWriter
  · simp only [if_true]
    exact ht.appendStored h e _

end

lemma Sound.mem_log_appendBatch (h : s.Sound) (batch : List (NewEntry H)) {r : LogRecord H} (hr : r ∈ s.log) :
    r ∈ (Space.appendBatch hs batch s).1.log := by
  induction batch using List.reverseRecOn with
  | nil => exact hr
  | append_singleton batch e ih =>
    rw [appendBatch_concat]
    exact (h.appendBatch hs batch).sound.mem_log_appendEntry e ih

lemma Traced.flushBatch (ht : s.Traced) (h : s.Sound) (batch : List (NewEntry H)) : (s.flushBatch hs fate batch).Traced := by
  have hb := h.appendBatch hs batch
  have hlog : (Space.appendBatch hs batch s).1.Traced := by
    intro k x hx
    rw [hb.kv] at hx
    obtain ⟨r, hr, hkey, hspan⟩ := ht k x hx
    exact ⟨r, h.mem_log_appendBatch batch hr, hkey, hspan⟩
  have hwritten := fun x hx => (hb.written x hx).2
  unfold Space.flushBatch
  clear hb
  generalize (Space.appendBatch hs batch s).2 = xs at hwritten
  generalize (Space.appendBatch hs batch s).1 = t at hlog hwritten
  induction xs generalizing t with
  | nil => exact hlog
  | cons x xs ih =>
    obtain ⟨hx, hxs⟩ := forall_mem_cons.mp hwritten
    exact ih (t.insertKv fate x) (hlog.insertKv hx) hxs

lemma Traced.markEntryDeleted (ht : s.Traced) (k : H) : (s.markEntryDeleted k).Traced := by
  unfold Space.markEntryDeleted
  split
  next x hx =>
    obtain rfl := HotIndex.hash_of_get hx
    exact ht.retains (HotIndex.retains_replace
      (y := { x with typeFlags := x.typeFlags &&& 0x0F ||| kvFlagDeleted }) (HotIndex.get_eq_some.mp hx).1 rfl)
  · exact ht

lemma Traced.gcSweep (ht : s.Traced) (live : H → Bool) : (s.gcSweep live).Traced := by
  unfold Space.gcSweep
  split
  · exact ht
  · exact ht
  · exact ht.retains (HotIndex.retains_markDeletedBatch _ _)

lemma traced_rebuildKv : (s.rebuildKv hs fate).Traced := by
  intro k x hx
  rw [log_rebuildKv]
  exact all_rebuildKv hx

lemma Sound.traced_expand {emptyKey : H} {timestamp : ℤ} {newKvEnd copyEnd : ℕ}
    (h : (s.expandKvBlockOnline hs fate emptyKey timestamp newKvEnd copyEnd).Sound) :
    (s.expandKvBlockOnline hs fate emptyKey timestamp newKvEnd copyEnd).Traced := by
  intro k x hx
  refine h.indexed k x (HotIndex.get_eq_some.mpr ⟨hx, ?_⟩)
  simp only [Space.expandKvBlockOnline] at hx
  rw [HotIndex.get_all, get_empty, none_or, HotIndex.get_empty_insertAll] at hx
  obtain ⟨y, hy, rfl⟩ := mem_map.mp (mem_of_mem_filter (latest_some hx).1)
  rw [isDeleted_adjustOffset]
  exact (HotIndex.get_eq_some.mp (HotIndex.mem_iterAll.mp hy)).2

lemma Traced.reopen (ht : s.Traced) (h : s.Sound) (hsync : s.Synced) : (s.shutdown fate).openClean.Traced := by
  have hshut : (s.shutdown fate).Traced := by
    refine ht.retains (.of_all fun k x hx => ?_)
    rw [all_flushHotBuffer] at hx
    exact all_flush hx
  exact hshut.retains (retains_opened (hotTail_shutdown fate h hsync).1 _)

/-- The steps of a database in which a chunk that goes into a void covers no place of an index entry that is
flagged as deleted. -/
inductive SparingStep (hs : Hasher H) : Space H → Space H → Prop
  | store (fate : H → Fate) {e : NewEntry H} {s : Space H} : s.Spares hs e → SparingStep hs s (s.storeEntry hs fate e)
  | batch (fate : H → Fate) (batch : List (NewEntry H)) (s : Space H) : SparingStep hs s (s.flushBatch hs fate batch)
  | delete (k : H) (s : Space H) : SparingStep hs s (s.markEntryDeleted k)
  | sweep (live : H → Bool) (s : Space H) : SparingStep hs s (s.gcSweep live)
  | resize (kept : H → Bool) (s : Space H) : SparingStep hs s { s with kv := s.kv.resized kept }
  | gapScan (s : Space H) : SparingStep hs s s.recoverVoidsViaGapScan.syncVoidsToKvWriter
  | replay (fate : H → Fate) (s : Space H) : SparingStep hs s (s.recoverAfterEmergencySpillReplay hs fate)
  | expand (fate : H → Fate) (emptyKey : H) (timestamp : ℤ) {newKvEnd copyEnd : ℕ} {s : Space H} : s.Movable newKvEnd copyEnd →
      SparingStep hs s (s.expandKvBlockOnline hs fate emptyKey timestamp newKvEnd copyEnd)
  | reopen (fate : H → Fate) (s : Space H) : SparingStep hs s (s.shutdown fate).openClean

lemma Sound.resized (h : s.Sound) (kept : H → Bool) : ({ s with kv := s.kv.resized kept } : Space H).Sound := by
  refine h.shrink (fun k x hx => ?_) ⟨h.tidy.pending, h.tidy.hot, h.tidy.writes⟩ fun hb => ⟨?_, hb.writeBuffer, hb.hotTail⟩
  · obtain ⟨hall, hlive⟩ := HotIndex.get_eq_some.mp hx
    exact HotIndex.get_eq_some.mpr ⟨HotIndex.all_resized hall, hlive⟩
  · simp [HotIndex.resized, Table.filter, hb.pages]

lemma SparingStep.sound (hstep : SparingStep hs s t) (h : s.Sound) (hsync : s.Synced) : t.Sound ∧ t.Synced := by
  cases hstep with
  | store fate _ => exact h.storeEntry hsync _
  | batch fate batch => exact h.flushBatch hsync batch
  | delete k => exact h.markEntryDeleted hsync k
  | sweep live => exact h.gcSweep hsync live
  | resize kept => exact ⟨h.resized kept, hsync⟩
  | gapScan => exact ⟨h.recoverVoidsViaGapScan.syncVoidsToKvWriter, synced_syncVoidsToKvWriter _⟩
  | replay fate => exact h.recoverAfterEmergencySpillReplay
  | expand fate emptyKey timestamp hm => exact ⟨h.expandKvBlockOnline hm, h.synced_expand⟩
  | reopen fate => exact ⟨h.reopen hsync, synced_syncVoidsToKvWriter _⟩

lemma SparingStep.traced (hstep : SparingStep hs s t) (h : s.Sound) (hsync : s.Synced) (ht : s.Traced) : t.Traced := by
  have hsound := (hstep.sound h hsync).1
  cases hstep with
  | store fate hspare => exact ht.storeEntry h hspare
  | batch fate batch => exact ht.flushBatch h batch
  | delete k => exact ht.markEntryDeleted k
  | sweep live => exact ht.gcSweep live
  | resize kept => exact ht.retains (.of_all fun _ _ => all_resized)
  | gapScan => exact ht
  | replay fate => exact traced_rebuildKv
  | expand fate emptyKey timestamp hm => exact hsound.traced_expand
  | reopen fate => exact ht.reopen h hsync

lemma traced_run {walStart : ℕ} (hrun : Relation.ReflTransGen (SparingStep hs) (fresh walStart) s) : s.Sound ∧ s.Synced ∧ s.Traced := by
  induction hrun with
  | refl => exact ⟨sound_fresh walStart, fun v hv => absurd hv not_mem_nil, fun k x hx => by cases hx⟩
  | tail _ hstep ih =>
    obtain ⟨h, hsync, ht⟩ := ih
    obtain ⟨h', hsync'⟩ := hstep.sound h hsync
    exact ⟨h', hsync', hstep.traced h hsync ht⟩

/-- As long as chunks spare the places of deleted entries, a read by hash gives nothing, fails, or gives the
entry of that hash, whatever stray bytes decode to. -/
theorem getEntryIncludingDeleted_key {walStart : ℕ} (hrun : Relation.ReflTransGen (SparingStep hs) (fresh walStart) s)
    (stray : ℕ → EngineResult (LogRecord H)) (h : H) {r : LogRecord H}
    (hok : s.getEntryIncludingDeleted stray h = .ok (some r)) : r.key = h := by
  obtain ⟨hsound, _, htraced⟩ := traced_run hrun
  unfold getEntryIncludingDeleted at hok
  split at hok
  · cases hok
  next x hx =>
    obtain ⟨r', hr', hkey, hspan⟩ := htraced h x hx
    have hoffset : r'.offset = x.offset := congrArg Span.start hspan
    rw [hsound.find_record hr' hoffset] at hok
    split_ifs at hok
    cases hok
    exact hkey

def largeChunk : NewEntry Digest := ⟨.chunk, 0, chunkKey 2, 20, 2, none⟩

lemma run_swept : Relation.ReflTransGen (SparingStep hasher) (fresh 1000) swept := by
  apply Relation.ReflTransGen.tail _ (.sweep (fun _ => false) _)
  exact .single (.store everywhere fun _ v hv => absurd hv not_mem_nil)

theorem getEntryIncludingDeleted_swept :
    ∃ r, (swept.storeEntry Digest.hasher everywhere largeChunk).getEntryIncludingDeleted (fun _ => .error (.corruptEntry 0 "")) (chunkKey 1) =
      .ok (some r) ∧ r.key = chunkKey 1 := by
  have hlarge : ∀ v ∈ swept.voids.entries, ¬ entryLength hasher hasher.hashLength largeChunk.valueLength ≤ v.size := by
    decide +kernel
  have hspare : swept.Spares hasher largeChunk := fun _ v hv hfit => absurd hfit (hlarge v hv)
  have hread : (swept.storeEntry hasher everywhere largeChunk).getEntryIncludingDeleted (fun _ => .error (.corruptEntry 0 ""))
      (chunkKey 1) = .ok (some (recordAt hasher (chunkEntry 1) 1000)) := by
    decide +kernel
  exact ⟨_, hread, getEntryIncludingDeleted_key (run_swept.tail (.store everywhere hspare)) _ _ hread⟩

theorem getEntryIncludingDeleted_other : ∃ s : Space Digest, Relation.ReflTransGen (Step Digest.hasher) (fresh 1000) s ∧
    chunkKey 2 ≠ chunkKey 1 ∧ ∀ stray, ∃ r, s.getEntryIncludingDeleted stray (chunkKey 1) = .ok (some r) ∧ r.key = chunkKey 2 := by
  refine ⟨swept.storeEntry hasher everywhere (chunkEntry 2), ?_, by decide, fun stray => ?_⟩
  · apply Relation.ReflTransGen.tail _ (.store everywhere (chunkEntry 2) swept)
    apply Relation.ReflTransGen.tail _ (.sweep (fun _ => false) stored)
    exact .single (.store everywhere (chunkEntry 1) (fresh 1000))
  · have hindex : (swept.storeEntry hasher everywhere (chunkEntry 2)).kv.all.get (chunkKey 1) =
        some (markedDeleted ⟨toKvType .chunk, chunkKey 1, 1000, 105⟩) := by
      decide +kernel
    have hrecord : ((swept.storeEntry hasher everywhere (chunkEntry 2)).log.find? fun r => r.offset = 1000) =
        some (recordAt hasher (chunkEntry 2) 1000) := by
      decide +kernel
    refine ⟨recordAt hasher (chunkEntry 2) 1000, ?_, rfl⟩
    rw [getEntryIncludingDeleted, hindex]
    dsimp only [markedDeleted]
    rw [hrecord]
    exact if_pos (by decide +kernel)

end Space

end AeorDb.Wal
