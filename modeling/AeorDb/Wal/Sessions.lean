import AeorDb.Wal.Resolution
import AeorDb.Wal.Space

/-! Sessions that end in a crash, each of which starts with the index rebuilt from the log. -/

namespace AeorDb.Wal

open Library Store Index Space List Table LogRecord Digest

variable {H : Type}

/-- The entries of the log in the order in which they were written, and the `updated_at` of the header in memory
and on disk. -/
structure LogSession (H : Type) where
  walStart : ℕ
  walEnd : ℕ
  log : List (LogRecord H)
  updatedAt : ℤ
  headerUpdatedAt : ℤ

def i64Max : ℤ := 2 ^ 63 - 1

def nextEntryTimestamp (now updatedAt : ℤ) : ℤ :=
  if now ≤ updatedAt then if updatedAt < i64Max then updatedAt + 1 else updatedAt else now

namespace LogSession

variable (hs : Hasher H)

def fresh (walStart : ℕ) (createdAt : ℤ) : LogSession H := ⟨walStart, walStart, [], createdAt, createdAt⟩

def writeEntryAt (s : LogSession H) (now : ℤ) (record : ℤ → LogRecord H) : LogSession H :=
  { s with
    log := s.log ++ [record (nextEntryTimestamp now s.updatedAt)]
    updatedAt := nextEntryTimestamp now s.updatedAt }

def appendEntry (s : LogSession H) (now : ℤ) (e : NewEntry H) : LogSession H :=
  { s.writeEntryAt now fun timestamp => recordAt hs { e with timestamp } s.walEnd with
    walEnd := s.walEnd + entryLength hs hs.hashLength e.valueLength }

def updateHeader (s : LogSession H) (stamp : Option ℤ) : LogSession H :=
  let updatedAt := max (stamp.getD s.updatedAt) s.updatedAt
  { s with updatedAt, headerUpdatedAt := updatedAt }

def setHeaderInMemory (s : LogSession H) (stamp : ℤ) : LogSession H := { s with updatedAt := max stamp s.updatedAt }

def copyRegion (s : LogSession H) (newKvEnd copyEnd : ℕ) : LogSession H :=
  { s with
    walStart := newKvEnd
    walEnd := s.walEnd + (copyEnd - s.walStart)
    log := s.log.map fun r =>
      if s.walStart ≤ r.offset ∧ r.offset < copyEnd then { r with offset := r.offset + (s.walEnd - s.walStart) } else r }

def writeTailVoid (s : LogSession H) (now : ℤ) (emptyKey : H) (newKvEnd copyEnd : ℕ) : LogSession H :=
  let headerSize := fixedHeaderSize + hs.hashLength
  let size := copyEnd - newKvEnd
  if headerSize ≤ size then
    s.writeEntryAt now fun timestamp => ⟨.void, emptyKey, newKvEnd, size - headerSize, size, timestamp, none⟩
  else s

def expandKvBlockOnline (s : LogSession H) (now : ℤ) (emptyKey : H) (newKvEnd copyEnd : ℕ) : LogSession H :=
  (((s.updateHeader none).copyRegion newKvEnd copyEnd).writeTailVoid hs now emptyKey newKvEnd copyEnd).updateHeader none

def restart (s : LogSession H) : LogSession H := { s with updatedAt := s.headerUpdatedAt }.updateHeader none

def scanned (s : LogSession H) : List (LogRecord H) := s.log.insertionSort fun a b => a.offset ≤ b.offset

def rebuilt [DecidableEq H] (s : LogSession H) : RebuildKvRecords H :=
  resolveRebuildRecords hs (s.scanned.map toRebuild) (s.scanned.filterMap fun r => r.deletes.map fun path => (path, r.order))

def ClockAhead (s : LogSession H) (now : ℤ) : Prop :=
  ∀ r ∈ s.log, r.timestamp < now ∨ r.timestamp ≤ s.updatedAt ∧ s.updatedAt < i64Max

inductive Step : LogSession H → LogSession H → Prop
  | appendEntry {s : LogSession H} {now : ℤ} (e : NewEntry H) : s.ClockAhead now → Step s (s.appendEntry hs now e)
  | updateHeader (s : LogSession H) (stamp : Option ℤ) : Step s (s.updateHeader stamp)
  | setHeaderInMemory (s : LogSession H) (stamp : ℤ) : Step s (s.setHeaderInMemory stamp)
  | expandKvBlockOnline {s : LogSession H} {now : ℤ} (emptyKey : H) (newKvEnd copyEnd : ℕ) :
      s.ClockAhead now → Step s (s.expandKvBlockOnline hs now emptyKey newKvEnd copyEnd)
  | restart (s : LogSession H) : Step s s.restart

end LogSession

section

variable {hs : Hasher H} {s t : LogSession H} {now : ℤ}

def Chronological (log : List (LogRecord H)) : Prop := log.Pairwise fun a b => a.timestamp < b.timestamp

variable {r : LogRecord H}

lemma Chronological.writeEntryAt (h : Chronological s.log) (hclock : s.ClockAhead now) (record : ℤ → LogRecord H)
    (hrecord : ∀ timestamp, (record timestamp).timestamp = timestamp) : Chronological (s.writeEntryAt now record).log := by
  refine pairwise_append.mpr ⟨h, pairwise_singleton _ _, ?_⟩
  intro a ha b hb
  rw [mem_singleton.mp hb, hrecord]
  have hahead := hclock _ ha
  rw [nextEntryTimestamp]
  split_ifs <;> omega

lemma timestamp_of_mem_copyRegion {newKvEnd copyEnd : ℕ} (hr : r ∈ (s.copyRegion newKvEnd copyEnd).log) :
    ∃ x ∈ s.log, r.timestamp = x.timestamp := by
  obtain ⟨x, hx, rfl⟩ := mem_map.mp hr
  refine ⟨x, hx, ?_⟩
  split_ifs <;> rfl

lemma Chronological.copyRegion (h : Chronological s.log) (newKvEnd copyEnd : ℕ) : Chronological (s.copyRegion newKvEnd copyEnd).log := by
  apply pairwise_map.mpr
  apply h.imp
  intro a b hab
  split_ifs <;> exact hab

lemma Chronological.expand (h : Chronological s.log) (hclock : s.ClockAhead now) (emptyKey : H) (newKvEnd copyEnd : ℕ) :
    Chronological (s.expandKvBlockOnline hs now emptyKey newKvEnd copyEnd).log := by
  have hmoved : Chronological ((s.updateHeader none).copyRegion newKvEnd copyEnd).log := Chronological.copyRegion h newKvEnd copyEnd
  have hahead : ((s.updateHeader none).copyRegion newKvEnd copyEnd).ClockAhead now := by
    intro r hr
    obtain ⟨x, hx, htime⟩ := timestamp_of_mem_copyRegion hr
    rw [htime, show ((s.updateHeader none).copyRegion newKvEnd copyEnd).updatedAt = s.updatedAt from max_self _]
    exact hclock x hx
  change Chronological (LogSession.writeTailVoid hs _ now emptyKey newKvEnd copyEnd).log
  unfold LogSession.writeTailVoid
  dsimp only
  split_ifs
  · exact hmoved.writeEntryAt hahead _ fun _ => rfl
  · exact hmoved

lemma Chronological.step (h : Chronological s.log) (hstep : LogSession.Step hs s t) : Chronological t.log := by
  cases hstep with
  | appendEntry e hclock => exact h.writeEntryAt hclock (fun timestamp => recordAt hs { e with timestamp } s.walEnd) fun _ => rfl
  | updateHeader stamp => exact h
  | setHeaderInMemory stamp => exact h
  | expandKvBlockOnline emptyKey newKvEnd copyEnd hclock => exact h.expand hclock emptyKey newKvEnd copyEnd
  | restart => exact h

end

section

variable {log : List (LogRecord H)} {k : H}

structure IsNewest (log : List (LogRecord H)) (k : H) (r : LogRecord H) : Prop where
  mem : r ∈ log
  key : r.key = k
  newest : ∀ x ∈ log, x.key = k → x ≠ r → x.timestamp < r.timestamp

lemma IsNewest.append_of_ne {r x : LogRecord H} (h : IsNewest log k r) (hx : x.key = k → x.timestamp < r.timestamp) :
    IsNewest (log ++ [x]) k r := by
  refine ⟨mem_append_left _ h.mem, h.key, ?_⟩
  intro y hy hkey hne
  rcases mem_append.mp hy with hold | hnew
  · exact h.newest y hold hkey hne
  · rw [mem_singleton.mp hnew] at hkey ⊢
    exact hx hkey

variable {r : LogRecord H}

lemma isNewest_append (hkey : r.key = k) (h : ∀ x ∈ log, x.key = k → x.timestamp < r.timestamp) :
    IsNewest (log ++ [r]) k r := by
  refine ⟨mem_append_right _ (mem_singleton_self r), hkey, ?_⟩
  intro x hx hxk hne
  rcases mem_append.mp hx with hold | hnew
  · exact h x hold hxk
  · exact absurd (mem_singleton.mp hnew) hne

variable [DecidableEq H]

lemma isNewest_of_latest (h : Chronological log) (hlatest : Table.latest key log k = some r) :
    IsNewest log k r := by
  induction log using List.reverseRecOn with
  | nil => simp [latest_nil] at hlatest
  | append_singleton log x ih =>
    obtain ⟨hlog, -, hlast⟩ := pairwise_append.mp h
    rw [latest_append, latest_cons, latest_nil] at hlatest
    by_cases hk : k = x.key
    · rw [if_pos hk] at hlatest
      obtain rfl : x = r := Option.some.inj hlatest
      exact isNewest_append hk.symm fun y hy _ => hlast y hy x (mem_singleton_self x)
    · rw [if_neg hk] at hlatest
      exact (ih hlog hlatest).append_of_ne fun hx => absurd hx.symm hk

omit [DecidableEq H] in
lemma isDirectory_toRebuild : r.toRebuild.IsDirectory ↔ r.entryType = .directoryIndex := by
  rw [RebuildKvRecord.IsDirectory, show r.toRebuild.typeFlags = toKvType r.entryType from rfl]
  cases r.entryType <;> decide

omit [DecidableEq H] in
lemma IsNewest.kept {r : LogRecord H} (h : IsNewest log k r) (hfile : ∀ x ∈ log, x.key = k → x.entryType ≠ .directoryIndex) :
    Kept (log.map toRebuild) k r.toRebuild := by
  refine ⟨mem_map_of_mem h.mem, h.key, ?_⟩
  rintro _ hx hkey
  obtain ⟨x, hmem, rfl⟩ := mem_map.mp hx
  have hplain : ∀ y ∈ log, y.key = k → y.toRebuild.rank = toLex (0, toLex (y.timestamp, y.offset)) := by
    intro y hy hyk
    rw [RebuildKvRecord.rank, if_neg fun hdir => hfile y hy hyk (isDirectory_toRebuild.mp hdir.1)]
    rfl
  rw [hplain x hmem hkey, hplain r h.mem h.key]
  by_cases hne : x = r
  · rw [hne]
  · have horder : toLex (x.timestamp, x.offset) < toLex (r.timestamp, r.offset) :=
      Prod.Lex.toLex_lt_toLex.mpr (.inl (h.newest x hmem hkey hne))
    apply le_of_lt
    exact Prod.Lex.toLex_lt_toLex.mpr (.inr ⟨rfl, horder⟩)

end

section

variable [DecidableEq H] {hs : Hasher H} {s : LogSession H} {k : H} {last : LogRecord H}

theorem lastWrite_survives {walStart : ℕ} {createdAt : ℤ}
    (hrun : Relation.ReflTransGen (LogSession.Step hs) (.fresh walStart createdAt) s)
    (hlast : Table.latest key s.log k = some last)
    (hfile : ∀ r ∈ s.log, r.key = k → r.entryType ≠ .directoryIndex)
    (hkept : ∀ r ∈ s.log, ∀ path, r.deletes = some path → k ∉ deletionKeys hs path) :
    (s.rebuilt hs).get k = some last.toRebuild := by
  have hlog : Chronological s.log := by
    clear hlast hfile hkept
    induction hrun with
    | refl => exact .nil
    | tail _ hstep ih => exact ih.step hstep
  have hnewest := isNewest_of_latest hlog hlast
  -- the file has the entries in another order after an expansion
  have hperm : s.scanned.Perm s.log := perm_insertionSort _ _
  have hdistinct : s.scanned.Pairwise fun a b => a.timestamp ≠ b.timestamp :=
    (hperm.symm.pairwise_iff fun hab => Ne.symm hab).mp (hlog.imp fun hab => hab.ne)
  have hnewest' : IsNewest s.scanned k last :=
    ⟨hperm.mem_iff.mpr hnewest.mem, hnewest.key, fun x hx => hnewest.newest x (hperm.mem_iff.mp hx)⟩
  have horders : ((s.scanned.map toRebuild).map (·.order)).Nodup := by
    rw [map_map]
    exact pairwise_map.mpr (hdistinct.imp fun hab heq => hab (congrArg RebuildOrder.timestamp heq))
  have hfile' : ∀ r ∈ s.scanned, r.key = k → r.entryType ≠ .directoryIndex := fun r hr => hfile r (hperm.mem_iff.mp hr)
  have huniform : Uniform (s.scanned.map toRebuild) k := by
    rintro _ ha _ hb hak hbk
    obtain ⟨a, hmema, rfl⟩ := mem_map.mp ha
    obtain ⟨b, hmemb, rfl⟩ := mem_map.mp hb
    rw [isDirectory_toRebuild, isDirectory_toRebuild]
    exact iff_of_false (hfile' a hmema hak) (hfile' b hmemb hbk)
  rw [LogSession.rebuilt, get_resolveRebuildRecords, (get_foldl_eq_some_iff horders huniform).mpr (hnewest'.kept hfile'), Option.map_some,
    if_neg]
  rintro ⟨d, hd, hkey, -⟩
  obtain ⟨r, hr, hdel⟩ := mem_filterMap.mp hd
  obtain ⟨path, hpath, rfl⟩ := Option.map_eq_some_iff.mp hdel
  rw [show last.toRebuild.hash = k from hnewest.key] at hkey
  exact hkept r (hperm.mem_iff.mp hr) path hpath hkey

end

namespace LogSession

def fileKey : Digest := .mk 2 [] [] []

def write (valueLength : ℕ) : NewEntry Digest := ⟨.fileRecord, toKvType .fileRecord, fileKey, valueLength, 0, none⟩

def crashed : LogSession Digest := ((fresh 1000 0).appendEntry hasher 100 (write 10)).restart

theorem lastWrite_survives_later :
    ((crashed.appendEntry hasher 200 (write 20)).rebuilt hasher).get fileKey =
      some ⟨toKvType .fileRecord, fileKey, 1105, 20, 115, ⟨200, 1105⟩⟩ := by
  have hrun : Relation.ReflTransGen (Step hasher) (.fresh 1000 0) (crashed.appendEntry hasher 200 (write 20)) := by
    apply Relation.ReflTransGen.tail _ (.appendEntry (write 20) (by unfold ClockAhead; decide))
    apply Relation.ReflTransGen.tail _ (.restart _)
    exact .single (.appendEntry (write 10) (by unfold ClockAhead; decide))
  have hlast : Table.latest key (crashed.appendEntry hasher 200 (write 20)).log fileKey =
      some ⟨.fileRecord, fileKey, 1105, 20, 115, 200, none⟩ := by decide
  exact lastWrite_survives hrun hlast (by decide) (by decide)

/-- The header was not written after the first entry, so the second session starts from its old stamp. With a
clock that reads less than before, the older entry is the one that a rebuild keeps. -/
theorem lastWrite_lost_earlier :
    let s := crashed.appendEntry hasher 50 (write 20)
    (Table.latest key s.log fileKey).map offset = some 1105 ∧
      ((s.rebuilt hasher).get fileKey).map RebuildKvRecord.offset = some 1000 := by
  decide

end LogSession

end AeorDb.Wal
