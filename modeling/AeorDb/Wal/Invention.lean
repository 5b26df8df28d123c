import AeorDb.Wal.SpaceRuns
import AeorDb.Wal.Writer

/-! The log with its bytes. A rebuild scan of it returns only entries that were written and are still whole, as
long as no other part of the log reads as the header of an entry. -/

namespace AeorDb.Wal

open Library Store Header Index EntryHeader List Space

variable {H : Type}

structure ByteFormat (H : Type) where
  hs : Hasher H
  blake3 : Blake3
  keyBytes : H → List UInt8
  hashLength_eq : hs.hashLength = 32
  length_blake3 : ∀ bytes, (blake3 bytes).length = 32
  length_keyBytes : ∀ k, (keyBytes k).length = 32

structure EntryBytes (H : Type) extends NewEntry H where
  value : List UInt8
  flags : UInt8
  compressionAlgo : CompressionAlgorithm
  entryVersion : UInt8
  length_value : value.length = valueLength

structure Disk (H : Type) where
  file : ByteFile
  space : Space H

namespace ByteFormat

variable (fmt : ByteFormat H)

def header (e : EntryBytes H) : EntryHeader where
  entryVersion := e.entryVersion
  entryType := e.entryType
  flags := e.flags
  hashAlgo := .blake3_256
  compressionAlgo := e.compressionAlgo
  encryptionAlgo := 0
  keyLength := (fmt.keyBytes e.key).length
  valueLength := e.value.length
  timestamp := Int64.ofInt e.timestamp
  totalLength := entryLength fmt.hs (fmt.keyBytes e.key).length e.value.length
  hash := fmt.blake3 (entryTypeToU8 e.entryType :: (fmt.keyBytes e.key ++ e.value))

def image (e : EntryBytes H) : List UInt8 := (fmt.header e).serialize ++ fmt.keyBytes e.key ++ e.value

end ByteFormat

namespace Space

variable (hs : Hasher H)

def slot (e : NewEntry H) (s : Space H) : Option VoidRecord :=
  if e.entryType = .chunk then
    (s.voids.takeVoid (minimumUsefulVoidSize hs) (entryLength hs hs.hashLength e.valueLength) s.walStart s.walEnd
      (s.voids.totalVoidSpace + 1)).1
  else none

def place (e : NewEntry H) (s : Space H) : ℕ := ((s.slot hs e).map VoidRecord.offset).getD s.walEnd

end Space

namespace Disk

variable (fmt : ByteFormat H)

def appendBatch (batch : List (EntryBytes H)) (d : Disk H) : Disk H :=
  batch.foldl (fun d e => ⟨d.file.write d.space.walEnd (fmt.image e), d.space.appendEntry fmt.hs e.toNewEntry⟩) d

variable [DecidableEq H]

def fresh (walStart : ℕ) : Disk H := ⟨.ofBytes [], Space.fresh walStart⟩

def storeEntry (fate : H → Fate) (e : EntryBytes H) (d : Disk H) : Disk H :=
  if u32Max < entryLength fmt.hs fmt.hs.hashLength e.valueLength then d
  else ⟨d.file.write (d.space.place fmt.hs e.toNewEntry) (fmt.image e), d.space.storeEntry fmt.hs fate e.toNewEntry⟩

def flushBatch (fate : H → Fate) (batch : List (EntryBytes H)) (d : Disk H) : Disk H :=
  ⟨(appendBatch fmt batch d).file, d.space.flushBatch fmt.hs fate (batch.map EntryBytes.toNewEntry)⟩

inductive Step : Disk H → Disk H → Prop
  | store (fate : H → Fate) (e : EntryBytes H) (d : Disk H) : Step d (d.storeEntry fmt fate e)
  | batch (fate : H → Fate) (batch : List (EntryBytes H)) (d : Disk H) :
      (∀ e ∈ batch, entryLength fmt.hs fmt.hs.hashLength e.valueLength ≤ u32Max) → Step d (d.flushBatch fmt fate batch)
  | delete (k : H) (d : Disk H) : Step d { d with space := d.space.markEntryDeleted k }
  | sweep (live : H → Bool) (d : Disk H) : Step d { d with space := d.space.gcSweep live }
  | gapScan (d : Disk H) : Step d { d with space := d.space.recoverVoidsViaGapScan.syncVoidsToKvWriter }

def Outside (s : Space H) (p : ℕ) : Prop := ∀ r ∈ s.log, p < r.span.start ∨ r.span.stop ≤ p

def Clear (d : Disk H) : Prop :=
  ∀ p, d.space.walStart ≤ p → p < d.file.size → Outside d.space p → ∀ header, deserialize d.file p ≠ .ok header

def Imaged (d : Disk H) : Prop :=
  ∀ r ∈ d.space.log, ∃ e : ScannedEntry, WellFormed fmt.blake3 d.file e ∧ e.offset = r.span.start ∧ e.entryEnd = r.span.stop

/-- Every record of the log is the image of an entry with its key. -/
def Stored (d : Disk H) : Prop :=
  ∀ r ∈ d.space.log, ∃ e : EntryBytes H, e.key = r.key ∧ (fmt.header e).totalLength = r.totalLength ∧
    WellFormed fmt.blake3 d.file ⟨r.offset, fmt.header e, fmt.keyBytes e.key, e.value⟩

end Disk

section

variable {fmt : ByteFormat H} {f : ByteFile} {blake3 : Blake3} {p : ℕ} {e : ScannedEntry}

variable (fmt) in
lemma entryLength_eq (e : EntryBytes H) : entryLength fmt.hs (fmt.keyBytes e.key).length e.value.length =
    entryLength fmt.hs fmt.hs.hashLength e.valueLength := by
  rw [fmt.length_keyBytes, fmt.hashLength_eq, e.length_value]

variable {e : EntryBytes H} (hfit : entryLength fmt.hs fmt.hs.hashLength e.valueLength ≤ u32Max)

include hfit

lemma fits_header : (fmt.header e).Fits := by
  have hlength := entryLength_eq fmt e
  have hmax : u32Max < 2 ^ 32 := by decide
  have hkey := fmt.length_keyBytes e.key
  refine ⟨?_, ?_, ?_, fmt.length_blake3 _⟩
  · change (fmt.keyBytes e.key).length < 2 ^ 32
    omega
  · change e.value.length < 2 ^ 32
    rw [← hlength, entryLength] at hfit
    omega
  · change entryLength fmt.hs (fmt.keyBytes e.key).length e.value.length < 2 ^ 32
    omega

lemma length_image : (fmt.image e).length = entryLength fmt.hs fmt.hs.hashLength e.valueLength := by
  rw [ByteFormat.image, length_append, length_append, length_serialize (fits_header hfit), ← entryLength_eq,
    entryLength, fmt.hashLength_eq]
  rfl

lemma wellFormed_image (f : ByteFile) (p : ℕ) :
    WellFormed fmt.blake3 (f.write p (fmt.image e)) ⟨p, fmt.header e, fmt.keyBytes e.key, e.value⟩ := by
  refine wellFormed_write f p (fits_header hfit) rfl rfl ?_ (by simp [verify, ByteFormat.header])
  change entryLength fmt.hs (fmt.keyBytes e.key).length e.value.length = 63 + ((fmt.keyBytes e.key).length + e.value.length)
  rw [entryLength, fmt.hashLength_eq, fixedHeaderSize]
  omega

end

section

variable [DecidableEq H] {hs : Hasher H} {fate : H → Fate} {s : Space H}

namespace Space

lemma log_storeEntry {e : NewEntry H} (hfit : entryLength hs hs.hashLength e.valueLength ≤ u32Max) :
    (s.storeEntry hs fate e).log = overwrite s.log (recordAt hs e (s.place hs e)) := by
  have hslot : s.slot hs e = (if e.entryType = .chunk then
      s.voids.takeVoid (minimumUsefulVoidSize hs) (entryLength hs hs.hashLength e.valueLength) s.walStart s.walEnd
        (s.voids.totalVoidSpace + 1)
    else (none, s.voids)).1 := by
    rw [slot]
    split_ifs <;> rfl
  rw [storeEntry]
  dsimp only
  rw [if_neg (not_lt.mpr hfit), place, hslot]
  generalize (if e.entryType = .chunk then
      s.voids.takeVoid (minimumUsefulVoidSize hs) (entryLength hs hs.hashLength e.valueLength) s.walStart s.walEnd
        (s.voids.totalVoidSpace + 1)
    else (none, s.voids)) = taken
  obtain ⟨_ | v, rest⟩ := taken
  · dsimp only
    split_ifs <;> rfl
  · rfl

lemma log_foldl_insertKv (xs : List (KVEntry H)) (s : Space H) : (xs.foldl (fun s x => s.insertKv fate x) s).log = s.log := by
  induction xs generalizing s with
  | nil => rfl
  | cons x xs ih => exact ih _

end Space

namespace Disk

variable {fmt : ByteFormat H} {d d' : Disk H}

omit [DecidableEq H] in
lemma space_appendBatch (batch : List (EntryBytes H)) (d : Disk H) :
    (appendBatch fmt batch d).space = (Space.appendBatch fmt.hs (batch.map EntryBytes.toNewEntry) d.space).1 := by
  induction batch using List.reverseRecOn with
  | nil => rfl
  | append_singleton batch e ih =>
    rw [map_append, map_singleton, Space.appendBatch_concat, ← ih]
    simp [appendBatch]

lemma log_flushBatch (batch : List (EntryBytes H)) (d : Disk H) :
    (d.space.flushBatch fmt.hs fate (batch.map EntryBytes.toNewEntry)).log = (appendBatch fmt batch d).space.log := by
  rw [Space.flushBatch, Space.log_foldl_insertKv, space_appendBatch]

section

omit [DecidableEq H]

lemma Stored.imaged (h : d.Stored fmt) : d.Imaged fmt := by
  intro r hr
  obtain ⟨e, _, hlength, hwell⟩ := h r hr
  exact ⟨_, hwell, rfl, congrArg (r.offset + ·) hlength⟩

lemma Stored.write (h : d.Stored fmt) {e : EntryBytes H} (hfit : entryLength fmt.hs fmt.hs.hashLength e.valueLength ≤ u32Max)
    {p : ℕ} {s : Space H} (hlog : s.log = overwrite d.space.log (recordAt fmt.hs e.toNewEntry p)) :
    Stored fmt ⟨d.file.write p (fmt.image e), s⟩ := by
  intro r hr
  rw [hlog] at hr
  rcases mem_append.mp hr with hr | hr
  · obtain ⟨hr, hapart⟩ := mem_filter.mp hr
    obtain ⟨x, hkey, hlength, hx⟩ := h r hr
    refine ⟨x, hkey, hlength, hx.of_write ?_⟩
    rw [ScannedEntry.entryEnd, hlength, length_image hfit]
    exact of_decide_eq_true hapart
  · obtain rfl := mem_singleton.mp hr
    exact ⟨e, rfl, entryLength_eq fmt e, wellFormed_image hfit d.file p⟩

lemma Stored.appendBatch (h : d.Stored fmt) {batch : List (EntryBytes H)}
    (hfit : ∀ e ∈ batch, entryLength fmt.hs fmt.hs.hashLength e.valueLength ≤ u32Max) : (Disk.appendBatch fmt batch d).Stored fmt := by
  induction batch generalizing d with
  | nil => exact h
  | cons e batch ih =>
    obtain ⟨he, hbatch⟩ := forall_mem_cons.mp hfit
    exact ih (h.write he rfl) hbatch

end

lemma Stored.step (h : d.Stored fmt) (hstep : Step fmt d d') : d'.Stored fmt := by
  cases hstep with
  | store fate e =>
    rw [storeEntry]
    split_ifs with hlong
    · exact h
    · exact h.write (not_lt.mp hlong) (log_storeEntry (not_lt.mp hlong))
  | batch fate batch _ hfit =>
    intro r hr
    rw [flushBatch, log_flushBatch] at hr
    exact h.appendBatch hfit r hr
  | delete k =>
    have hlog : (d.space.markEntryDeleted k).log = d.space.log := by
      rw [markEntryDeleted]
      split <;> rfl
    intro r hr
    exact h r (hlog ▸ hr)
  | sweep live =>
    have hlog : (d.space.gcSweep live).log = d.space.log := by
      rw [gcSweep]
      split <;> rfl
    intro r hr
    exact h r (hlog ▸ hr)
  | gapScan => exact h

lemma Step.space (hstep : Step fmt d d') : Relation.ReflGen (Space.Step fmt.hs) d.space d'.space := by
  cases hstep with
  | store fate e =>
    rw [storeEntry]
    split_ifs
    · exact .refl
    · exact .single (.store fate _ _)
  | batch fate batch => exact .single (.batch fate _ _)
  | delete k => exact .single (.delete k _)
  | sweep live => exact .single (.sweep live _)
  | gapScan => exact .single (.gapScan _)

lemma stored_run {walStart : ℕ} (hrun : Relation.ReflTransGen (Step fmt) (fresh walStart) d) : d.Stored fmt ∧ d.space.Sound ∧ d.space.Synced := by
  induction hrun with
  | refl => exact ⟨fun r hr => absurd hr not_mem_nil, Space.sound_fresh walStart, fun v hv => absurd hv not_mem_nil⟩
  | tail _ hstep ih =>
    obtain ⟨hstored, hsound, hsync⟩ := ih
    exact ⟨hstored.step hstep, hsound.run hsync hstep.space.to_reflTransGen⟩

lemma imaged_run {walStart : ℕ} (hrun : Relation.ReflTransGen (Step fmt) (fresh walStart) d) : d.Imaged fmt ∧ d.space.Sound ∧ d.space.Synced :=
  (stored_run hrun).imp_left Stored.imaged

end Disk

end

variable {fmt : ByteFormat H} {f : ByteFile} {d : Disk H} {p q : ℕ} {report : Bool} {e : ScannedEntry} {limit : ℕ}

lemma WellFormed.plausibleAt {blake3 : Blake3} (h : WellFormed blake3 f e) : plausibleAt f f.size e.offset = true := by
  have hend := h.entryEnd_le
  have hlt := h.lt_entryEnd
  rw [ScannedEntry.entryEnd] at hend hlt
  rw [Wal.plausibleAt, h.header]
  simp only [Bool.and_eq_true, decide_eq_true_eq]
  omega

lemma WellFormed.magic {blake3 : Blake3} (h : WellFormed blake3 f e) : f.region e.offset 4 = entryMagic := by
  have hheader := h.header
  rw [deserialize] at hheader
  split at hheader
  · cases hheader
  next fixed hfixed =>
    split_ifs at hheader with hmagic
    rw [not_not] at hmagic
    rw [← hmagic, ← (ByteFile.readExact_eq_some.mp hfixed).2]
    simp [ByteFile.region, ← map_take, take_range, fixedHeaderSize]

lemma scanForNextMagic_le {start : ℕ} (h : scanForNextMagic f limit start = some q) (hstart : start ≤ p) (hmagic : f.region p 4 = entryMagic)
    (hheaded : plausibleAt f limit p = true) : q ≤ p := by
  rw [scanForNextMagic] at h
  split_ifs at h
  rw [find?_map, Option.map_eq_some_iff] at h
  obtain ⟨i, hi, rfl⟩ := h
  obtain ⟨-, -, hfirst⟩ := find?_range_eq_some.mp hi
  by_contra hlt
  have hnot := hfirst (p - start) (by omega)
  rw [Function.comp_apply, Nat.add_sub_cancel' hstart, hmagic, hheaded] at hnot
  simp at hnot

lemma scanForNextMagic_spec {start : ℕ} (h : scanForNextMagic f limit start = some q) :
    start ≤ q ∧ q < f.size ∧ plausibleAt f limit q = true := by
  rw [scanForNextMagic] at h
  split_ifs at h
  have hfound := find?_some h
  obtain ⟨i, hi, rfl⟩ := mem_map.mp (mem_of_find?_eq_some h)
  rw [mem_range] at hi
  simp only [Bool.and_eq_true] at hfound
  exact ⟨Nat.le_add_right _ _, by omega, hfound.2⟩

namespace Disk

def Visits (d : Disk H) (p : ℕ) : Prop := d.space.walStart ≤ p ∧ ((∃ r ∈ d.space.log, r.span.start = p) ∨ Outside d.space p)

variable [DecidableEq H]

lemma visits_stop (hsound : d.space.Sound) {r : LogRecord H} (hr : r ∈ d.space.log) : d.Visits r.span.stop := by
  obtain ⟨hpos, hlo, _⟩ := hsound.logIn r hr
  refine ⟨hlo.trans (Nat.le_add_right _ _), ?_⟩
  by_cases hnext : ∃ r' ∈ d.space.log, r'.span.start = r.span.stop
  · exact .inl hnext
  · refine .inr fun r' hr' => ?_
    by_cases heq : r = r'
    · exact .inr (heq ▸ le_rfl)
    · have hne : r'.span.start ≠ r.span.stop := fun h => hnext ⟨r', hr', h⟩
      have hstart : r.span.start ≤ r.span.stop := Nat.le_add_right _ _
      rcases hsound.recordsApart hr hr' heq with h | h <;> omega

omit [DecidableEq H] in
lemma visits_search (himg : d.Imaged fmt) (hclear : d.Clear) (hp : d.space.walStart ≤ p) (hout : Outside d.space p)
    (hnext : scanForNextMagic d.file d.file.size (p + 1) = some q) : d.Visits q := by
  obtain ⟨hq, hsize, hheaded⟩ := scanForNextMagic_spec hnext
  have hstart : d.space.walStart ≤ q := by omega
  have hinside : ¬ Outside d.space q := by
    intro houtq
    rw [plausibleAt] at hheaded
    cases hheader : deserialize d.file q with
    | error err =>
      rw [hheader] at hheaded
      cases hheaded
    | ok header => exact hclear q hstart hsize houtq header hheader
  simp only [Outside, not_forall, not_or, not_lt, not_le] at hinside
  obtain ⟨r, hr, hlo, hhi⟩ := hinside
  refine ⟨hstart, .inl ⟨r, hr, le_antisymm hlo ?_⟩⟩
  obtain ⟨e, he, heoffset, _⟩ := himg r hr
  -- the entry that the position is in starts behind `p`, so the search would have stopped there
  have hbehind : p + 1 ≤ e.offset := by
    rcases hout r hr with h | h <;> omega
  exact heoffset ▸ scanForNextMagic_le hnext hbehind he.magic he.plausibleAt

lemma visits_position (himg : d.Imaged fmt) (hsound : d.space.Sound) (hclear : d.Clear) (hp : d.Visits p)
    (hq : (nextRebuildEntry fmt.blake3 d.file d.file.size report p).position? = some q) : d.Visits q := by
  obtain ⟨hstart, ⟨r, hr, rfl⟩ | hout⟩ := hp
  · obtain ⟨e, he, hoffset, hend⟩ := himg r hr
    rw [← hoffset, he.nextRebuildEntry he.entryEnd_le] at hq
    cases hq
    exact hend ▸ visits_stop hsound hr
  · by_cases hlt : p < d.file.size
    · cases hheader : deserialize d.file p with
      | ok header => exact absurd hheader (hclear p hstart hlt hout header)
      | error err =>
        rw [nextRebuildEntry_of_error hlt hheader, passHeader] at hq
        split_ifs at hq
        · cases hq
        · cases hnext : scanForNextMagic d.file d.file.size (p + 1) with
          | none =>
            rw [hnext] at hq
            cases hq
          | some q' =>
            rw [hnext, position_passOver] at hq
            cases hq
            exact visits_search himg hclear hstart hout hnext
    · rw [nextRebuildEntry_stop (not_lt.mp hlt)] at hq
      cases hq

omit [DecidableEq H] in
lemma start_of_yield (hclear : d.Clear) (hp : d.Visits p) {x : ScannedRebuildEntry}
    (hyield : nextRebuildEntry fmt.blake3 d.file d.file.size report p = .yield (.ok x) q) : ∃ r ∈ d.space.log, r.span.start = p := by
  obtain ⟨hstart, hentry | hout⟩ := hp
  · exact hentry
  · exfalso
    by_cases hlt : p < d.file.size
    · cases hheader : deserialize d.file p with
      | ok header => exact hclear p hstart hlt hout header hheader
      | error err =>
        rw [nextRebuildEntry_of_error hlt hheader, passHeader] at hyield
        split_ifs at hyield
        split at hyield
        · cases hyield
        · cases report <;> cases hyield
    · rw [nextRebuildEntry_stop (not_lt.mp hlt)] at hyield
      cases hyield

/-- Whatever a rebuild scan returns was written there and is still whole, if nothing else in the log reads as a
header. -/
theorem rebuild_invents_nothing {walStart : ℕ} (hrun : Relation.ReflTransGen (Step fmt) (fresh walStart) d) (hclear : d.Clear) {n : ℕ}
    {items : List (Except CorruptEntry ScannedRebuildEntry)}
    (hscan : Turn.scan (nextRebuildEntry fmt.blake3 d.file d.file.size report) n d.space.walStart = some items) :
    ∀ x, .ok x ∈ items → ∃ r ∈ d.space.log, r.offset = x.offset := by
  intro x hx
  obtain ⟨himg, hsound, _⟩ := imaged_run hrun
  obtain ⟨p, q, hreach, hyield⟩ := Turn.exists_of_mem_scan hscan hx
  have hfirst : d.Visits d.space.walStart := by
    refine ⟨le_rfl, ?_⟩
    by_cases hentry : ∃ r ∈ d.space.log, r.span.start = d.space.walStart
    · exact .inl hentry
    · refine .inr fun r hr => .inl ((hsound.logIn r hr).2.1.lt_of_ne fun h => hentry ⟨r, hr, h.symm⟩)
  have hvisits : d.Visits p := by
    clear hyield
    induction hreach with
    | refl => exact hfirst
    | tail _ hstep ih => exact visits_position himg hsound hclear ih hstep
  obtain ⟨r, hr, hstart⟩ := start_of_yield hclear hvisits hyield
  exact ⟨r, hr, hstart.trans (offset_of_yield hyield).symm⟩

def sampleBytes : ByteFormat Digest where
  hs := Digest.hasher
  blake3 := zeroHash
  keyBytes k := List.replicate 32 (if k = chunkKey 1 then 1 else 2)
  hashLength_eq := rfl
  length_blake3 _ := rfl
  length_keyBytes _ := by simp

def chunkOf (key : Digest) (value : List UInt8) : EntryBytes Digest where
  entryType := .chunk
  kvType := 0
  key := key
  valueLength := value.length
  timestamp := 1
  deletes := none
  value := value
  flags := 0
  compressionAlgo := .none
  entryVersion := 0
  length_value := rfl

def reused (value value' : List UInt8) : Disk Digest :=
  storeEntry sampleBytes everywhere (chunkOf (chunkKey 2) value')
    (let d := storeEntry sampleBytes everywhere (chunkOf (chunkKey 1) value) (fresh 1000)
    { d with space := d.space.gcSweep fun _ => false })

lemma run_reused (value value' : List UInt8) : Relation.ReflTransGen (Step sampleBytes) (fresh 1000) (reused value value') := by
  apply Relation.ReflTransGen.tail _ (.store everywhere _ _)
  apply Relation.ReflTransGen.tail _ (.sweep (fun _ => false) _)
  exact .single (.store everywhere _ _)

def found (d : Disk Digest) : Option (List (Except CorruptEntry ScannedRebuildEntry)) :=
  Turn.scan (nextRebuildEntry sampleBytes.blake3 d.file d.file.size true) 3 d.space.walStart

theorem rebuild_invents_nothing_filled : ∃ items, found (reused [5] [6]) = some items ∧ items.length = 1 ∧
    ∀ x, .ok x ∈ items → ∃ r ∈ (reused [5] [6]).space.log, r.offset = x.offset := by
  have hclear : (reused [5] [6]).Clear := by
    intro p hstart hsize hout
    have hlog : (reused [5] [6]).space.log.map LogRecord.span = [⟨1000, 96⟩] := by decide +kernel
    have hend : (reused [5] [6]).file.size = 1096 := by decide +kernel
    have hbegin : (reused [5] [6]).space.walStart = 1000 := by decide +kernel
    obtain ⟨r, hr, hspan⟩ : ∃ r ∈ (reused [5] [6]).space.log, r.span = ⟨1000, 96⟩ := mem_map.mp (by simp [hlog])
    have hin := hout r hr
    simp only [hspan, Span.stop] at hin
    omega
  have hscan : (found (reused [5] [6])).map List.length = some 1 := by decide +kernel
  obtain ⟨items, hitems, hlength⟩ := Option.map_eq_some_iff.mp hscan
  exact ⟨items, hitems, hlength, rebuild_invents_nothing (run_reused [5] [6]) hclear hitems⟩

def forged : EntryHeader := ⟨0, .chunk, 0, .blake3_256, .none, 0, 0, 0, 5, 63, List.replicate 32 0⟩

theorem rebuild_invents_entry : ∃ d : Disk Digest, Relation.ReflTransGen (Step sampleBytes) (fresh 1000) d ∧
    ∃ items x, found d = some items ∧ .ok x ∈ items ∧ x.offset = 1095 ∧ ∀ r ∈ d.space.log, r.offset ≠ x.offset := by
  refine ⟨reused forged.serialize [], run_reused _ _, ?_⟩
  have hscan : (found (reused forged.serialize [])).map (fun items => items.contains (.ok ⟨1095, forged, [], none⟩)) = some true := by
    decide +kernel
  obtain ⟨items, hitems, hmem⟩ := Option.map_eq_some_iff.mp hscan
  exact ⟨items, _, hitems, by simpa using hmem, rfl, by decide +kernel⟩

end Disk

end AeorDb.Wal
