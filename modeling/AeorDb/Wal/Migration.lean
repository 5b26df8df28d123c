import AeorDb.Header.Upgrade
import AeorDb.Store.Digest
import AeorDb.Wal.HotIndexSpec
import AeorDb.Wal.Startup

/-! A file of an older version is moved back by one header slot, and then opened. -/

namespace AeorDb.Wal

open Library Store Index RebuildKvRecord ByteFile List Header HotIndex

section

def Reason.moved (shift : ℕ) : Reason → Reason
  | .pastScanEnd entryEnd fileLength => .pastScanEnd (entryEnd + shift) (fileLength + shift)
  | reason => reason

def ScannedRebuildEntry.moved (shift : ℕ) (e : ScannedRebuildEntry) : ScannedRebuildEntry := { e with offset := e.offset + shift }

def movedItem (shift : ℕ) : Except CorruptEntry ScannedRebuildEntry → Except CorruptEntry ScannedRebuildEntry
  | .ok e => .ok (e.moved shift)
  | .error c => .error ⟨c.offset + shift, c.reason.moved shift⟩

variable {f g : ByteFile} {start shift p limit : ℕ} {report : Bool} {blake3 : Blake3}

lemma deserialize_moved (h : f.Moved start shift g) (hp : start ≤ p) : EntryHeader.deserialize g (p + shift) = EntryHeader.deserialize f p := by
  have hhash (n : ℕ) : g.readExact (p + shift + fixedHeaderSize) n = f.readExact (p + fixedHeaderSize) n := by
    rw [Nat.add_right_comm, h.readExact (hp.trans (Nat.le_add_right _ _))]
  simp only [EntryHeader.deserialize, h.readExact hp, hhash]

lemma find_moved {l : List ℕ} {pred pred' : ℕ → Bool} (h : ∀ c ∈ l, pred' (c + shift) = pred c) :
    (l.map (· + shift)).find? pred' = (l.find? pred).map (· + shift) := by
  rw [find?_map]
  congr 1
  induction l with
  | nil => rfl
  | cons c l ih =>
    obtain ⟨hc, hl⟩ := forall_mem_cons.mp h
    rw [find?_cons, find?_cons, ih hl, Function.comp_apply, hc]

lemma scanForNextMagic_moved (h : f.Moved start shift g) (hp : start ≤ p) :
    scanForNextMagic g (limit + shift) (p + shift) = (scanForNextMagic f limit p).map (· + shift) := by
  have hwindow : min (p + shift + maxScan) (limit + shift) - (p + shift) = min (p + maxScan) limit - p := by omega
  have hbuffer : g.size - (p + shift) = f.size - p := by
    rw [h.size]
    omega
  have hplaces (n : ℕ) : (List.range n).map (p + shift + ·) = ((List.range n).map (p + ·)).map (· + shift) := by
    rw [map_map]
    exact map_congr_left fun i _ => Nat.add_right_comm p shift i
  rw [scanForNextMagic, scanForNextMagic, hwindow, hbuffer]
  dsimp only
  split_ifs
  · rfl
  · rw [hplaces]
    apply find_moved
    intro c hc
    obtain ⟨i, -, rfl⟩ := mem_map.mp hc
    have hstart : start ≤ p + i := hp.trans (Nat.le_add_right _ _)
    rw [h.region hstart, plausibleAt, plausibleAt, deserialize_moved h hstart, Nat.add_sub_add_right]

lemma passOver_moved (reason : Reason) (offset q : ℕ) :
    passOver report (offset + shift) (reason.moved shift) (q + shift) = (passOver report offset reason q).map (movedItem shift) shift := by
  cases report <;> rfl

section

variable (h : f.Moved start shift g) (hp : start ≤ p)
include h hp

lemma passHeader_moved (error : EntryError) :
    passHeader g (limit + shift) report (p + shift) error = (passHeader f limit report p error).map (movedItem shift) shift := by
  have hscan : scanForNextMagic g (limit + shift) (p + shift + 1) = (scanForNextMagic f limit (p + 1)).map (· + shift) := by
    rw [Nat.add_right_comm p shift 1]
    exact scanForNextMagic_moved h (Nat.le_add_right_of_le hp)
  rw [passHeader, passHeader, hscan]
  generalize scanForNextMagic f limit (p + 1) = next
  by_cases heof : error = .unexpectedEof
  · rw [if_pos heof, if_pos heof]
    rfl
  · rw [if_neg heof, if_neg heof]
    cases next with
    | none => rfl
    | some q => exact passOver_moved (.corruptHeader error) p q

lemma rebuildPayload_moved (header : EntryHeader) :
    rebuildPayload blake3 g report (p + shift) header = (rebuildPayload blake3 f report p header).map (movedItem shift) shift := by
  have hkey (n : ℕ) : g.readExact (p + shift + header.headerSize) n = f.readExact (p + header.headerSize) n := by
    rw [Nat.add_right_comm, h.readExact (hp.trans (Nat.le_add_right _ _))]
  have hvalue (n : ℕ) : g.readExact (p + shift + header.headerSize + header.keyLength) n =
      f.readExact (p + header.headerSize + header.keyLength) n := by
    rw [show p + shift + header.headerSize + header.keyLength = p + header.headerSize + header.keyLength + shift by omega,
      h.readExact (by omega)]
  rw [rebuildPayload, rebuildPayload, hkey, hvalue, Nat.add_right_comm]
  cases f.readExact (p + header.headerSize) header.keyLength with
  | none => exact passOver_moved .ioKey p _
  | some key =>
    split_ifs with hplain
    · rfl
    · cases f.readExact (p + header.headerSize + header.keyLength) header.valueLength with
      | none => exact passOver_moved .ioValue p _
      | some value =>
        dsimp only
        split_ifs
        · rfl
        · exact passOver_moved .hashVerificationFailed p _

lemma nextRebuildEntry_moved : nextRebuildEntry blake3 g (limit + shift) report (p + shift) =
      (nextRebuildEntry blake3 f limit report p).map (movedItem shift) shift := by
  rw [nextRebuildEntry, nextRebuildEntry, deserialize_moved h hp]
  by_cases hend : limit ≤ p
  · rw [if_pos hend, if_pos (by omega)]
    rfl
  · rw [if_neg hend, if_neg (by omega)]
    cases EntryHeader.deserialize f p with
    | error error => exact passHeader_moved h hp error
    | ok header =>
      dsimp only
      by_cases hlength : header.totalLength = header.headerSize + (header.keyLength + header.valueLength)
      · rw [if_neg (not_not.mpr hlength), if_neg (not_not.mpr hlength), Nat.add_right_comm]
        by_cases hpast : limit < p + header.totalLength
        · rw [if_pos hpast, if_pos (by omega)]
          cases report <;> rfl
        · rw [if_neg hpast, if_neg (by omega)]
          exact rebuildPayload_moved h hp header
      · rw [if_pos hlength, if_pos hlength, Nat.add_right_comm]
        exact passOver_moved (.notTotalLength header.keyLength header.valueLength header.headerSize header.totalLength) p _

end

lemma scanRebuildEntries_moved (fmt : DiskFormat) (h : f.Moved start shift g) (hp : start ≤ p) :
    fmt.scanRebuildEntries g (p + shift) (limit + shift) = (fmt.scanRebuildEntries f p limit).map (ScannedRebuildEntry.moved shift) := by
  have hscan : Turn.scan (nextRebuildEntry fmt.blake3 g (limit + shift) true) (limit - p + 1) (p + shift) =
      (Turn.scan (nextRebuildEntry fmt.blake3 f limit true) (limit - p + 1) p).map (List.map (movedItem shift)) :=
    Turn.scan_map (fun q hq => nextRebuildEntry_moved h hq) (fun q r hq hr => hq.trans (nextRebuildEntry_forward hr).le) _ hp
  rw [DiskFormat.scanRebuildEntries, DiskFormat.scanRebuildEntries, Nat.add_sub_add_right, hscan]
  cases Turn.scan (nextRebuildEntry fmt.blake3 f limit true) (limit - p + 1) p with
  | none => rfl
  | some items =>
    simp only [Option.map_some, Option.getD_some, filterMap_map, map_filterMap]
    refine filterMap_congr fun item _ => ?_
    cases item <;> rfl

end

section

def RebuildOrder.moved (shift : ℕ) (order : RebuildOrder) : RebuildOrder := { order with offset := order.offset + shift }

def RebuildKvRecord.moved {H : Type} (shift : ℕ) (r : RebuildKvRecord H) : RebuildKvRecord H :=
  { r with
    offset := r.offset + shift
    order := r.order.moved shift }

lemma isAfter_moved (shift : ℕ) (a b : RebuildOrder) : (a.moved shift).isAfter (b.moved shift) = a.isAfter b := by
  have hoffset : decide (b.offset + shift < a.offset + shift) = decide (b.offset < a.offset) :=
    decide_eq_decide.mpr Nat.add_lt_add_iff_right
  change (decide (b.timestamp < a.timestamp) || decide (a.timestamp = b.timestamp) && decide (b.offset + shift < a.offset + shift)) = _
  rw [hoffset]
  rfl

variable {H : Type} {shift : ℕ}

lemma shouldReplace_moved (a b : RebuildKvRecord H) :
    shouldReplaceRebuildRecord (a.moved shift) (b.moved shift) = shouldReplaceRebuildRecord a b := by
  have horder : (b.moved shift).order.isAfter (a.moved shift).order = b.order.isAfter a.order := isAfter_moved shift b.order a.order
  rw [shouldReplaceRebuildRecord, shouldReplaceRebuildRecord, horder]
  rfl

variable [DecidableEq H] {t t' : RebuildKvRecords H}

def MovedTo (shift : ℕ) (t t' : RebuildKvRecords H) : Prop := ∀ k, t'.get k = (t.get k).map (moved shift)

lemma MovedTo.insert (h : MovedTo shift t t') (r : RebuildKvRecord H) : MovedTo shift (t.insert r) (t'.insert (r.moved shift)) := by
  intro k
  rw [Table.get_insert, Table.get_insert, h k]
  change (if k = r.hash then _ else _) = _
  split_ifs <;> rfl

lemma MovedTo.resolve (h : MovedTo shift t t') (r : RebuildKvRecord H) :
    MovedTo shift (resolveRebuildRecord t r) (resolveRebuildRecord t' (r.moved shift)) := by
  have hget : t'.get (r.moved shift).hash = (t.get r.hash).map (moved shift) := h r.hash
  rw [resolveRebuildRecord, resolveRebuildRecord, hget]
  cases t.get r.hash with
  | none => exact h.insert r
  | some existing =>
    change MovedTo shift _ (if shouldReplaceRebuildRecord (existing.moved shift) (r.moved shift) then _ else _)
    rw [shouldReplace_moved]
    dsimp only
    split_ifs
    · exact h.insert r
    · exact h

lemma MovedTo.mark (h : MovedTo shift t t') (order : RebuildOrder) (k : H) :
    MovedTo shift (markRebuildRecordDeletedIfOlder order t k) (markRebuildRecordDeletedIfOlder (order.moved shift) t' k) := by
  rw [markRebuildRecordDeletedIfOlder, markRebuildRecordDeletedIfOlder, h k]
  cases t.get k with
  | none => exact h
  | some entry =>
    have hafter : (order.moved shift).isAfter (entry.moved shift).order = order.isAfter entry.order := isAfter_moved shift order entry.order
    change MovedTo shift _ (if (order.moved shift).isAfter (entry.moved shift).order then _ else _)
    rw [hafter]
    dsimp only
    split_ifs
    · exact h.insert { entry with typeFlags := entry.typeFlags &&& 0x0F ||| kvFlagDeleted }
    · exact h

lemma MovedTo.replay (h : MovedTo shift t t') (hs : Hasher H) (deletion : Str × RebuildOrder) :
    MovedTo shift (replayDeletionRecord hs t deletion) (replayDeletionRecord hs t' (deletion.1, deletion.2.moved shift)) := by
  rw [replayDeletionRecord, replayDeletionRecord]
  generalize deletionKeys hs deletion.1 = keys
  induction keys generalizing t t' with
  | nil => exact h
  | cons key keys ih => exact ih (h.mark deletion.2 key)

lemma movedTo_resolveRebuildRecords (hs : Hasher H) (records : List (RebuildKvRecord H)) (deletions : List (Str × RebuildOrder)) :
    MovedTo shift (resolveRebuildRecords hs records deletions) (resolveRebuildRecords hs (records.map (moved shift))
      (deletions.map fun d => (d.1, d.2.moved shift))) := by
  rw [resolveRebuildRecords, resolveRebuildRecords, foldl_map, foldl_map]
  apply foldl_rel
  · apply foldl_rel
    · exact fun _ => rfl
    · exact fun r _ t t' h => h.resolve r
  · exact fun d _ t t' h => h.replay hs d

end

open Header (fileHeaderSize OldFile Upgraded)

namespace DiskFormat

variable (fmt : DiskFormat) {f g : ByteFile} {h new : Header.FileHeader} {start shift p : ℕ}
  (hf : OldFile f h) (hm : f.Moved fileHeaderSize fileHeaderSize g) (hu : Upgraded f h new)

lemma readHotTail_moved (crc32 : Header.Crc32) (hm : f.Moved start shift g) (hp : start ≤ p) (hashLength : ℕ) :
    readHotTail crc32 g (p + shift) hashLength = readHotTail crc32 f p hashLength := by
  have hbody (n : ℕ) : g.readExact (p + shift + hotTailHeaderSize) n = f.readExact (p + hotTailHeaderSize) n := by
    rw [Nat.add_right_comm, hm.readExact (Nat.le_add_right_of_le hp)]
  simp only [readHotTail, hm.readExact hp, hbody]

lemma readHotTail_of_size_lt (crc32 : Header.Crc32) (hp : f.size < p + hotTailHeaderSize) (hashLength : ℕ) :
    readHotTail crc32 f p hashLength = none := by
  rw [readHotTail, readExact, if_neg (by omega)]
  rfl

include hf hm hu in
lemma hotTail_moved : fmt.hotTail g new = fmt.hotTail f h := by
  have hblock := hf.block
  have hhot := hf.hotTail
  rw [hotTail, hotTail, hu.hotTailOffset, hu.hashAlgo]
  by_cases hpast : f.size < h.hotTailOffset.toNat
  · have hend : g.size < f.size + fileHeaderSize + hotTailHeaderSize := by
      rw [hm.size]
      exact Nat.lt_add_of_pos_right (by decide)
    rw [Nat.min_eq_right hpast.le, readHotTail_of_size_lt _ hend, readHotTail_of_size_lt _ (Nat.lt_add_right _ hpast)]
  · rw [Nat.min_eq_left (not_lt.mp hpast), readHotTail_moved _ hm (by omega)]

include hf hm hu in
lemma pages_moved : pages g new = pages f h := by
  have hread (bucket n : ℕ) : g.readExact (h.kvBlockOffset.toNat + fileHeaderSize + bucket * n) n =
      f.readExact (h.kvBlockOffset.toNat + bucket * n) n := by
    rw [Nat.add_right_comm, hm.readExact (Nat.le_add_right_of_le hf.block)]
  simp only [pages, bucketCount, hu.hashAlgo, hu.kvBlockStage, hu.kvBlockOffset, hread]

lemma walStart_moved (hu : Upgraded f h new) : walStart new = walStart h + fileHeaderSize := by
  rw [walStart, walStart, hu.kvBlockOffset, hu.kvBlockLength]
  omega

lemma le_walStart (hf : OldFile f h) : fileHeaderSize ≤ walStart h := Nat.le_add_right_of_le hf.block

include hf hm hu in
lemma scanRange_moved : scanRange g new (2 * fileHeaderSize) =
      ((scanRange f h fileHeaderSize).1 + fileHeaderSize, (scanRange f h fileHeaderSize).2 + fileHeaderSize) := by
  have hpos : 0 < h.kvBlockOffset.toNat + fileHeaderSize ∧ 0 < h.kvBlockOffset.toNat := by
    have hblock := hf.block
    have hheader : 0 < fileHeaderSize := by decide
    omega
  have hlayout : h.kvBlockOffset.toNat + fileHeaderSize = 2 * fileHeaderSize ↔ h.kvBlockOffset.toNat = fileHeaderSize := by omega
  simp only [scanRange, walStart_moved hu, hm.size, hu.kvBlockOffset, hu.kvBlockLength, hlayout, hpos, true_and]
  split_ifs
  · rfl
  · rw [two_mul]
  · rw [two_mul]

lemma le_scanRange (hf : OldFile f h) : fileHeaderSize ≤ (scanRange f h fileHeaderSize).1 := by
  rw [scanRange]
  split_ifs
  · exact le_walStart hf
  · exact le_rfl
  · exact le_rfl

variable {entries : List ScannedRebuildEntry} {entry : EntryData} {k : Key}

lemma le_maxEnd {e : ScannedRebuildEntry} (he : e ∈ entries) :
    e.offset + e.header.totalLength ≤ maxEnd entries :=
  le_max?_getD_of_mem (mem_map_of_mem he)

lemma resolved_moved (entries : List ScannedRebuildEntry) :
    MovedTo shift (fmt.resolved entries) (fmt.resolved (entries.map (ScannedRebuildEntry.moved shift))) := by
  have hrecords : (entries.map (ScannedRebuildEntry.moved shift)).map toRecord = (entries.map toRecord).map (moved shift) := by
    rw [map_map, map_map]
    rfl
  have hdeletions : (entries.map (ScannedRebuildEntry.moved shift)).filterMap fmt.toDeletion =
      (entries.filterMap fmt.toDeletion).map fun d => (d.1, d.2.moved shift) := by
    rw [filterMap_map, map_filterMap]
    refine filterMap_congr fun e _ => ?_
    rw [Function.comp_apply, toDeletion, toDeletion]
    change (if e.header.entryType = .deletionRecord then _ else _) = _
    split_ifs
    · rw [Option.map_map]
      rfl
    · rfl
  rw [resolved, resolved, hrecords, hdeletions]
  exact movedTo_resolveRebuildRecords fmt.hs _ _

lemma readEntryAtShared_moved (hm : f.Moved start shift g) (hp : start ≤ p) : readEntryAtShared g (p + shift) = readEntryAtShared f p := by
  simp only [readEntryAtShared, hm.readExact hp, deserialize_moved hm hp]

lemma getEntry_eq_ok {e : OpenedEngine} :
    e.getEntry k = .ok (some entry) ↔ ∃ x, e.lookup k = some x ∧ validReusableRange x.offset x.totalLength e.walStart e.walEnd = true ∧
      readEntryAtShared e.file x.offset = .ok entry := by
  rw [OpenedEngine.getEntry]
  cases e.lookup k with
  | none => simp
  | some x =>
    dsimp only
    split_ifs with hvalid
    · rw [Result.map_eq_ok]
      constructor
      · rintro ⟨entry', hread, hentry⟩
        cases hentry
        exact ⟨x, rfl, hvalid, hread⟩
      · rintro ⟨y, hy, -, hread⟩
        cases hy
        exact ⟨entry, hread, rfl⟩
    · refine iff_of_false (by simp) ?_
      rintro ⟨y, hy, hy', -⟩
      cases hy
      exact hvalid hy'

lemma validReusableRange_iff {offset size walStart walEnd : ℕ} :
    validReusableRange offset size walStart walEnd = true ↔ size ≠ 0 ∧ walStart ≤ offset ∧ offset + size ≤ walEnd := by
  simp only [validReusableRange, Bool.and_eq_true, decide_eq_true_eq]
  omega

lemma lookup_rebuildKv {x : KVEntry Key} : (fmt.rebuildKv f h entries).lookup k = some x ↔
      ∃ r, (fmt.resolved entries).get k = some r ∧ r.toKvEntry = x ∧ x.isDeleted = false := by
  change (((fmt.resolved entries).get k).map toKvEntry).filter (fun x => !x.isDeleted) = some x ↔ _
  rw [Option.filter_eq_some_iff, Option.map_eq_some_iff]
  constructor
  · rintro ⟨⟨r, hr, hx⟩, hlive⟩
    exact ⟨r, hr, hx, by simpa using hlive⟩
  · rintro ⟨r, hr, hx, hlive⟩
    exact ⟨⟨r, hr, hx⟩, by simpa using hlive⟩

include hf hm hu in
lemma rebuildKv_getEntry (entries : List ScannedRebuildEntry)
    (hget : (fmt.rebuildKv f h entries).getEntry k = .ok (some entry)) :
    (fmt.rebuildKv g new (entries.map (ScannedRebuildEntry.moved fileHeaderSize))).getEntry k = .ok (some entry) := by
  obtain ⟨x, hx, hvalid, hread⟩ := getEntry_eq_ok.mp hget
  obtain ⟨r, hr, rfl, hlive⟩ := (fmt.lookup_rebuildKv).mp hx
  obtain ⟨hsize, hstart, -⟩ := validReusableRange_iff.mp hvalid
  have hr' : (fmt.resolved (entries.map (ScannedRebuildEntry.moved fileHeaderSize))).get k = some (r.moved fileHeaderSize) := by
    rw [fmt.resolved_moved entries k, hr]
    rfl
  -- the record stands for an entry of the log, which gives the bound on its end
  obtain ⟨s, hs, -, hoffset, hlength⟩ := placed_resolveRebuildRecords fmt.hs (entries.map toRecord) (entries.filterMap fmt.toDeletion) r
    (Table.get_eq_some.mp hr).1
  obtain ⟨e, he, rfl⟩ := mem_map.mp hs
  have hend := le_maxEnd (mem_map_of_mem he : e.moved fileHeaderSize ∈ entries.map (ScannedRebuildEntry.moved fileHeaderSize))
  refine getEntry_eq_ok.mpr ⟨(r.moved fileHeaderSize).toKvEntry, (fmt.lookup_rebuildKv).mpr ⟨_, hr', rfl, hlive⟩, ?_, ?_⟩
  · refine validReusableRange_iff.mpr ⟨hsize, ?_, ?_⟩
    · change walStart new ≤ r.offset + fileHeaderSize
      rw [walStart_moved hu]
      exact Nat.add_le_add_right hstart _
    · refine le_trans ?_ (le_max_right _ _)
      refine le_trans (le_of_eq ?_) hend
      change r.offset + fileHeaderSize + r.totalLength = e.offset + fileHeaderSize + e.header.totalLength
      rw [← hoffset, ← hlength]
      rfl
  · rw [← hread]
    exact readEntryAtShared_moved hm ((le_walStart hf).trans hstart)

section

variable {voids voids' : List VoidRecord} {b : Entries Key} {k : Key} {x y : KVEntry Key}

def Overlaps (voids : List VoidRecord) (x : KVEntry Key) : Prop :=
  entryOverlapsVoidRanges (buildMergedVoidRanges voids) x = true

instance (voids : List VoidRecord) (x : KVEntry Key) : Decidable (Overlaps voids x) :=
  inferInstanceAs (Decidable (_ = true))

lemma Overlaps.mono (hsub : ∀ v ∈ voids', v ∈ voids) (h : Overlaps voids' x) : Overlaps voids x := by
  obtain ⟨hx, v, hv, hmeet⟩ := overlaps_merged_iff.mp h
  exact overlaps_merged_iff.mpr ⟨hx, v, hsub v hv, hmeet⟩

lemma get_maskVoided (voids : List VoidRecord) (b : Entries Key) (x : KVEntry Key) (k : Key) : (maskVoided voids b x).get k =
      if k = x.hash ∧ b.get k = none ∧ Overlaps voids x then some (markedDeleted x) else b.get k := by
  have hmask : maskVoided voids b x =
      if (b.get x.hash).isSome then b else if Overlaps voids x then b.insert (markedDeleted x) else b := rfl
  rw [hmask]
  by_cases hk : k = x.hash
  · subst hk
    cases hget : b.get x.hash with
    | some y => simp [hget]
    | none =>
      by_cases hover : Overlaps voids x
      · rw [Option.isSome_none, if_neg Bool.false_ne_true, if_pos hover, if_pos ⟨rfl, rfl, hover⟩]
        exact (Table.get_insert _ _ _).trans (if_pos rfl)
      · rw [Option.isSome_none, if_neg Bool.false_ne_true, if_neg hover, if_neg fun h => hover h.2.2]
        exact hget
  · have hother : ¬ (k = x.hash ∧ b.get k = none ∧ Overlaps voids x) := fun h => hk h.1
    rw [if_neg hother]
    split_ifs
    · rfl
    · exact (Table.get_insert _ _ _).trans (if_neg hk)
    · rfl

lemma get_masked_of_some (xs : List (KVEntry Key)) (hb : b.get k = some y) : (xs.foldl (maskVoided voids) b).get k = some y := by
  induction xs generalizing b with
  | nil => exact hb
  | cons x xs ih =>
    apply ih
    rw [get_maskVoided, if_neg fun h => by simp [hb] at h, hb]

lemma get_masked_of_none (voids : List VoidRecord) (xs : List (KVEntry Key)) (hb : b.get k = none) :
    (∃ y, (xs.foldl (maskVoided voids) b).get k = some y ∧ y.isDeleted = true) ∨
      (xs.foldl (maskVoided voids) b).get k = none ∧ ∀ x ∈ xs, x.hash = k → ¬ Overlaps voids x := by
  induction xs generalizing b with
  | nil => exact .inr ⟨hb, fun _ hx => absurd hx not_mem_nil⟩
  | cons x xs ih =>
    rw [foldl_cons]
    have hget := get_maskVoided voids b x k
    by_cases hmask : k = x.hash ∧ b.get k = none ∧ Overlaps voids x
    · rw [if_pos hmask] at hget
      refine .inl ⟨_, get_masked_of_some xs hget, ?_⟩
      exact isDeleted_of_flag x x.typeFlags
    · rw [if_neg hmask, hb] at hget
      refine (ih hget).imp_right ?_
      rintro ⟨hnone, hrest⟩
      refine ⟨hnone, forall_mem_cons.mpr ⟨?_, hrest⟩⟩
      exact fun hk hover => hmask ⟨hk.symm, hb, hover⟩

lemma get_masked_eq_none {xs : List (KVEntry Key)} (hb : b.get k = none) (hxs : ∀ x ∈ xs, x.hash = k → ¬ Overlaps voids x) :
    (xs.foldl (maskVoided voids) b).get k = none := by
  induction xs generalizing b with
  | nil => exact hb
  | cons x xs ih =>
    obtain ⟨hx, hrest⟩ := forall_mem_cons.mp hxs
    refine ih ?_ hrest
    rw [get_maskVoided, if_neg fun h => hx h.1.symm h.2.2, hb]

lemma lookup_mono (hsub : ∀ v ∈ voids', v ∈ voids) {pages : List (List UInt8)} {writes : List (KVEntry Key)}
    (hx : fmt.lookup h (fmt.openedIndex h pages writes voids) k = some x) :
    fmt.lookup h (fmt.openedIndex h pages writes voids') k = some x := by
  rw [lookup, openedIndex] at hx ⊢
  dsimp only at hx ⊢
  cases hb : (Table.empty.insertAll writes : Entries Key).get k with
  | some y =>
    rw [get_masked_of_some _ hb] at hx ⊢
    exact hx
  | none =>
    rcases get_masked_of_none voids (pages.flatMap (fmt.pageEntries h)) hb with ⟨y, hy, hdeleted⟩ | ⟨hnone, hfree⟩
    · rw [hy] at hx
      simp [hdeleted] at hx
    · rw [hnone] at hx
      rw [get_masked_eq_none hb fun e he hk hover => hfree e he hk (hover.mono hsub)]
      exact hx

end

variable {old opened : OpenedEngine} {ps : List (List UInt8)} {r : ByteFile × Header.HeaderRepairReport}

def Dirty (f : ByteFile) (h : Header.FileHeader) : Prop := fmt.hotTail f h = none ∨ ∃ page ∈ (pages f h).getD [], fmt.corrupt h page = true

structure WellFormed (f : ByteFile) (h : Header.FileHeader) : Prop extends OldFile f h where
  voids : ∀ payload, fmt.hotTail f h = some payload → ∀ v ∈ payload.voids,
    validReusableRange v.offset v.size (walStart h) h.hotTailOffset.toNat = true

lemma startEngine_of_dirty (hpages : pages f h = some ps) (hdirty : fmt.Dirty f h) (headerEnd : ℕ) (writes : List (KVEntry Key))
    (voids : List VoidRecord) : fmt.startEngine f h headerEnd (fmt.openedIndex h ps writes voids) =
      fmt.rebuildKv f h (fmt.scanRebuildEntries f (scanRange f h headerEnd).1 (scanRange f h headerEnd).2) := by
  rw [Dirty, hpages] at hdirty
  rw [startEngine]
  refine if_pos ((Bool.or_eq_true _ _).mpr (hdirty.imp ?_ ?_))
  · intro hnone
    rw [hnone]
    rfl
  · exact any_eq_true.mpr

lemma startEngine_of_clean (hpages : pages f h = some ps) (hclean : ¬ fmt.Dirty f h) (headerEnd : ℕ) (writes : List (KVEntry Key))
    (voids : List VoidRecord) : fmt.startEngine f h headerEnd (fmt.openedIndex h ps writes voids) =
      ⟨f, walStart h, h.hotTailOffset.toNat, fmt.lookup h (fmt.openedIndex h ps writes voids)⟩ := by
  rw [Dirty, hpages] at hclean
  rw [startEngine]
  refine if_neg fun hdirty => hclean (((Bool.or_eq_true _ _).mp hdirty).imp ?_ ?_)
  · exact Option.isNone_iff_eq_none.mp
  · exact any_eq_true.mp

include hf hm hu in
lemma dirty_moved : fmt.Dirty g new ↔ fmt.Dirty f h := by
  simp only [Dirty, fmt.hotTail_moved hf hm hu, pages_moved hf hm hu, corrupt, hu.hashAlgo]

lemma lookup_upgraded (hu : Upgraded f h new) (writes : List (KVEntry Key)) (voids : List VoidRecord) :
    fmt.lookup new (fmt.openedIndex new ps writes voids) = fmt.lookup h (fmt.openedIndex h ps writes voids) := by
  funext k
  have hentries : fmt.pageEntries new = fmt.pageEntries h := by
    funext page
    rw [pageEntries, pageEntries, hu.hashAlgo]
  simp only [lookup, openedIndex, hentries, hu.hashAlgo]

lemma loadedVoids_subset (hf : fmt.WellFormed f h) (hm : f.Moved fileHeaderSize fileHeaderSize g) (hu : Upgraded f h new) :
    ∀ v ∈ fmt.loadedVoids g new, v ∈ fmt.loadedVoids f h := by
  intro v hv
  rw [loadedVoids, fmt.hotTail_moved hf.toOldFile hm hu] at hv
  rw [loadedVoids]
  cases htail : fmt.hotTail f h with
  | none =>
    rw [htail] at hv
    cases hv
  | some payload =>
    rw [htail] at hv
    have hmem : v ∈ payload.voids := (mem_filter.mp hv).1
    exact mem_filter.mpr ⟨hmem, hf.voids payload htail v hmem⟩

lemma hotTailOffset_le_of_clean (hclean : ¬ fmt.Dirty f h) : h.hotTailOffset.toNat ≤ f.size := by
  by_contra hpast
  refine hclean (.inl ?_)
  rw [hotTail, readHotTail_of_size_lt]
  omega

include hf hm hu in
lemma openInternal_moved {slot : Header.Slot} (hopen : openHeader fmt.crc32 g = .ok (new, slot)) (hold : fmt.openAt f h fileHeaderSize = .ok old) :
    ∃ ps, pages f h = some ps ∧ old = fmt.startEngine f h fileHeaderSize (fmt.openedIndex h ps (fmt.loadedWrites f h) (fmt.loadedVoids f h)) ∧
      fmt.openInternal g = .ok (fmt.startEngine g new (2 * fileHeaderSize)
        (fmt.openedIndex new ps (fmt.loadedWrites f h) (fmt.loadedVoids g new))) := by
  obtain ⟨hsettled, -, -, hversion, ps, hpages, rfl⟩ := openAt_eq_ok.mp hold
  refine ⟨ps, hpages, rfl, ?_⟩
  have hheader : 0 < fileHeaderSize := by decide
  have hblock := hf.block
  have hinside := hf.inside
  have hhot := hf.hotTail
  have hwrites : fmt.loadedWrites g new = fmt.loadedWrites f h := by rw [loadedWrites, loadedWrites, fmt.hotTail_moved hf hm hu]
  simp only [openInternal, hopen, ← hwrites]
  refine openAt_eq_ok.mpr ⟨?_, ?_, ?_, ?_, ps, (pages_moved hf hm hu).trans hpages, rfl⟩
  · rw [hu.resizeTargetStage, hu.kvBlockStage]
    exact hsettled
  · rw [hu.kvBlockOffset]
    omega
  · rw [hu.kvBlockOffset, hu.hotTailOffset]
    omega
  · rw [hu.kvBlockVersion]
    exact hversion

variable {writes : List (KVEntry Key)} {x : KVEntry Key}

lemma lookup_migrated (hf : fmt.WellFormed f h) (hm : f.Moved fileHeaderSize fileHeaderSize g) (hu : Upgraded f h new)

    (hx : fmt.lookup h (fmt.openedIndex h ps writes (fmt.loadedVoids f h)) k = some x) :
    fmt.lookup new (fmt.openedIndex new ps writes (fmt.loadedVoids g new)) k = some x := by
  rw [fmt.lookup_upgraded hu]
  exact fmt.lookup_mono (fmt.loadedVoids_subset hf hm hu) hx

lemma clean_getEntry_iff (hf : fmt.WellFormed f h) (hm : f.Moved fileHeaderSize fileHeaderSize g) (hu : Upgraded f h new)
    (hclean : ¬ fmt.Dirty f h) {entry : EntryData}
    (hx : fmt.lookup h (fmt.openedIndex h ps writes (fmt.loadedVoids f h)) k = some x)
    (hvalid : validReusableRange x.offset x.totalLength (walStart h) h.hotTailOffset.toNat = true) :
    OpenedEngine.getEntry ⟨g, walStart new, new.hotTailOffset.toNat, fmt.lookup new (fmt.openedIndex new ps writes (fmt.loadedVoids g new))⟩ k =
        .ok (some entry) ↔
      walStart h + fileHeaderSize ≤ x.offset ∧ readEntryAtShared f (x.offset - fileHeaderSize) = .ok entry := by
  obtain ⟨hsize, -, hend⟩ := validReusableRange_iff.mp hvalid
  have hhot := fmt.hotTailOffset_le_of_clean hclean
  have hstart := le_walStart hf.toOldFile
  have hx' := fmt.lookup_migrated hf hm hu hx
  -- the entry is looked for at its old place, which now holds what stood a header before it
  have hread (hfar : walStart h + fileHeaderSize ≤ x.offset) : readEntryAtShared g x.offset = readEntryAtShared f (x.offset - fileHeaderSize) := by
    have hplace : x.offset - fileHeaderSize + fileHeaderSize = x.offset := Nat.sub_add_cancel (by omega)
    rw [← readEntryAtShared_moved hm (p := x.offset - fileHeaderSize) (by omega), hplace]
  rw [getEntry_eq_ok]
  dsimp only
  constructor
  · rintro ⟨y, hy, hyvalid, hyread⟩
    obtain rfl := Option.some.inj (hx'.symm.trans hy)
    obtain ⟨-, hfar, -⟩ := validReusableRange_iff.mp hyvalid
    rw [walStart_moved hu] at hfar
    exact ⟨hfar, (hread hfar).symm.trans hyread⟩
  · rintro ⟨hfar, hentry⟩
    refine ⟨x, hx', validReusableRange_iff.mpr ⟨hsize, ?_, ?_⟩, (hread hfar).trans hentry⟩
    · rw [walStart_moved hu]
      exact hfar
    · rw [hu.hotTailOffset]
      omega

/-- After a migration every entry is found again, exactly when the index is rebuilt from the log or every live entry has a copy one
header before it: the offsets in the pages and in the hot tail are not moved. -/
theorem migration_keeps_entries_iff (hf : fmt.WellFormed f h) (hold : fmt.openAt f h fileHeaderSize = .ok old)
    (hrepair : repairHeaderInPlace fmt.crc32 f = .ok r) :
    (∃ opened, fmt.openInternal r.1 = .ok opened ∧ ∀ k entry, old.getEntry k = .ok (some entry) → opened.getEntry k = .ok (some entry)) ↔
      fmt.Dirty f h ∨ ∀ k x entry, old.lookup k = some x → old.getEntry k = .ok (some entry) →
        walStart h + fileHeaderSize ≤ x.offset ∧ readEntryAtShared f (x.offset - fileHeaderSize) = .ok entry := by
  obtain ⟨hm, new, hopen, hu⟩ := hf.toOldFile.repaired hrepair
  obtain ⟨ps, hpages, rfl, hopened⟩ := fmt.openInternal_moved hf.toOldFile hm hu hopen hold
  have hpages' := (pages_moved hf.toOldFile hm hu).trans hpages
  rw [hopened]
  by_cases hdirty : fmt.Dirty f h
  · refine iff_of_true ⟨_, rfl, ?_⟩ (.inl hdirty)
    have hdirty' := (fmt.dirty_moved hf.toOldFile hm hu).mpr hdirty
    intro k entry hget
    rw [fmt.startEngine_of_dirty hpages hdirty] at hget
    rw [fmt.startEngine_of_dirty hpages' hdirty', scanRange_moved hf.toOldFile hm hu,
      scanRebuildEntries_moved fmt hm (le_scanRange hf.toOldFile)]
    exact fmt.rebuildKv_getEntry hf.toOldFile hm hu _ hget
  · have hclean' := (fmt.dirty_moved hf.toOldFile hm hu).not.mpr hdirty
    rw [fmt.startEngine_of_clean hpages hdirty, fmt.startEngine_of_clean hpages' hclean']
    constructor
    · rintro ⟨opened, hok, hkept⟩
      cases hok
      refine .inr fun k x entry hx hget => ?_
      obtain ⟨y, hy, hvalid, -⟩ := getEntry_eq_ok.mp hget
      obtain rfl := Option.some.inj (hx.symm.trans hy)
      exact (fmt.clean_getEntry_iff hf hm hu hdirty hx hvalid).mp (hkept k entry hget)
    · rintro (hdirty' | hcopies)
      · exact absurd hdirty' hdirty
      · refine ⟨_, rfl, fun k entry hget => ?_⟩
        obtain ⟨x, hx, hvalid, -⟩ := getEntry_eq_ok.mp hget
        exact (fmt.clean_getEntry_iff hf hm hu hdirty hx hvalid).mpr (hcopies k x entry hx hget)

def sampleHeader (hotTailOffset : UInt64) : Header.FileHeader :=
  { (Header.sampleHeader 1).1 with kvBlockOffset := 256, hotTailOffset }

def sampleSlot (hotTailOffset : UInt64) : List UInt8 :=
  let fields := (sampleHeader hotTailOffset).fields
  fixedBytes fileHeaderSize (fileMagic ++ 2 :: (fields.take 2 ++ fields.drop 10))

def sampleKey : Key := List.replicate 32 7

def sampleValue : List UInt8 := [42]

def sampleEntry : List UInt8 :=
  entryMagic ++ [0, 1, 0] ++ leBytes 2 1 ++ [0, 0] ++ leBytes 4 32 ++ leBytes 4 1 ++ leBytes 8 5 ++ leBytes 4 96 ++
    List.replicate 32 9 ++ sampleKey ++ sampleValue

def sampleData : EntryData := (⟨0, .chunk, 0, .blake3_256, .none, 0, 32, 1, 5, 96, List.replicate 32 9⟩, sampleKey, sampleValue)

def sampleTail : List UInt8 :=
  hotTailMagic ++ [hotTailFormatVersion] ++ leBytes 4 1 ++ leBytes 4 0 ++ leBytes 4 0 ++
    (0 :: (sampleKey ++ 1 :: (leBytes 8 65792 ++ leBytes 4 96)))

def sampleFile (hotTailOffset : UInt64) : ByteFile :=
  ((ofBytes (sampleSlot hotTailOffset)).write 65792 sampleEntry).write 65888 sampleTail

noncomputable def sampleFormat : DiskFormat := ⟨fun _ => 0, fun _ => List.replicate 32 9, byteHasher, fun _ _ => none, fun _ _ => 0⟩

lemma mapM_eq_replicate {α β : Type} {read : α → Option β} {as : List α} {b : β} (hread : ∀ a ∈ as, read a = some b) :
    as.mapM read = some (List.replicate as.length b) := by
  induction as with
  | nil => rfl
  | cons a as ih =>
    obtain ⟨ha, has⟩ := forall_mem_cons.mp hread
    rw [mapM_cons, ha, ih has]
    rfl

lemma pages_of_zeros {count size : ℕ} (hcount : bucketCount h = count) (hpage : pageSize h.hashAlgo.hashLength = size)
    (hinside : h.kvBlockOffset.toNat + count * size ≤ f.size) (hzeros : ∀ i < count * size, f.data (h.kvBlockOffset.toNat + i) = 0) :
    pages f h = some (List.replicate count (List.replicate size 0)) := by
  rw [pages, hcount, hpage]
  have hread (bucket : ℕ) (hb : bucket < count) : f.readExact (h.kvBlockOffset.toNat + bucket * size) size = some (List.replicate size 0) := by
    have hplace : bucket * size + size ≤ count * size := by
      rw [← Nat.succ_mul]
      exact Nat.mul_le_mul_right _ hb
    refine readExact_eq_some.mpr ⟨by omega, eq_replicate_iff.mpr ⟨length_region _ _ _, ?_⟩⟩
    intro b hb'
    obtain ⟨i, hi, rfl⟩ := mem_map.mp hb'
    rw [Nat.add_assoc]
    exact hzeros _ (by have := mem_range.mp hi; omega)
  rw [mapM_eq_replicate fun bucket hb => hread bucket (mem_range.mp hb), length_range]

section

variable {hot : UInt64}

lemma sample_size : (sampleFile hot).size = 65952 := by
  have hslot : (sampleSlot hot).length = 256 := length_fixedBytes _ _
  rw [sampleFile, size_write _ _ (by decide), size_write _ _ (by decide)]
  change max (max (sampleSlot hot).length _) _ = _
  rw [hslot]
  decide

lemma sample_pages : pages (sampleFile hot) (sampleHeader hot) = some (List.replicate 45 (List.replicate 1450 0)) := by
  have hblock : (sampleHeader hot).kvBlockOffset.toNat = 256 := rfl
  have hcount : bucketCount (sampleHeader hot) = 45 := by
    change (stageParams (min (0 : UInt8).toNat 9) (pageSize 32)).2 = 45
    decide
  have hpage : pageSize (sampleHeader hot).hashAlgo.hashLength = 1450 := by
    change pageSize 32 = 1450
    decide
  refine pages_of_zeros hcount hpage ?_ fun i hi => ?_
  · rw [sample_size, hblock]
    omega
  · rw [hblock]
    have hslot : (sampleSlot hot).length = 256 := length_fixedBytes _ _
    rw [sampleFile, data_write_of_lt _ _ (by omega), data_write_of_lt _ _ (by omega)]
    exact getD_eq_default _ _ (hslot.trans_le (by omega))

set_option maxRecDepth 20000 in
lemma sample_corrupt : ∀ page ∈ (pages (sampleFile hot) (sampleHeader hot)).getD [], sampleFormat.corrupt (sampleHeader hot) page = false := by
  rw [sample_pages]
  intro page hpage
  obtain rfl := eq_of_mem_replicate hpage
  change (deserializePage (fun _ => 0) (List.replicate 1450 0) 32).toOption.isNone = false
  decide

lemma sample_opened (hhot : 256 < hot.toNat) : sampleFormat.openAt (sampleFile hot) (sampleHeader hot) fileHeaderSize =
    .ok (sampleFormat.startEngine (sampleFile hot) (sampleHeader hot) fileHeaderSize (sampleFormat.openedIndex (sampleHeader hot)
      (List.replicate 45 (List.replicate 1450 0)) (sampleFormat.loadedWrites (sampleFile hot) (sampleHeader hot))
      (sampleFormat.loadedVoids (sampleFile hot) (sampleHeader hot)))) := by
  have hblock : (sampleHeader hot).kvBlockOffset.toNat = 256 := rfl
  refine openAt_eq_ok.mpr ⟨?_, ?_, ?_, rfl, _, sample_pages, rfl⟩
  · exact UInt8.le_refl 0
  · omega
  · exact hhot

end

lemma repair_succeeds (hf : OldFile f h) (hfits : h.hashAlgo.hashLength = 32) : ∃ r, repairHeaderInPlace fmt.crc32 f = .ok r := by
  have hblock := hf.block
  have hinside := hf.inside
  rw [repairHeaderInPlace_eq (by omega) hf.magic, if_neg (hf.not_inOrder fmt.crc32)]
  exact rewriteHeader_succeeds fmt.crc32 (by omega) hf.trusted hfits _

deriving instance DecidableEq for HotTailPayload

set_option maxRecDepth 20000 in
lemma sample_oldFile : OldFile (sampleFile 65888) (sampleHeader 65888) where
  magic := by decide
  version := by decide
  header := by decide
  size := by decide
  block := by decide
  inside := by decide
  hotTail := by decide

lemma sample_hotTail : sampleFormat.hotTail (sampleFile 65888) (sampleHeader 65888) = some ⟨[⟨1, sampleKey, 65792, 96⟩], []⟩ := by
  decide +kernel

lemma sample_wellFormed : sampleFormat.WellFormed (sampleFile 65888) (sampleHeader 65888) where
  toOldFile := sample_oldFile
  voids := by
    intro payload hpayload v hv
    obtain rfl := Option.some.inj (sample_hotTail.symm.trans hpayload)
    cases hv

lemma sample_clean : ¬ sampleFormat.Dirty (sampleFile 65888) (sampleHeader 65888) := by
  rintro (hnone | ⟨page, hpage, hcorrupt⟩)
  · rw [sample_hotTail] at hnone
    cases hnone
  · exact absurd hcorrupt (by simp [sample_corrupt page hpage])

set_option maxRecDepth 20000 in
lemma aged_wellFormed : sampleFormat.WellFormed (sampleFile 65889) (sampleHeader 65889) where
  magic := by decide
  version := by decide
  header := by decide
  size := by decide
  block := by decide
  inside := by decide
  hotTail := by decide
  voids := by
    intro payload hpayload
    cases hpayload

set_option maxRecDepth 20000 in
theorem migration_keeps_entries_rebuilt :
    sampleFormat.WellFormed (sampleFile 65889) (sampleHeader 65889) ∧
    ∃ old r, sampleFormat.openAt (sampleFile 65889) (sampleHeader 65889) fileHeaderSize = .ok old ∧
      Header.repairHeaderInPlace sampleFormat.crc32 (sampleFile 65889) = .ok r ∧
      ∃ opened, sampleFormat.openInternal r.1 = .ok opened ∧ ∀ k entry, old.getEntry k = .ok (some entry) → opened.getEntry k = .ok (some entry) := by
  obtain ⟨r, hrepair⟩ := sampleFormat.repair_succeeds aged_wellFormed.toOldFile rfl
  have hold := sample_opened (show 256 < (65889 : UInt64).toNat by decide)
  refine ⟨aged_wellFormed, _, r, hold, hrepair, ?_⟩
  exact (sampleFormat.migration_keeps_entries_iff aged_wellFormed hold hrepair).mpr (.inl (.inl (by decide)))

lemma sample_lookup (voids : List VoidRecord) : sampleFormat.lookup (sampleHeader 65888) (sampleFormat.openedIndex (sampleHeader 65888)
    (List.replicate 45 (List.replicate 1450 0)) (sampleFormat.loadedWrites (sampleFile 65888) (sampleHeader 65888)) voids) sampleKey =
      some ⟨1, sampleKey, 65792, 96⟩ := by
  have hwrites : sampleFormat.loadedWrites (sampleFile 65888) (sampleHeader 65888) = [⟨1, sampleKey, 65792, 96⟩] := by
    rw [loadedWrites, sample_hotTail]
    rfl
  have hbuffer : (Table.empty.insertAll [⟨1, sampleKey, 65792, 96⟩] : Entries Key).get sampleKey = some ⟨1, sampleKey, 65792, 96⟩ := by
    decide
  rw [lookup, openedIndex, hwrites]
  rw [get_masked_of_some _ hbuffer]
  rfl

set_option maxRecDepth 20000 in
theorem migration_loses_entry :
    sampleFormat.WellFormed (sampleFile 65888) (sampleHeader 65888) ∧
    ∃ old r opened, sampleFormat.openAt (sampleFile 65888) (sampleHeader 65888) fileHeaderSize = .ok old ∧
      old.getEntry sampleKey = .ok (some sampleData) ∧
      Header.repairHeaderInPlace sampleFormat.crc32 (sampleFile 65888) = .ok r ∧
      sampleFormat.openInternal r.1 = .ok opened ∧ opened.getEntry sampleKey = .error (.outsideWal 66048 66144) := by
  obtain ⟨r, hrepair⟩ := sampleFormat.repair_succeeds sample_oldFile rfl
  have hold := sample_opened (show 256 < (65888 : UInt64).toNat by decide)
  obtain ⟨hm, new, hopen, hu⟩ := sample_oldFile.repaired hrepair
  obtain ⟨ps, hpages, heq, hopened⟩ := sampleFormat.openInternal_moved sample_oldFile hm hu hopen hold
  refine ⟨sample_wellFormed, _, r, _, hold, ?_, hrepair, hopened, ?_⟩
  · rw [sampleFormat.startEngine_of_clean sample_pages sample_clean]
    refine getEntry_eq_ok.mpr ⟨⟨1, sampleKey, 65792, 96⟩, ?_, ?_, ?_⟩
    · dsimp only
      rw [sample_lookup]
    · decide
    · decide
  · obtain rfl := Option.some.inj (sample_pages.symm.trans hpages)
    have hclean := (sampleFormat.dirty_moved sample_oldFile hm hu).not.mpr sample_clean
    have hfound := sampleFormat.lookup_migrated sample_wellFormed hm hu (sample_lookup _)
    rw [sampleFormat.startEngine_of_clean ((pages_moved sample_oldFile hm hu).trans sample_pages) hclean, OpenedEngine.getEntry]
    dsimp only
    have hstart : walStart (sampleHeader 65888) + fileHeaderSize = 66048 := by decide
    have hend : min (sampleHeader 65888).hotTailOffset.toNat 65952 + fileHeaderSize = 66144 := by decide
    rw [walStart_moved hu, hu.hotTailOffset, sample_size, hstart, hend]
    exact if_neg (by decide)

end DiskFormat

end AeorDb.Wal
