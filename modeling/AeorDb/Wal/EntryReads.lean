import AeorDb.Wal.Invention

/-! Reading one entry, at whatever offset and through the index. -/

namespace AeorDb.Wal

open Library Store Header ByteFile EntryHeader Space

inductive SharedReadError where
  | read (error : ReadError)
  | hashVerificationFailed

def readEntryAtSharedOpt (blake3 : Blake3) (f : ByteFile) (p : ℕ) (verify : Bool) : Except SharedReadError EntryData :=
  match readEntryAtShared f p with
  | .error error => .error (.read error)
  | .ok (header, key, value) =>
    if verify && !header.verify blake3 key value then .error .hashVerificationFailed else .ok (header, key, value)

/-- The header is sliced from a buffer that is shorter than it. -/
def Panics (r : Except SharedReadError EntryData) : Prop := ∃ n, r = .error (.read (.shortEntry n))

/-- The recorded length is there to be read, and does not cover the header. -/
def CutShort (f : ByteFile) (p : ℕ) : Prop :=
  ∃ fixed hashAlgo, f.readExact p fixedHeaderSize = some fixed ∧ HashAlgorithm.fromU16 (UInt16.ofNat (littleEndian fixed 7 2)) = some hashAlgo ∧
    p + littleEndian fixed 27 4 ≤ f.size ∧ littleEndian fixed 27 4 < fixedHeaderSize + hashAlgo.hashLength

/-- The key and the value stand behind the header, within the recorded length. -/
structure Follows (f : ByteFile) (p : ℕ) (e : EntryData) : Prop where
  header : deserialize f p = .ok e.1
  key : f.readExact (p + e.1.headerSize) e.1.keyLength = some e.2.1
  value : f.readExact (p + e.1.headerSize + e.1.keyLength) e.1.valueLength = some e.2.2
  fits : e.1.headerSize + e.2.1.length + e.2.2.length ≤ e.1.totalLength

variable {f : ByteFile} {p : ℕ} {e : EntryData} {header : EntryHeader}

lemma deserialize_fixed (h : deserialize f p = .ok header) : ∃ fixed, f.readExact p fixedHeaderSize = some fixed ∧
    HashAlgorithm.fromU16 (UInt16.ofNat (littleEndian fixed 7 2)) = some header.hashAlgo ∧ littleEndian fixed 27 4 = header.totalLength := by
  rw [deserialize] at h
  split at h
  · cases h
  · next fixed hfixed =>
    refine ⟨fixed, hfixed, ?_⟩
    grind

lemma readEntryAtShared_eq_shortEntry : (∃ n, readEntryAtShared f p = .error (.shortEntry n)) ↔ CutShort f p := by
  rw [readEntryAtShared, CutShort]
  cases hfixed : f.readExact p fixedHeaderSize with
  | none => simp
  | some fixed =>
    cases halgo : HashAlgorithm.fromU16 (UInt16.ofNat (littleEndian fixed 7 2)) with
    | none => simp [halgo]
    | some hashAlgo =>
      simp only [readExact, Option.some.injEq, exists_and_left, exists_eq_left', halgo]
      by_cases hinside : p + littleEndian fixed 27 4 ≤ f.size
      · simp only [if_pos hinside, and_iff_right hinside]
        rw [length_region]
        split_ifs with hshort
        · exact iff_of_true ⟨_, rfl⟩ hshort
        · refine iff_of_false ?_ hshort
          rintro ⟨n, hn⟩
          split at hn
          · cases hn
          · split_ifs at hn
            cases hn
      · simp [hinside]

lemma readEntryAtShared_eq_ok (h : readEntryAtShared f p = .ok e) : Follows f p e := by
  rw [readEntryAtShared] at h
  split at h
  · cases h
  · next fixed hfixed =>
    dsimp only at h
    split at h
    · cases h
    · next hashAlgo halgo =>
      split at h
      · cases h
      · next entry hentry =>
        split_ifs at h with hshort
        split at h
        · cases h
        · next header hheader =>
          split_ifs at h with hfits
          cases h
          obtain ⟨_, hfixed', halgo', htotal⟩ := deserialize_fixed hheader
          obtain rfl := Option.some.inj (hfixed.symm.trans hfixed')
          obtain rfl := Option.some.inj (halgo.symm.trans halgo')
          obtain ⟨hinside, rfl⟩ := readExact_eq_some.mp hentry
          rw [length_region, htotal, ← headerSize] at hshort
          rw [htotal] at hinside
          refine ⟨hheader, readExact_eq_some.mpr ⟨?_, ?_⟩, readExact_eq_some.mpr ⟨?_, ?_⟩, ?_⟩ <;> dsimp only
          · omega
          · exact (f.take_drop_region (by omega)).symm
          · omega
          · rw [Nat.add_assoc]
            exact (f.take_drop_region (by omega)).symm
          · simp only [List.length_take]
            omega

/-- Reading an entry does not panic exactly when the recorded length covers the header or runs past the file. -/
theorem readEntryAtShared_safe_iff (blake3 : Blake3) (f : ByteFile) (p : ℕ) (verify : Bool) :
    (¬ Panics (readEntryAtSharedOpt blake3 f p verify) ∧ ∀ e, readEntryAtSharedOpt blake3 f p verify = .ok e → Follows f p e) ↔
      ¬ CutShort f p := by
  rw [← readEntryAtShared_eq_shortEntry, readEntryAtSharedOpt]
  cases hread : readEntryAtShared f p with
  | error error => simp [Panics]
  | ok entry =>
    refine iff_of_true ⟨?_, ?_⟩ (by simp)
    · rintro ⟨n, hn⟩
      dsimp only at hn
      split_ifs at hn
      cases hn
    · intro e hok
      dsimp only at hok
      split_ifs at hok
      cases hok
      exact readEntryAtShared_eq_ok hread

/-- A header with nothing but its hash algorithm. -/
def emptyHeader : ByteFile := ofBytes (List.replicate 7 0 ++ 1 :: List.replicate 23 0)

theorem readEntryAtShared_panics : Panics (readEntryAtSharedOpt id emptyHeader 0 false) ∧ Panics (readEntryAtSharedOpt id emptyHeader 0 true) :=
  ⟨⟨0, rfl⟩, 0, rfl⟩

def readEntryHeaderAtShared (f : ByteFile) (p : ℕ) : Except ReadError EntryHeader := do
  let some fixed := f.readExact p fixedHeaderSize | .error .unexpectedEof
  let hashAlgoRaw := UInt16.ofNat (littleEndian fixed 7 2)
  let some hashAlgo := HashAlgorithm.fromU16 hashAlgoRaw | .error (.invalidHashAlgorithm hashAlgoRaw)
  let some _ := f.readExact (p + fixedHeaderSize) hashAlgo.hashLength | .error .unexpectedEof
  match deserialize f p with
  | .error error => .error (.header error)
  | .ok header =>
    if header.totalLength - header.headerSize < header.keyLength + header.valueLength then
      .error (.exceedsTotalLength header.keyLength header.valueLength header.totalLength)
    else .ok header

lemma readEntryHeaderAtShared_eq_ok :
    readEntryHeaderAtShared f p = .ok header ↔
      deserialize f p = .ok header ∧ header.keyLength + header.valueLength ≤ header.totalLength - header.headerSize := by
  constructor
  · intro h
    simp only [readEntryHeaderAtShared] at h
    repeat' split at h
    all_goals cases h
    exact ⟨‹_›, not_lt.mp ‹_›⟩
  · rintro ⟨hheader, hfits⟩
    obtain ⟨fixed, hfixed, halgo, -⟩ := deserialize_fixed hheader
    cases hhash : f.readExact (p + fixedHeaderSize) header.hashAlgo.hashLength with
    | none =>
      rw [deserialize, hfixed] at hheader
      simp only [halgo, hhash] at hheader
      repeat' split at hheader
      all_goals cases hheader
    | some _ => simp [readEntryHeaderAtShared, hfixed, halgo, hhash, hheader, hfits]

lemma readEntryAtShared_of_header (hheader : deserialize f p = .ok header) (hsize : header.headerSize ≤ header.totalLength)
    (hfits : header.keyLength + header.valueLength ≤ header.totalLength - header.headerSize) (hinside : p + header.totalLength ≤ f.size) :
    readEntryAtShared f p =
      .ok (header, f.region (p + header.headerSize) header.keyLength, f.region (p + header.headerSize + header.keyLength) header.valueLength) := by
  obtain ⟨fixed, hfixed, halgo, htotal⟩ := deserialize_fixed hheader
  rw [readEntryAtShared, hfixed]
  simp only [halgo, htotal, readExact_eq_some.mpr ⟨hinside, rfl⟩, hheader, length_region]
  rw [← headerSize, if_neg (by omega), if_neg (by omega), take_drop_region _ (by omega), take_drop_region _ (by omega), ← Nat.add_assoc]

/-- The header is read alone as it is read with its entry, and an entry whose header can be read is read if it is all there. -/
theorem readEntryHeaderAtShared_agrees (f : ByteFile) (p : ℕ) :
    (∀ header key value, readEntryAtShared f p = .ok (header, key, value) → readEntryHeaderAtShared f p = .ok header) ∧
      ∀ header, readEntryHeaderAtShared f p = .ok header → header.headerSize ≤ header.totalLength → p + header.totalLength ≤ f.size →
        ∃ key value, readEntryAtShared f p = .ok (header, key, value) := by
  refine ⟨fun header key value h => ?_, fun header h hsize hinside => ?_⟩
  · have hfollows := readEntryAtShared_eq_ok h
    have hkey := congrArg List.length (readExact_eq_some.mp hfollows.key).2
    have hvalue := congrArg List.length (readExact_eq_some.mp hfollows.value).2
    have hfits := hfollows.fits
    rw [length_region] at hkey hvalue
    dsimp only at hkey hvalue hfits
    exact readEntryHeaderAtShared_eq_ok.mpr ⟨hfollows.header, by omega⟩
  · obtain ⟨hheader, hfits⟩ := readEntryHeaderAtShared_eq_ok.mp h
    exact ⟨_, _, readEntryAtShared_of_header hheader hsize hfits hinside⟩

lemma WellFormed.read {blake3 : Blake3} {e : ScannedEntry} (h : WellFormed blake3 f e) :
    readEntryAtSharedOpt blake3 f e.offset true = .ok (e.header, e.key, e.value) := by
  obtain ⟨hinside, hvalue⟩ := readExact_eq_some.mp h.value
  have hlength := h.length
  rw [readEntryAtSharedOpt, readEntryAtShared_of_header h.header (by omega) (by omega) (by omega), hvalue, (readExact_eq_some.mp h.key).2]
  simp [h.verified]

/-- Over every run, what the index finds for a key is read without an error, and is an entry of that key. -/
theorem Disk.live_key_reads {H : Type} [DecidableEq H] {fmt : ByteFormat H} {d : Disk H} {walStart : ℕ} {k : H} {x : Index.KVEntry H}
    (hrun : Relation.ReflTransGen (Step fmt) (fresh walStart) d) (hx : d.space.kv.get k = some x) :
    ∃ e : EntryBytes H, e.key = k ∧ (fmt.header e).totalLength = x.totalLength ∧
      readEntryAtSharedOpt fmt.blake3 d.file x.offset true = .ok (fmt.header e, fmt.keyBytes k, e.value) := by
  obtain ⟨hstored, hsound, _⟩ := stored_run hrun
  obtain ⟨r, hr, rfl, hspan⟩ := hsound.indexed k x hx
  obtain ⟨e, hkey, hlength, hwell⟩ := hstored r hr
  obtain ⟨hoffset, htotal⟩ : r.offset = x.offset ∧ r.totalLength = x.totalLength := by simpa [LogRecord.span, KVEntry.span] using hspan
  refine ⟨e, hkey, hlength.trans htotal, ?_⟩
  rw [← hoffset, ← hkey]
  exact hwell.read

theorem Disk.live_key_reads_reused : ∃ e : EntryBytes Digest, e.key = chunkKey 2 ∧ (sampleBytes.header e).totalLength = 96 ∧
    readEntryAtSharedOpt zeroHash (reused [5] [6]).file 1000 true = .ok (sampleBytes.header e, sampleBytes.keyBytes (chunkKey 2), e.value) := by
  have hx : (reused [5] [6]).space.kv.get (chunkKey 2) = some ⟨0, chunkKey 2, 1000, 96⟩ := by decide +kernel
  exact live_key_reads (run_reused [5] [6]) hx

end AeorDb.Wal
