import AeorDb.Index.Growth
import AeorDb.Wal.Expansion

/-! Growing the index block of a closed file: the log moves back, and every write on the way may be the last. -/

namespace AeorDb.Wal

open Library Index ByteFile List

/-- The bytes of a database file with the header in effect, whose slots no write but the last one touches. -/
structure ClosedFile where
  header : FileHeader
  file : ByteFile

namespace ClosedFile

def walStart (d : ClosedFile) : ℕ := d.header.kvBlockOffset + d.header.kvBlockLength

def walSize (d : ClosedFile) : ℕ := d.header.hotTailOffset - d.walStart

def log (d : ClosedFile) : List UInt8 := d.file.region d.walStart d.walSize

end ClosedFile

section

/-- The file after each write of the copy loop, which goes from the end of the log to its start. -/
def copyBack (start delta : ℕ) : ℕ → ByteFile → ℕ → List ByteFile
  | 0, _, _ => []
  | n + 1, f, remaining =>
    if remaining = 0 then []
    else
      let chunkLen := min copyChunkSize remaining
      let src := start + remaining - chunkLen
      let g := f.write (src + delta) (f.region src chunkLen)
      g :: copyBack start delta n g (remaining - chunkLen)

def zeroFill (start blockSize : ℕ) : ℕ → ByteFile → ℕ → List ByteFile
  | 0, _, _ => []
  | n + 1, f, zeroed =>
    if zeroed < blockSize then
      let chunk := min (min 65536 blockSize) (blockSize - zeroed)
      let g := f.write (start + zeroed) (List.replicate chunk 0)
      g :: zeroFill start blockSize n g (zeroed + chunk)
    else []

variable (hashLength : ℕ)

def newBlockSize (target : ℕ) : ℕ := (stageParams target (pageSize hashLength)).1

namespace ClosedFile

/-- The log was moved, with `blockSize` bytes for the index before it. -/
def grown (header : FileHeader) (target blockSize : ℕ) : FileHeader :=
  { header with
    kvBlockLength := blockSize
    kvBlockStage := target
    resizeTargetStage := 0
    hotTailOffset := if header.hotTailOffset = 0 then 0 else header.hotTailOffset + (blockSize - header.kvBlockLength) }

def copies (d : ClosedFile) (target : ℕ) : List ByteFile :=
  copyBack d.walStart (newBlockSize hashLength target - d.header.kvBlockLength) (d.walSize / copyChunkSize + 1) d.file d.walSize

def zeros (d : ClosedFile) (target : ℕ) : List ByteFile :=
  zeroFill d.header.kvBlockOffset (newBlockSize hashLength target) (newBlockSize hashLength target)
    ((d.copies hashLength target).getLastD d.file) 0

/-- `expand_kv_block`: the file after each write. A log that ends behind the file fails the first read. -/
def expandKvBlock (d : ClosedFile) (target : ℕ) : List ClosedFile :=
  if newBlockSize hashLength target ≤ d.header.kvBlockLength ∨ 0 < d.walSize ∧ d.file.size < d.header.hotTailOffset then []
  else
    let zeros := d.zeros hashLength target
    (d.copies hashLength target).map (⟨d.header, ·⟩) ++ zeros.map (⟨d.header, ·⟩) ++
      [⟨grown d.header target (newBlockSize hashLength target), zeros.getLastD ((d.copies hashLength target).getLastD d.file)⟩]

def expanded (d : ClosedFile) (target : ℕ) : ClosedFile := (d.expandKvBlock hashLength target).getLastD d

/-- Opening the file first completes an expansion that is pending in the header. -/
def reopened (d : ClosedFile) : ClosedFile :=
  if d.header.kvBlockStage < d.header.resizeTargetStage then d.expanded hashLength d.header.resizeTargetStage else d

end ClosedFile

variable {start delta blockSize : ℕ} {f : ByteFile} {n : ℕ}

lemma copyBack_data {remaining : ℕ} (hfuel : remaining ≤ n * copyChunkSize) :
    (∀ i, i < remaining → ((copyBack start delta n f remaining).getLastD f).data (start + i + delta) = f.data (start + i)) ∧
      ∀ i, start + remaining + delta ≤ i → ((copyBack start delta n f remaining).getLastD f).data i = f.data i := by
  induction n generalizing f remaining with
  | zero => exact ⟨fun i hi => by omega, fun _ _ => rfl⟩
  | succ n ih =>
    rw [copyBack]
    split_ifs with hzero
    · exact ⟨fun i hi => by omega, fun _ _ => rfl⟩
    · have hchunk : 0 < copyChunkSize := by decide
      rw [Nat.succ_mul] at hfuel
      dsimp only
      rw [getLastD_cons]
      generalize copyChunkSize = chunk at *
      generalize hc : min chunk remaining = c at *
      generalize hsrc : start + remaining - c = src at *
      obtain ⟨hdata, hrest⟩ := @ih (f.write (src + delta) (f.region src c)) (remaining - c) (by omega)
      have hlength : (f.region src c).length = c := f.length_region src c
      refine ⟨fun i hi => ?_, fun i hi => ?_⟩
      · by_cases hold : i < remaining - c
        · rw [hdata i hold, data_write_of_lt _ _ (by omega)]
        · -- the chunk that was copied first is not touched again
          have hcopied : (f.write (src + delta) (f.region src c)).data (src + delta + (start + i - src)) = f.data (src + (start + i - src)) :=
            f.data_write_region f (by omega)
          rw [hrest _ (by omega), show start + i + delta = src + delta + (start + i - src) by omega, hcopied]
          congr 1
          omega
      · rw [hrest i (by omega), data_write_of_ge _ _ (by omega)]

lemma data_write_zeros (f : ByteFile) (offset n i : ℕ) :
    (f.write offset (List.replicate n 0)).data i = if offset ≤ i ∧ i < offset + n then 0 else f.data i := by
  simp only [write, length_replicate]
  refine if_congr Iff.rfl ?_ rfl
  rw [getD_eq_getElem?_getD, getElem?_getD_replicate_default_eq]

lemma zeroFill_data {zeroed : ℕ} (hfuel : blockSize ≤ zeroed + n) (i : ℕ) :
    ((zeroFill start blockSize n f zeroed).getLastD f).data i =
      if start + zeroed ≤ i ∧ i < start + blockSize then 0 else f.data i := by
  induction n generalizing f zeroed with
  | zero =>
    rw [if_neg (by omega)]
    rfl
  | succ n ih =>
    rw [zeroFill]
    by_cases hlt : zeroed < blockSize
    · rw [if_pos hlt]
      dsimp only
      rw [getLastD_cons, ih (by omega), data_write_zeros]
      generalize hc : min (min 65536 blockSize) (blockSize - zeroed) = c
      split_ifs <;> first | rfl | omega
    · rw [if_neg hlt, if_neg (by omega)]
      rfl

end

namespace ClosedFile

variable {hashLength : ℕ} {d : ClosedFile} {target : ℕ}

lemma log_congr {d d' : ClosedFile} (hsize : d'.walSize = d.walSize) (hdata : ∀ i < d.walSize, d'.file.data (d'.walStart + i) = d.file.data (d.walStart + i)) :
    d'.log = d.log := by
  rw [log, log, hsize]
  exact region_congr hdata

lemma zeros_data (hashLength : ℕ) (d : ClosedFile) (target i : ℕ) :
    ((d.zeros hashLength target).getLastD ((d.copies hashLength target).getLastD d.file)).data i =
      if d.header.kvBlockOffset ≤ i ∧ i < d.header.kvBlockOffset + newBlockSize hashLength target then 0
      else ((d.copies hashLength target).getLastD d.file).data i := by
  exact zeroFill_data (Nat.le_add_left _ _) i

/-- Completed, the expansion moves the log without altering it. -/
lemma log_expanded (d : ClosedFile) (target : ℕ) : (d.expanded hashLength target).log = d.log := by
  rw [expanded, expandKvBlock]
  split_ifs with hnone
  · rfl
  · rw [not_or, not_le] at hnone
    rw [getLastD_concat]
    have hstart : d.header.kvBlockOffset + newBlockSize hashLength target =
        d.walStart + (newBlockSize hashLength target - d.header.kvBlockLength) := by
      rw [walStart]
      omega
    apply log_congr
    · simp only [walSize, walStart, grown]
      split_ifs <;> omega
    · intro i hi
      have hfuel : d.walSize ≤ (d.walSize / copyChunkSize + 1) * copyChunkSize := by
        have hdiv := Nat.lt_div_mul_add (a := d.walSize) (show 0 < copyChunkSize by decide)
        rw [Nat.succ_mul]
        omega
      change ((d.zeros hashLength target).getLastD _).data (d.header.kvBlockOffset + newBlockSize hashLength target + i) = _
      rw [zeros_data, if_neg (by omega), hstart, Nat.add_right_comm]
      exact (copyBack_data hfuel).1 i hi

lemma log_reopened (d : ClosedFile) : (d.reopened hashLength).log = d.log := by
  rw [reopened]
  split_ifs
  · exact log_expanded d _
  · rfl

lemma mem_expandKvBlock {g : ClosedFile} (hg : g ∈ d.expandKvBlock hashLength target) :
    g.header = d.header ∨ g = d.expanded hashLength target := by
  rw [expanded]
  rw [expandKvBlock] at hg ⊢
  split_ifs at hg ⊢
  · simp at hg
  · rw [getLastD_concat]
    rcases mem_append.mp hg with hg | hg
    · rcases mem_append.mp hg with hg | hg
      all_goals
        obtain ⟨f, _, rfl⟩ := mem_map.mp hg
        exact .inl rfl
    · exact .inr (mem_singleton.mp hg)

/-- The last write before the header has cleared the start of the old log, and the file still says to copy it. -/
lemma exists_lost (hgrow : d.header.kvBlockLength < newBlockSize hashLength target) (hin : d.header.hotTailOffset ≤ d.file.size)
    (hlog : 0 < d.walSize) (hentry : d.file.region d.walStart 4 = entryMagic) :
    ∃ g ∈ d.expandKvBlock hashLength target, (g.reopened hashLength).log ≠ d.log := by
  obtain ⟨n, hn⟩ : ∃ n, newBlockSize hashLength target = n + 1 := Nat.exists_eq_succ_of_ne_zero (by omega)
  obtain ⟨first, rest, hzeros⟩ : ∃ first rest, d.zeros hashLength target = first :: rest := by
    rw [zeros, hn, zeroFill, if_pos (Nat.succ_pos n)]
    exact ⟨_, _, rfl⟩
  refine ⟨⟨d.header, (d.zeros hashLength target).getLastD ((d.copies hashLength target).getLastD d.file)⟩, ?_, fun heq => ?_⟩
  · rw [expandKvBlock, if_neg (by omega)]
    have hlast : (d.zeros hashLength target).getLastD ((d.copies hashLength target).getLastD d.file) ∈ d.zeros hashLength target := by
      rw [hzeros, getLastD_cons]
      exact getLastD_mem_cons
    exact mem_append_left _ (mem_append_right _ (mem_map_of_mem hlast))
  · rw [log_reopened] at heq
    have hcleared := zeros_data hashLength d target d.walStart
    rw [if_pos (by rw [walStart]; omega)] at hcleared
    have hfirst : d.file.data d.walStart = 0xDB := by simpa [region, entryMagic, range_succ] using congrArg List.head? hentry
    have hsame := data_eq_of_region_eq heq hlog
    simp only [Nat.add_zero] at hsame
    exact absurd (hcleared.symm.trans (hsame.trans hfirst)) (by decide)

end ClosedFile

theorem expandKvBlock_survives_iff (hashLength : ℕ) (d : ClosedFile) (target : ℕ)
    (hentry : 0 < d.walSize → d.file.region d.walStart 4 = entryMagic) :
    (d.expanded hashLength target).log = d.log ∧
      ((∀ g ∈ d :: d.expandKvBlock hashLength target, (g.reopened hashLength).log = d.log) ↔
        d.walSize = 0 ∨ newBlockSize hashLength target ≤ d.header.kvBlockLength ∨ d.file.size < d.header.hotTailOffset) := by
  refine ⟨ClosedFile.log_expanded d target, fun h => ?_, fun h g hg => ?_⟩
  · by_contra hnot
    simp only [not_or, not_le, not_lt] at hnot
    have hlog : 0 < d.walSize := Nat.pos_of_ne_zero hnot.1
    obtain ⟨g, hg, hlost⟩ := ClosedFile.exists_lost hnot.2.1 hnot.2.2 hlog (hentry hlog)
    exact hlost (h g (mem_cons_of_mem _ hg))
  · rw [ClosedFile.log_reopened]
    rcases mem_cons.mp hg with rfl | hg
    · rfl
    by_cases hempty : d.walSize = 0
    · rcases ClosedFile.mem_expandKvBlock hg with hheader | rfl
      · refine ClosedFile.log_congr ?_ fun i hi => by omega
        simp only [ClosedFile.walSize, ClosedFile.walStart, hheader]
      · exact ClosedFile.log_expanded d target
    · rw [ClosedFile.expandKvBlock, if_pos (by omega)] at hg
      simp at hg

/-- A block of the first stage with one entry behind it, and an expansion to the next stage pending. -/
def oneEntry : ClosedFile where
  header := ⟨512, 65536, 0, 66052, false, 1⟩
  file := (ofBytes []).write 66048 entryMagic

lemma region_oneEntry : oneEntry.file.region 66048 4 = entryMagic := region_write _ _ rfl

theorem expandKvBlock_survives_sameStage :
    0 < oneEntry.walSize ∧ ∀ g ∈ oneEntry :: oneEntry.expandKvBlock 32 0, (g.reopened 32).log = oneEntry.log :=
  ⟨by decide, (expandKvBlock_survives_iff 32 oneEntry 0 fun _ => region_oneEntry).2.mpr (.inr (.inl (by decide)))⟩

theorem expandKvBlock_loses_entry :
    oneEntry.log = entryMagic ∧ ∃ g ∈ oneEntry.expandKvBlock 32 1, (g.reopened 32).log ≠ oneEntry.log := by
  have hsize : 66048 + entryMagic.length ≤ oneEntry.file.size := le_size_write _ _ (by decide)
  exact ⟨region_oneEntry, ClosedFile.exists_lost (by decide) hsize (by decide) region_oneEntry⟩

end AeorDb.Wal
