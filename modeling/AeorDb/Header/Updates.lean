import AeorDb.Header.Slots

/-! The header writes of a running engine: by the log writer, and by the index when its block grows. -/

namespace AeorDb.Header

open FileHeader List

structure SlotWrite where
  before : HeaderRegion
  slot : Slot
  after : HeaderRegion

structure HeaderEngine where
  writer : AppendWriter
  transactionDepth : ℕ
  -- hot tail offset and entry count of flushes that have let go of the index and not yet written the header
  pendingFlushes : List (UInt64 × UInt64)
  -- the header writes so far, which the engine itself does not keep
  history : List SlotWrite

structure Expansion where
  targetStage : UInt8
  newBlockSize : UInt64
  newHotTail : UInt64

namespace Expansion

def mark (x : Expansion) (header : FileHeader) : FileHeader :=
  { header with resizeInProgress := true, resizeTargetStage := x.targetStage }

def finish (x : Expansion) (header : FileHeader) : FileHeader :=
  { header with
    kvBlockLength := x.newBlockSize
    kvBlockStage := x.targetStage
    resizeInProgress := false
    resizeTargetStage := 0
    hotTailOffset := x.newHotTail }

end Expansion

inductive Outcome where
  | failed | crashed | completed
  deriving DecidableEq

inductive HeaderStep where
  | updateHead (headHash : { hash : List UInt8 // hash.length = 32 }) (currentOffset : UInt64) (now : Int64)
  | beginTransaction
  | endTransaction
  | flushHotBuffer (hotTailOffset entryCount : UInt64)
  | persistFlush (i : ℕ)
  | expandKvBlockOnline (x : Expansion) (outcome : Outcome)
  | reopen

namespace HeaderStep

def writes : HeaderStep → ℕ
  | .updateHead .. => 1
  | .persistFlush _ => 1
  | .expandKvBlockOnline _ .failed => 1
  | .expandKvBlockOnline _ .crashed => 2
  | .expandKvBlockOnline _ .completed => 3
  | _ => 0

def CompletesExpansion (step : HeaderStep) : Prop := ∃ x, step = .expandKvBlockOnline x .completed

end HeaderStep

namespace HeaderEngine

variable (crc32 : Crc32)

def create (initial : FileHeader) : HeaderEngine := ⟨writeInitialHeader crc32 initial, 0, [], []⟩

def updateFileHeader (s : HeaderEngine) (header : FileHeader) : HeaderEngine :=
  let writer := s.writer.updateHeader crc32 header
  { s with writer, history := s.history ++ [⟨s.writer.file, s.writer.activeSlot.other, writer.file⟩] }

def setHeaderInMemory (s : HeaderEngine) (header : FileHeader) : HeaderEngine :=
  { s with writer.fileHeader := { header with updatedAt := max header.updatedAt s.writer.fileHeader.updatedAt } }

def updateHead (s : HeaderEngine) (headHash : List UInt8) (currentOffset : UInt64) (now : Int64) : HeaderEngine :=
  let header := { s.writer.fileHeader with headHash, hotTailOffset := currentOffset, updatedAt := now }
  if 0 < s.transactionDepth then s.setHeaderInMemory header else s.updateFileHeader crc32 header

def flushHotBuffer (s : HeaderEngine) (hotTailOffset entryCount : UInt64) : HeaderEngine :=
  if s.transactionDepth = 0 then { s with pendingFlushes := s.pendingFlushes ++ [(hotTailOffset, entryCount)] } else s

def persistFlush (s : HeaderEngine) (i : ℕ) : HeaderEngine :=
  match s.pendingFlushes[i]? with
  | none => s
  | some (hotTailOffset, entryCount) =>
    { s with pendingFlushes := s.pendingFlushes.eraseIdx i }.updateFileHeader crc32
      { s.writer.fileHeader with hotTailOffset, entryCount }

def finalizeExpansion (s : HeaderEngine) (x : Expansion) : Option HeaderEngine :=
  match readActiveHeader crc32 s.writer.file with
  | .error _ => none
  | .ok (header, activeSlot) =>
    let next := { x.finish header with sequence := header.sequence + 1 }
    let file := Function.update s.writer.file activeSlot.other (next.serialize crc32)
    some { s with writer.file := file, history := s.history ++ [⟨s.writer.file, activeSlot.other, file⟩] }

def reopen (s : HeaderEngine) : HeaderEngine :=
  match readActiveHeader crc32 s.writer.file with
  | .error _ => s
  | .ok (fileHeader, activeSlot) => ⟨⟨s.writer.file, fileHeader, activeSlot⟩, 0, [], s.history⟩

def expandKvBlockOnline (s : HeaderEngine) (x : Expansion) (outcome : Outcome) : HeaderEngine :=
  let marked := s.updateFileHeader crc32 (x.mark s.writer.fileHeader)
  match outcome with
  | .failed => marked
  | .crashed => ((marked.finalizeExpansion crc32 x).getD marked).reopen crc32
  | .completed =>
    match marked.finalizeExpansion crc32 x with
    | none => marked
    | some finalized => finalized.updateFileHeader crc32 (x.finish finalized.writer.fileHeader)

def step (s : HeaderEngine) : HeaderStep → HeaderEngine
  | .updateHead headHash currentOffset now => s.updateHead crc32 headHash.1 currentOffset now
  | .beginTransaction => { s with transactionDepth := s.transactionDepth + 1 }
  | .endTransaction => { s with transactionDepth := s.transactionDepth - 1 }
  | .flushHotBuffer hotTailOffset entryCount => s.flushHotBuffer hotTailOffset entryCount
  | .persistFlush i => s.persistFlush crc32 i
  | .expandKvBlockOnline x outcome => s.expandKvBlockOnline crc32 x outcome
  | .reopen => s.reopen crc32

def run (s : HeaderEngine) (steps : List HeaderStep) : HeaderEngine := steps.foldl (step crc32) s

end HeaderEngine

def diskHead (crc32 : Crc32) (file : HeaderRegion) : Except HeaderError (List UInt8) :=
  (readActiveHeader crc32 file).map fun found => found.1.headHash

def SlotWrite.Spares (crc32 : Crc32) (x : SlotWrite) : Prop :=
  ∃ header slot, readActiveHeader crc32 x.before = .ok (header, slot) ∧ x.slot ≠ slot ∧
    ∀ mixed, storedCrc mixed ≠ computedCrc crc32 mixed →
      readActiveHeader crc32 (Function.update x.before x.slot mixed) = .ok (header, slot)

structure Synced (crc32 : Crc32) (s : HeaderEngine) (disk : FileHeader) (n : ℕ) : Prop where
  steady : Steady crc32 { s.writer with fileHeader := disk } n
  valid : s.writer.fileHeader.Valid
  sequence : s.writer.fileHeader.sequence = disk.sequence

section

open HeaderEngine

variable {crc32 : Crc32} {s : HeaderEngine} {disk header : FileHeader} {x : Expansion} {n : ℕ}

lemma FileHeader.Valid.mark (hv : header.Valid) (x : Expansion) : (x.mark header).Valid :=
  ⟨hv.version, hv.fits, hv.head, hv.base, hv.target⟩

lemma FileHeader.Valid.finish (hv : header.Valid) (x : Expansion) : (x.finish header).Valid :=
  ⟨hv.version, hv.fits, hv.head, hv.base, hv.target⟩

variable {w : AppendWriter}

lemma Steady.read (h : Steady crc32 w n) (hn : n + 1 < 2 ^ 64) : readActiveHeader crc32 w.file = .ok (w.fileHeader, w.activeSlot) :=
  readActiveHeader_unwritten h fun hdvd => absurd (Nat.le_of_dvd (Nat.succ_pos n) hdvd) (by omega)

lemma Synced.read (h : Synced crc32 s disk n) (hn : n + 1 < 2 ^ 64) :
    readActiveHeader crc32 s.writer.file = .ok (disk, s.writer.activeSlot) :=
  h.steady.read hn

lemma synced_create (crc32 : Crc32) (hv : header.Valid) : Synced crc32 (create crc32 header) (create crc32 header).writer.fileHeader 0 where
  steady := steady_writeInitialHeader crc32 hv
  valid := (steady_writeInitialHeader crc32 hv).valid
  sequence := rfl

lemma Synced.updateFileHeader (h : Synced crc32 s disk n) (hv : header.Valid) :
    Synced crc32 (s.updateFileHeader crc32 header) (s.writer.nextHeader header) (n + 1) where
  steady := by
    apply h.steady.write (hv.nextHeader s.writer)
    rw [AppendWriter.sequence_nextHeader, h.sequence]
  valid := hv.nextHeader s.writer
  sequence := rfl

lemma Synced.setHeaderInMemory (h : Synced crc32 s disk n) (hv : header.Valid) (hsequence : header.sequence = disk.sequence) :
    Synced crc32 (s.setHeaderInMemory header) disk n where
  steady := h.steady
  valid := ⟨hv.version, hv.fits, hv.head, hv.base, hv.target⟩
  sequence := hsequence

lemma Synced.reopen (h : Synced crc32 s disk n) (hn : n + 1 < 2 ^ 64) : Synced crc32 (s.reopen crc32) disk n := by
  rw [HeaderEngine.reopen, h.read hn]
  exact ⟨h.steady, h.steady.valid, rfl⟩

lemma history_reopen (s : HeaderEngine) : (s.reopen crc32).history = s.history := by
  rw [HeaderEngine.reopen]
  split <;> rfl

lemma Steady.spares (h : Steady crc32 w n) (hn : n + 1 < 2 ^ 64) (after : HeaderRegion) :
    SlotWrite.Spares crc32 ⟨w.file, w.activeSlot.other, after⟩ :=
  ⟨_, _, h.read hn, Slot.other_ne _, fun _ hcrc => readActiveHeader_detected h hcrc⟩

lemma Steady.not_spares (h : Steady crc32 w n) (hn : n + 1 < 2 ^ 64) (after : HeaderRegion) :
    ¬ SlotWrite.Spares crc32 ⟨w.file, w.activeSlot, after⟩ := by
  rintro ⟨header, slot, hread, hne, -⟩
  rw [h.read hn] at hread
  exact hne (congrArg Prod.snd (Except.ok.inj hread))

structure Wrote (crc32 : Crc32) (s t : HeaderEngine) (head : List UInt8) (writes : List SlotWrite) : Prop where
  history : t.history = s.history ++ writes
  heads : ∀ w ∈ writes, diskHead crc32 w.after = .ok head

lemma Wrote.trans {t u : HeaderEngine} {head : List UInt8} {first second : List SlotWrite} (h₁ : Wrote crc32 s t head first)
    (h₂ : Wrote crc32 t u head second) : Wrote crc32 s u head (first ++ second) where
  history := by rw [h₂.history, h₁.history, append_assoc]
  heads w hw := (mem_append.mp hw).elim (h₁.heads w) (h₂.heads w)

lemma Steady.diskHead (h : Steady crc32 w n) (hn : n + 1 < 2 ^ 64) : diskHead crc32 w.file = .ok w.fileHeader.headHash := by
  rw [Header.diskHead, h.read hn]
  rfl

lemma Synced.wrote_updateFileHeader (h : Synced crc32 s disk n) (hv : header.Valid) (hn : n + 2 < 2 ^ 64) :
    ∃ w, Wrote crc32 s (s.updateFileHeader crc32 header) header.headHash [w] ∧ w.Spares crc32 := by
  refine ⟨_, ⟨rfl, ?_⟩, h.steady.spares (by omega) _⟩
  intro w hw
  rw [mem_singleton.mp hw]
  exact (h.updateFileHeader hv).steady.diskHead hn

lemma Synced.finalizeExpansion (h : Synced crc32 s disk n) (hn : n + 2 < 2 ^ 64) (x : Expansion) :
    ∃ finalized next w, s.finalizeExpansion crc32 x = some finalized ∧ Wrote crc32 s finalized disk.headHash [w] ∧ w.Spares crc32 ∧
      Steady crc32 ⟨finalized.writer.file, next, s.writer.activeSlot.other⟩ (n + 1) ∧ next.sequence = disk.sequence + 1 ∧
      finalized = { s with writer.file := finalized.writer.file, history := s.history ++ [w] } := by
  have hvalid := h.steady.valid
  have hnext : ({ x.finish disk with sequence := disk.sequence + 1 } : FileHeader).Valid :=
    ⟨hvalid.version, hvalid.fits, hvalid.head, hvalid.base, hvalid.target⟩
  have hwrite := h.steady.write hnext rfl
  rw [HeaderEngine.finalizeExpansion, h.read (by omega)]
  refine ⟨_, _, _, rfl, ⟨rfl, ?_⟩, h.steady.spares (by omega) _, hwrite, rfl, rfl⟩
  intro w hw
  rw [mem_singleton.mp hw]
  exact hwrite.diskHead (by omega)

lemma Synced.publish {finalized : HeaderEngine} {next : FileHeader} {w : SlotWrite} (h : Synced crc32 s disk n) (hn : n + 2 < 2 ^ 64)
    (hsteady : Steady crc32 ⟨finalized.writer.file, next, s.writer.activeSlot.other⟩ (n + 1))
    (hsequence : next.sequence = disk.sequence + 1)
    (hfinalized : finalized = { s with writer.file := finalized.writer.file, history := s.history ++ [w] }) (hv : header.Valid) :
    Synced crc32 (finalized.updateFileHeader crc32 header) (finalized.writer.nextHeader header) (n + 1) ∧
      ∃ w', Wrote crc32 finalized (finalized.updateFileHeader crc32 header) header.headHash [w'] ∧ ¬ w'.Spares crc32 := by
  have hmemory : finalized.writer.fileHeader = s.writer.fileHeader := by rw [hfinalized]
  have hslot : finalized.writer.activeSlot = s.writer.activeSlot := by rw [hfinalized]
  have hnext : (finalized.writer.nextHeader header).sequence = next.sequence := by
    rw [AppendWriter.sequence_nextHeader, hmemory, h.sequence, hsequence]
  have hrewritten := hsteady.rewrite (hv.nextHeader finalized.writer) hnext
  rw [← hslot] at hrewritten hsteady
  refine ⟨⟨hrewritten, hv.nextHeader _, rfl⟩, _, ⟨rfl, ?_⟩, hsteady.not_spares (by omega) _⟩
  intro w hw
  rw [mem_singleton.mp hw]
  exact hrewritten.diskHead (by omega)

lemma Synced.expandKvBlockOnline (h : Synced crc32 s disk n) (x : Expansion) (outcome : Outcome)
    (hn : n + (HeaderStep.expandKvBlockOnline x outcome).writes + 1 < 2 ^ 64) :
    ∃ disk' n' ws, n' ≤ n + (HeaderStep.expandKvBlockOnline x outcome).writes ∧
      Synced crc32 (s.expandKvBlockOnline crc32 x outcome) disk' n' ∧
      Wrote crc32 s (s.expandKvBlockOnline crc32 x outcome) s.writer.fileHeader.headHash ws ∧ ws ≠ [] ∧
      ((∀ w ∈ ws, w.Spares crc32) ↔ outcome ≠ .completed) := by
  have hmark := h.valid.mark x
  have hmarked := h.updateFileHeader hmark
  cases outcome with
  | failed =>
    simp only [HeaderEngine.expandKvBlockOnline, HeaderStep.writes] at hn ⊢
    obtain ⟨w, hw, hspares⟩ := h.wrote_updateFileHeader hmark (by omega)
    exact ⟨_, _, [w], le_rfl, hmarked, hw, cons_ne_nil _ _, by simp [hspares]⟩
  | crashed =>
    simp only [HeaderEngine.expandKvBlockOnline, HeaderStep.writes] at hn ⊢
    obtain ⟨w, hw, hspares⟩ := h.wrote_updateFileHeader hmark (by omega)
    obtain ⟨finalized, next, w', hfinalize, hw', hspares', hsteady, -, -⟩ := hmarked.finalizeExpansion (by omega) x
    have hopen := hsteady.read (by omega)
    have hreopen : finalized.reopen crc32 =
        ⟨⟨finalized.writer.file, next, (s.updateFileHeader crc32 (x.mark s.writer.fileHeader)).writer.activeSlot.other⟩, 0, [],
          finalized.history⟩ := by
      rw [HeaderEngine.reopen, hopen]
    have hboth := hw.trans hw'
    rw [hfinalize, Option.getD_some, hreopen]
    refine ⟨next, n + 2, _, le_rfl, ⟨hsteady, hsteady.valid, rfl⟩, ⟨hboth.history, hboth.heads⟩, by simp, ?_⟩
    simp [hspares, hspares']
  | completed =>
    simp only [HeaderEngine.expandKvBlockOnline, HeaderStep.writes] at hn ⊢
    obtain ⟨w, hw, hspares⟩ := h.wrote_updateFileHeader hmark (by omega)
    obtain ⟨finalized, next, w', hfinalize, hw', -, hsteady, hsequence, hfinalized⟩ := hmarked.finalizeExpansion (by omega) x
    have hmemory : finalized.writer.fileHeader = (s.updateFileHeader crc32 (x.mark s.writer.fileHeader)).writer.fileHeader := by
      rw [hfinalized]
    have hvalid : (x.finish finalized.writer.fileHeader).Valid := by
      rw [hmemory]
      exact hmarked.valid.finish x
    obtain ⟨hpublished, w'', hw'', hoverwritten⟩ := hmarked.publish (by omega) hsteady hsequence hfinalized hvalid
    have hhead : (x.finish finalized.writer.fileHeader).headHash = s.writer.fileHeader.headHash := by
      rw [hmemory]
      rfl
    rw [hhead] at hw''
    rw [hfinalize]
    refine ⟨_, n + 2, _, by omega, hpublished, (hw.trans hw').trans hw'', by simp, ?_⟩
    simp [hoverwritten]

lemma FileHeader.Valid.setHead (hv : header.Valid) {hash : List UInt8} (hhash : hash.length = 32) (offset : UInt64) (now : Int64) :
    ({ header with headHash := hash, hotTailOffset := offset, updatedAt := now } : FileHeader).Valid :=
  ⟨hv.version, hv.fits, hhash.trans hv.fits.symm, hv.base, hv.target⟩

lemma Synced.step (h : Synced crc32 s disk n) (st : HeaderStep) (hn : n + st.writes + 1 < 2 ^ 64) :
    ∃ disk' n' ws, n' ≤ n + st.writes ∧ Synced crc32 (s.step crc32 st) disk' n' ∧
      (s.step crc32 st).history = s.history ++ ws ∧ ((∀ w ∈ ws, w.Spares crc32) ↔ ¬ st.CompletesExpansion) := by
  cases st with
  | updateHead headHash currentOffset now =>
    have hhead := h.valid.setHead headHash.2 currentOffset now
    simp only [HeaderEngine.step, HeaderEngine.updateHead]
    simp only [HeaderStep.writes] at hn ⊢
    split_ifs
    · exact ⟨disk, n, [], by omega, h.setHeaderInMemory hhead h.sequence, by simp [HeaderEngine.setHeaderInMemory],
        by simp [HeaderStep.CompletesExpansion]⟩
    · obtain ⟨w, hw, hspares⟩ := h.wrote_updateFileHeader hhead (by omega)
      exact ⟨_, n + 1, [w], le_rfl, h.updateFileHeader hhead, hw.history, by simp [hspares, HeaderStep.CompletesExpansion]⟩
  | beginTransaction =>
    exact ⟨disk, n, [], Nat.le_add_right _ _, ⟨h.steady, h.valid, h.sequence⟩, (append_nil _).symm,
      by simp [HeaderStep.CompletesExpansion]⟩
  | endTransaction =>
    exact ⟨disk, n, [], Nat.le_add_right _ _, ⟨h.steady, h.valid, h.sequence⟩, (append_nil _).symm,
      by simp [HeaderStep.CompletesExpansion]⟩
  | flushHotBuffer hotTailOffset entryCount =>
    refine ⟨disk, n, [], Nat.le_add_right _ _, ?_, ?_, by simp [HeaderStep.CompletesExpansion]⟩
    · rw [HeaderEngine.step, HeaderEngine.flushHotBuffer]
      split_ifs
      · exact ⟨h.steady, h.valid, h.sequence⟩
      · exact h
    · rw [HeaderEngine.step, HeaderEngine.flushHotBuffer, append_nil]
      split_ifs <;> rfl
  | persistFlush i =>
    rw [HeaderEngine.step, HeaderEngine.persistFlush]
    cases hpending : s.pendingFlushes[i]? with
    | none => exact ⟨disk, n, [], Nat.le_add_right _ _, h, (append_nil _).symm, by simp [HeaderStep.CompletesExpansion]⟩
    | some flush =>
      simp only [HeaderStep.writes] at hn ⊢
      have h' : Synced crc32 { s with pendingFlushes := s.pendingFlushes.eraseIdx i } disk n := ⟨h.steady, h.valid, h.sequence⟩
      have hvalid : ({ s.writer.fileHeader with hotTailOffset := flush.1, entryCount := flush.2 } : FileHeader).Valid :=
        ⟨h.valid.version, h.valid.fits, h.valid.head, h.valid.base, h.valid.target⟩
      obtain ⟨w, hw, hspares⟩ := h'.wrote_updateFileHeader hvalid (by omega)
      exact ⟨_, n + 1, [w], le_rfl, h'.updateFileHeader hvalid, hw.history, by simp [hspares, HeaderStep.CompletesExpansion]⟩
  | expandKvBlockOnline x outcome =>
    obtain ⟨disk', n', ws, hle, hsynced, hwrote, -, hspares⟩ := h.expandKvBlockOnline x outcome hn
    refine ⟨disk', n', ws, hle, hsynced, hwrote.history, hspares.trans ?_⟩
    simp [HeaderStep.CompletesExpansion]
  | reopen =>
    rw [HeaderEngine.step]
    exact ⟨disk, n, [], Nat.le_add_right _ _, h.reopen (by omega), (history_reopen s).trans (append_nil _).symm,
      by simp [HeaderStep.CompletesExpansion]⟩

end

open HeaderEngine

variable {crc32 : Crc32} {s : HeaderEngine} {disk : FileHeader} {n : ℕ}

def headerWrites (steps : List HeaderStep) : ℕ := (steps.map HeaderStep.writes).sum

lemma run_cons (crc32 : Crc32) (s : HeaderEngine) (st : HeaderStep) (steps : List HeaderStep) :
    s.run crc32 (st :: steps) = (s.step crc32 st).run crc32 steps := rfl

lemma Synced.run (h : Synced crc32 s disk n) (steps : List HeaderStep) (hn : n + headerWrites steps + 1 < 2 ^ 64) :
    ∃ disk' n' ws, n' ≤ n + headerWrites steps ∧ Synced crc32 (s.run crc32 steps) disk' n' ∧
      (s.run crc32 steps).history = s.history ++ ws ∧
      ((∀ w ∈ ws, w.Spares crc32) ↔ ∀ st ∈ steps, ¬ st.CompletesExpansion) := by
  induction steps generalizing s disk n with
  | nil => exact ⟨disk, n, [], Nat.le_add_right _ _, h, (append_nil _).symm, by simp⟩
  | cons st steps ih =>
    have hwrites : headerWrites (st :: steps) = st.writes + headerWrites steps := rfl
    rw [hwrites] at hn ⊢
    obtain ⟨disk₁, n₁, ws₁, hle₁, hsynced₁, hhistory₁, hspares₁⟩ := h.step st (by omega)
    obtain ⟨disk₂, n₂, ws₂, hle₂, hsynced₂, hhistory₂, hspares₂⟩ := ih hsynced₁ (by omega)
    refine ⟨disk₂, n₂, ws₁ ++ ws₂, by omega, hsynced₂, ?_, ?_⟩
    · rw [run_cons, hhistory₂, hhistory₁, append_assoc]
    · rw [forall_mem_append, hspares₁, hspares₂, forall_mem_cons]

/-- Every header write goes to the slot that is not in use, exactly when no expansion of the index runs to its end. -/
theorem headerWrites_spare_current_iff (crc32 : Crc32) (initial : ValidHeader) (steps : List HeaderStep)
    (hcount : headerWrites steps + 1 < 2 ^ 64) :
    (∀ w ∈ ((create crc32 initial.1).run crc32 steps).history, w.Spares crc32) ↔ ∀ st ∈ steps, ¬ st.CompletesExpansion := by
  obtain ⟨_, _, ws, -, -, hhistory, hspares⟩ := (synced_create crc32 initial.2).run steps (by omega)
  rw [hhistory]
  exact hspares

def careful : List HeaderStep :=
  [.updateHead ⟨noHash, rfl⟩ 70000 1, .expandKvBlockOnline ⟨1, 131072, 140000⟩ .failed, .reopen, .updateHead ⟨noHash, rfl⟩ 70000 2]

theorem headerWrites_spare_current_careful :
    headerWrites careful + 1 < 2 ^ 64 ∧
      ((∀ w ∈ ((create (fun _ => 0) (sampleHeader 0).1).run (fun _ => 0) careful).history, w.Spares fun _ => 0) ↔
        ∀ st ∈ careful, ¬ st.CompletesExpansion) :=
  ⟨by decide, headerWrites_spare_current_iff _ (sampleHeader 0) careful (by decide)⟩

def grown : HeaderEngine :=
  (create (fun _ => 0) (sampleHeader 0).1).run (fun _ => 0) [.expandKvBlockOnline ⟨1, 131072, 140000⟩ .completed]

def slotsWritten (s : HeaderEngine) : List (Slot × Option Slot) :=
  s.history.map fun w => (w.slot, (readActiveHeader (fun _ => 0) w.before).toOption.map Prod.snd)

set_option maxRecDepth 20000 in
theorem expansion_overwrites_current :
    slotsWritten grown = [(.b, some .a), (.a, some .b), (.a, some .a)] ∧ ∃ w ∈ grown.history, ¬ w.Spares fun _ => 0 := by
  obtain ⟨_, _, ws, -, -, hhistory, hspares⟩ :=
    (synced_create (fun _ => 0) (sampleHeader 0).2).run [.expandKvBlockOnline ⟨1, 131072, 140000⟩ .completed] (by decide)
  refine ⟨by decide, ?_⟩
  by_contra hall
  push Not at hall
  apply hspares.mp _ _ mem_cons_self ⟨_, rfl⟩
  intro w hw
  apply hall
  rw [grown, hhistory]
  exact mem_append_right _ hw

end AeorDb.Header
