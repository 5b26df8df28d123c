import AeorDb.Header.Updates

/-! What an open transaction shows on disk: HEAD in memory runs ahead of the header in the file. -/

namespace AeorDb.Header

open FileHeader HeaderEngine List

def Inside : ℕ → List HeaderStep → Prop
  | _, [] => True
  | nested, .beginTransaction :: steps => Inside (nested + 1) steps
  | 0, .endTransaction :: _ => False
  | nested + 1, .endTransaction :: steps => Inside nested steps
  | _, .expandKvBlockOnline _ .crashed :: _ => False
  | _, .reopen :: _ => False
  | nested, .updateHead .. :: steps => Inside nested steps
  | nested, .flushHotBuffer .. :: steps => Inside nested steps
  | nested, .persistFlush _ :: steps => Inside nested steps
  | nested, .expandKvBlockOnline .. :: steps => Inside nested steps

/-- Whenever the index grows, or one of the `pending` flushes from before writes the header, HEAD in memory is the one on disk. -/
def WritesOnlyHead (disk : List UInt8) : List UInt8 → ℕ → List HeaderStep → Prop
  | _, _, [] => True
  | _, pending, .updateHead headHash _ _ :: steps => WritesOnlyHead disk headHash.1 pending steps
  | memory, pending, .persistFlush i :: steps =>
    if i < pending then memory = disk ∧ WritesOnlyHead disk memory (pending - 1) steps
    else WritesOnlyHead disk memory pending steps
  | memory, pending, .expandKvBlockOnline _ _ :: steps => memory = disk ∧ WritesOnlyHead disk memory pending steps
  | memory, pending, .beginTransaction :: steps => WritesOnlyHead disk memory pending steps
  | memory, pending, .endTransaction :: steps => WritesOnlyHead disk memory pending steps
  | memory, pending, .flushHotBuffer _ _ :: steps => WritesOnlyHead disk memory pending steps
  | memory, pending, .reopen :: steps => WritesOnlyHead disk memory pending steps

structure SameSession (s t : HeaderEngine) : Prop where
  head : t.writer.fileHeader.headHash = s.writer.fileHeader.headHash
  depth : t.transactionDepth = s.transactionDepth
  pending : t.pendingFlushes = s.pendingFlushes

variable {crc32 : Crc32} {s t : HeaderEngine} {disk : FileHeader} {head : List UInt8} {n nested : ℕ}

lemma SameSession.trans {u : HeaderEngine} (h₁ : SameSession s t) (h₂ : SameSession t u) : SameSession s u :=
  ⟨h₂.head.trans h₁.head, h₂.depth.trans h₁.depth, h₂.pending.trans h₁.pending⟩

lemma sameSession_updateFileHeader {header : FileHeader} (hhead : header.headHash = s.writer.fileHeader.headHash) :
    SameSession s (s.updateFileHeader crc32 header) := ⟨hhead, rfl, rfl⟩

lemma sameSession_finalizeExpansion {x : Expansion} (h : s.finalizeExpansion crc32 x = some t) : SameSession s t := by
  rw [finalizeExpansion] at h
  split at h
  · cases h
  · cases h
    exact ⟨rfl, rfl, rfl⟩

lemma sameSession_expandKvBlockOnline (s : HeaderEngine) (x : Expansion) {outcome : Outcome} (houtcome : outcome ≠ .crashed) :
    SameSession s (s.expandKvBlockOnline crc32 x outcome) := by
  have hmarked : SameSession s (s.updateFileHeader crc32 (x.mark s.writer.fileHeader)) := sameSession_updateFileHeader rfl
  cases outcome with
  | failed => exact hmarked
  | crashed => exact absurd rfl houtcome
  | completed =>
    rw [expandKvBlockOnline]
    split
    · exact hmarked
    · next finalized hfinalized =>
      exact (hmarked.trans (sameSession_finalizeExpansion hfinalized)).trans (sameSession_updateFileHeader rfl)

lemma Synced.heads_iff (head : List UInt8) (h : Synced crc32 s disk n) (steps : List HeaderStep) (hdepth : nested < s.transactionDepth)
    (hin : Inside nested steps) (hn : n + headerWrites steps + 1 < 2 ^ 64) : ∃ ws, (s.run crc32 steps).history = s.history ++ ws ∧
      ((∀ w ∈ ws, diskHead crc32 w.after = .ok head) ↔
        WritesOnlyHead head s.writer.fileHeader.headHash s.pendingFlushes.length steps) := by
  induction steps generalizing s disk n nested with
  | nil => exact ⟨[], (append_nil _).symm, by simp [WritesOnlyHead]⟩
  | cons st steps ih =>
    have hwrites : headerWrites (st :: steps) = st.writes + headerWrites steps := rfl
    rw [hwrites] at hn
    rw [run_cons]
    cases st with
    | updateHead headHash currentOffset now =>
      have hstep : s.step crc32 (.updateHead headHash currentOffset now) = s.setHeaderInMemory
          { s.writer.fileHeader with headHash := headHash.1, hotTailOffset := currentOffset, updatedAt := now } :=
        if_pos (by omega)
      rw [hstep]
      exact ih (h.setHeaderInMemory (h.valid.setHead headHash.2 currentOffset now) h.sequence) hdepth hin (by omega)
    | beginTransaction =>
      have h' : Synced crc32 (s.step crc32 .beginTransaction) disk n := ⟨h.steady, h.valid, h.sequence⟩
      exact ih h' (Nat.succ_lt_succ hdepth) hin (by omega)
    | endTransaction =>
      have h' : Synced crc32 (s.step crc32 .endTransaction) disk n := ⟨h.steady, h.valid, h.sequence⟩
      cases nested with
      | zero => exact hin.elim
      | succ nested => exact ih h' (Nat.lt_sub_of_add_lt hdepth) hin (by omega)
    | flushHotBuffer hotTailOffset entryCount =>
      have hstep : s.step crc32 (.flushHotBuffer hotTailOffset entryCount) = s := if_neg (by omega)
      rw [hstep]
      exact ih h hdepth hin (by omega)
    | persistFlush i =>
      rw [WritesOnlyHead, HeaderEngine.step, HeaderEngine.persistFlush]
      by_cases hi : i < s.pendingFlushes.length
      · rw [getElem?_eq_getElem hi, if_pos hi]
        simp only [HeaderStep.writes] at hn
        have h' : Synced crc32 { s with pendingFlushes := s.pendingFlushes.eraseIdx i } disk n := ⟨h.steady, h.valid, h.sequence⟩
        have hvalid : ({ s.writer.fileHeader with
            hotTailOffset := s.pendingFlushes[i].1
            entryCount := s.pendingFlushes[i].2 } : FileHeader).Valid :=
          ⟨h.valid.version, h.valid.fits, h.valid.head, h.valid.base, h.valid.target⟩
        obtain ⟨w, hw, -⟩ := h'.wrote_updateFileHeader hvalid (by omega)
        obtain ⟨ws, hhistory, hiff⟩ := ih (h'.updateFileHeader hvalid) hdepth hin (by omega)
        have hlength : (s.pendingFlushes.eraseIdx i).length = s.pendingFlushes.length - 1 := length_eraseIdx_of_lt hi
        refine ⟨w :: ws, ?_, ?_⟩
        · rw [hhistory, hw.history, append_assoc]
          rfl
        · rw [forall_mem_cons, hiff, hw.heads w mem_cons_self, Except.ok.injEq]
          change _ ∧ WritesOnlyHead head _ (s.pendingFlushes.eraseIdx i).length steps ↔ _
          rw [hlength]
          rfl
      · rw [getElem?_eq_none (by omega), if_neg hi]
        exact ih h hdepth hin (by omega)
    | expandKvBlockOnline x outcome =>
      have houtcome : outcome ≠ .crashed := by
        rintro rfl
        exact hin.elim
      have hsame : SameSession s (s.expandKvBlockOnline crc32 x outcome) := sameSession_expandKvBlockOnline s x houtcome
      have hin' : Inside nested steps := by
        cases outcome with
        | failed => exact hin
        | crashed => exact absurd rfl houtcome
        | completed => exact hin
      obtain ⟨disk', n', ws, hle, hsynced, hwrote, hne, -⟩ := h.expandKvBlockOnline x outcome (by omega)
      obtain ⟨ws', hhistory, hiff⟩ := ih hsynced (hsame.depth ▸ hdepth) hin' (by omega)
      rw [HeaderEngine.step]
      refine ⟨ws ++ ws', ?_, ?_⟩
      · rw [hhistory, hwrote.history, append_assoc]
      · rw [forall_mem_append, hiff, hsame.head, hsame.pending, WritesOnlyHead]
        refine and_congr_left fun _ => ⟨fun hall => ?_, fun heq w hw => ?_⟩
        · obtain ⟨w, hw⟩ := exists_mem_of_ne_nil ws hne
          exact Except.ok.inj ((hwrote.heads w hw).symm.trans (hall w hw))
        · rw [hwrote.heads w hw, heq]
    | reopen => exact hin.elim

def session (crc32 : Crc32) (initial : ValidHeader) (steps : List HeaderStep) : HeaderEngine :=
  (create crc32 initial.1).run crc32 steps

/-- In an open transaction HEAD on disk stays what it was, exactly when the index grows, and late flushes write the header,
only while HEAD in memory is that one. -/
theorem openTransaction_head_stays_iff {initial : ValidHeader} {before inside : List HeaderStep}
    (hs : session crc32 initial (before ++ [.beginTransaction]) = s) (hhead : diskHead crc32 s.writer.file = .ok head)
    (hin : Inside 0 inside) (hcount : headerWrites before + headerWrites inside + 1 < 2 ^ 64) :
    (∀ w ∈ (s.run crc32 inside).history.drop s.history.length, diskHead crc32 w.after = diskHead crc32 s.writer.file) ↔
      WritesOnlyHead head s.writer.fileHeader.headHash s.pendingFlushes.length inside := by
  obtain ⟨disk, n, -, hle, hsynced, -, -⟩ := (synced_create crc32 initial.2).run before (by omega)
  have hbegin : s = (session crc32 initial before).step crc32 .beginTransaction := by
    rw [← hs, session, HeaderEngine.run, List.foldl_append]
    rfl
  have hsynced' : Synced crc32 s disk n := by
    rw [hbegin]
    exact ⟨hsynced.steady, hsynced.valid, hsynced.sequence⟩
  have hdepth : 0 < s.transactionDepth := by
    rw [hbegin]
    exact Nat.succ_pos _
  obtain ⟨ws, hhistory, hiff⟩ := hsynced'.heads_iff head inside hdepth hin (by omega)
  rw [hhistory, List.drop_left, hhead]
  exact hiff

lemma length_noHash : noHash.length = 32 := rfl

def oldHead : { hash : List UInt8 // hash.length = 32 } := ⟨noHash, length_noHash⟩
def newHead : { hash : List UInt8 // hash.length = 32 } := ⟨List.replicate 32 7, rfl⟩

def started : HeaderEngine := session (fun _ => 0) (sampleHeader 0) ([] ++ [.beginTransaction])

def growsFirst : List HeaderStep :=
  [.expandKvBlockOnline ⟨1, 131072, 140000⟩ .completed, .updateHead newHead 150000 5, .flushHotBuffer 150000 1]

set_option maxRecDepth 20000 in
theorem openTransaction_head_stays_growsFirst :
    WritesOnlyHead noHash started.writer.fileHeader.headHash started.pendingFlushes.length growsFirst ∧
    ∀ w ∈ (started.run (fun _ => 0) growsFirst).history.drop started.history.length,
      diskHead (fun _ => 0) w.after = diskHead (fun _ => 0) started.writer.file := by
  have hkeeps : WritesOnlyHead noHash started.writer.fileHeader.headHash started.pendingFlushes.length growsFirst :=
    ⟨rfl, trivial⟩
  have hread : diskHead (fun _ => 0) started.writer.file = .ok noHash := by decide
  have hinside : Inside 0 growsFirst := trivial
  have hs : session (fun _ => 0) (sampleHeader 0) ([] ++ [.beginTransaction]) = started := rfl
  exact ⟨hkeeps, (openTransaction_head_stays_iff hs hread hinside (by decide)).mpr hkeeps⟩

def leaked : HeaderEngine :=
  started.run (fun _ => 0) [.updateHead newHead 140000 5, .expandKvBlockOnline ⟨1, 131072, 150000⟩ .completed]

set_option maxRecDepth 20000 in
theorem expansion_leaks_head :
    leaked.transactionDepth = 1 ∧ diskHead (fun _ => 0) started.writer.file = .ok oldHead.1 ∧
      leaked.history.map (fun w => diskHead (fun _ => 0) w.after) = [.ok newHead.1, .ok newHead.1, .ok newHead.1] := by
  decide

end AeorDb.Header
