import AeorDb.Header.FileHeader

/-! The two header slots: updates go to the slot that is not in use. -/

namespace AeorDb.Header

open FileHeader Function

inductive Slot where
  | a | b
  deriving DecidableEq

def Slot.other : Slot → Slot
  | .a => .b
  | .b => .a

lemma Slot.other_ne (slot : Slot) : slot.other ≠ slot := by
  cases slot <;> decide

abbrev HeaderRegion := Slot → List UInt8

structure AppendWriter where
  file : HeaderRegion
  fileHeader : FileHeader
  activeSlot : Slot

section

variable (crc32 : Crc32)

def readActiveHeader (file : HeaderRegion) : Except HeaderError (FileHeader × Slot) :=
  match deserialize crc32 (file .a), deserialize crc32 (file .b) with
  | .ok a, .ok b => if b.sequence ≤ a.sequence then .ok (a, .a) else .ok (b, .b)
  | .ok a, .error _ => .ok (a, .a)
  | .error _, .ok b => .ok (b, .b)
  | .error err, .error _ => .error err

def writeInitialHeader (header : FileHeader) : AppendWriter where
  file := fun
    | .a => { header with sequence := 1 }.serialize crc32
    | .b => List.replicate fileHeaderSize 0
  fileHeader := { header with sequence := 1 }
  activeSlot := .a

def AppendWriter.nextHeader (w : AppendWriter) (header : FileHeader) : FileHeader :=
  { header with sequence := w.fileHeader.sequence + 1, updatedAt := max header.updatedAt w.fileHeader.updatedAt }

lemma AppendWriter.sequence_nextHeader (w : AppendWriter) (header : FileHeader) :
    (w.nextHeader header).sequence = w.fileHeader.sequence + 1 := rfl

def AppendWriter.updateHeader (w : AppendWriter) (header : FileHeader) : AppendWriter where
  file := Function.update w.file w.activeSlot.other ((w.nextHeader header).serialize crc32)
  fileHeader := w.nextHeader header
  activeSlot := w.activeSlot.other

structure Torn (old new mixed : List UInt8) : Prop where
  length : mixed.length = fileHeaderSize
  bytes : ∀ i : ℕ, mixed[i]? = old[i]? ∨ mixed[i]? = new[i]?

def Detected (old new mixed : List UInt8) : Prop := mixed ≠ old → mixed ≠ new → storedCrc mixed ≠ computedCrc crc32 mixed

def SurvivesTear (w : AppendWriter) (next : FileHeader) : Prop :=
  ∀ mixed, Torn (w.file w.activeSlot.other) ((w.nextHeader next).serialize crc32) mixed →
    Detected crc32 (w.file w.activeSlot.other) ((w.nextHeader next).serialize crc32) mixed →
    ∃ header slot, readActiveHeader crc32 (Function.update w.file w.activeSlot.other mixed) = .ok (header, slot) ∧
      (header = w.fileHeader ∨ header = w.nextHeader next)

variable {crc32} {file : HeaderRegion} {slot : Slot} {h h' : FileHeader}

lemma readActiveHeader_of_error {err : HeaderError} (hslot : deserialize crc32 (file slot) = .ok h)
    (hother : deserialize crc32 (file slot.other) = .error err) : readActiveHeader crc32 file = .ok (h, slot) := by
  cases slot <;> simp_all [readActiveHeader, Slot.other]

lemma readActiveHeader_of_lt (hslot : deserialize crc32 (file slot) = .ok h) (hother : deserialize crc32 (file slot.other) = .ok h')
    (hlt : h'.sequence < h.sequence) : readActiveHeader crc32 file = .ok (h, slot) := by
  cases slot with
  | a =>
    rw [readActiveHeader, hslot, show file .b = file Slot.a.other from rfl, hother]
    exact if_pos (UInt64.le_of_lt hlt)
  | b =>
    rw [readActiveHeader, hslot, show file .a = file Slot.b.other from rfl, hother]
    exact if_neg (UInt64.not_le.mpr hlt)

lemma exists_error_of_detected {mixed : List UInt8} (h : storedCrc mixed ≠ computedCrc crc32 mixed) :
    ∃ err, deserialize crc32 mixed = .error err := by
  rw [deserialize]
  split_ifs with hmagic
  · exact ⟨_, rfl⟩
  · dsimp only
    split_ifs <;> exact ⟨_, rfl⟩

end

variable {crc32 : Crc32} {w : AppendWriter} {next : FileHeader} {n : ℕ}

abbrev ValidHeader := { h : FileHeader // h.Valid }

lemma FileHeader.Valid.nextHeader (hv : next.Valid) (w : AppendWriter) : (w.nextHeader next).Valid :=
  ⟨hv.version, hv.fits, hv.head, hv.base, hv.target⟩

structure Steady (crc32 : Crc32) (w : AppendWriter) (n : ℕ) : Prop where
  valid : w.fileHeader.Valid
  active : w.file w.activeSlot = w.fileHeader.serialize crc32
  sequence : w.fileHeader.sequence = UInt64.ofNat (n + 1)
  inactive : (n = 0 ∧ w.file w.activeSlot.other = List.replicate fileHeaderSize 0) ∨
    ∃ previous : FileHeader, previous.Valid ∧ 0 < n ∧ previous.sequence = UInt64.ofNat n ∧
      w.file w.activeSlot.other = previous.serialize crc32

lemma steady_writeInitialHeader (crc32 : Crc32) {h : FileHeader} (hv : h.Valid) : Steady crc32 (writeInitialHeader crc32 h) 0 where
  valid := ⟨hv.version, hv.fits, hv.head, hv.base, hv.target⟩
  active := rfl
  sequence := rfl
  inactive := Or.inl ⟨rfl, rfl⟩

lemma Slot.other_other (slot : Slot) : slot.other.other = slot := by
  cases slot <;> rfl

lemma Steady.write (h : Steady crc32 w n) {header : FileHeader} (hv : header.Valid)
    (hsequence : header.sequence = w.fileHeader.sequence + 1) :
    Steady crc32 ⟨Function.update w.file w.activeSlot.other (header.serialize crc32), header, w.activeSlot.other⟩ (n + 1) where
  valid := hv
  active := update_self ..
  sequence := by
    rw [hsequence, h.sequence]
    exact (UInt64.ofNat_add (n + 1) 1).symm
  inactive := by
    refine Or.inr ⟨w.fileHeader, h.valid, Nat.succ_pos n, h.sequence, ?_⟩
    dsimp only
    rw [Slot.other_other, update_of_ne (Slot.other_ne _).symm, h.active]

lemma Steady.updateHeader (h : Steady crc32 w n) (hv : next.Valid) : Steady crc32 (w.updateHeader crc32 next) (n + 1) :=
  h.write (hv.nextHeader w) rfl

lemma Steady.rewrite (h : Steady crc32 w n) {header : FileHeader} (hv : header.Valid)
    (hsequence : header.sequence = w.fileHeader.sequence) :
    Steady crc32 ⟨Function.update w.file w.activeSlot (header.serialize crc32), header, w.activeSlot⟩ n where
  valid := hv
  active := update_self ..
  sequence := hsequence.trans h.sequence
  inactive := by
    dsimp only
    rw [update_of_ne (Slot.other_ne _)]
    exact h.inactive

lemma steady_foldl (updates : List ValidHeader) (h : Steady crc32 w n) :
    Steady crc32 (updates.foldl (fun w next => w.updateHeader crc32 next.1) w) (n + updates.length) := by
  induction updates generalizing w n with
  | nil => exact h
  | cons next updates ih =>
    rw [List.foldl_cons, List.length_cons, Nat.add_comm updates.length 1, ← Nat.add_assoc]
    exact ih (h.updateHeader next.2)

def headerRun (crc32 : Crc32) (initial : ValidHeader) (updates : List ValidHeader) : AppendWriter :=
  updates.foldl (fun w next => w.updateHeader crc32 next.1) (writeInitialHeader crc32 initial.1)

lemma steady_headerRun (crc32 : Crc32) (initial : ValidHeader) (updates : List ValidHeader) :
    Steady crc32 (headerRun crc32 initial updates) updates.length := by
  have h := steady_foldl updates (steady_writeInitialHeader crc32 initial.2)
  rwa [Nat.zero_add] at h

lemma readActiveHeader_detected {mixed : List UInt8} (h : Steady crc32 w n) (hcrc : storedCrc mixed ≠ computedCrc crc32 mixed) :
    readActiveHeader crc32 (Function.update w.file w.activeSlot.other mixed) = .ok (w.fileHeader, w.activeSlot) := by
  obtain ⟨err, herr⟩ := exists_error_of_detected hcrc
  apply readActiveHeader_of_error
  · rw [update_of_ne (Slot.other_ne _).symm, h.active, deserialize_serialize crc32 h.valid]
  · rw [update_self, herr]

section

variable (h : Steady crc32 w n)
include h

lemma readActiveHeader_written (hv : next.Valid) :
    ∃ header slot, readActiveHeader crc32 (Function.update w.file w.activeSlot.other ((w.nextHeader next).serialize crc32)) =
      .ok (header, slot) ∧ (header = w.fileHeader ∨ header = w.nextHeader next) := by
  set file := Function.update w.file w.activeSlot.other ((w.nextHeader next).serialize crc32) with hfile
  have hactive : deserialize crc32 (file w.activeSlot) = .ok w.fileHeader := by
    rw [hfile, update_of_ne (Slot.other_ne _).symm, h.active, deserialize_serialize crc32 h.valid]
  have hwritten : deserialize crc32 (file w.activeSlot.other) = .ok (w.nextHeader next) := by
    rw [hfile, update_self, deserialize_serialize crc32 (hv.nextHeader w)]
  -- the counter has just come back to zero, or the new header has the greater number
  by_cases hlt : w.fileHeader.sequence < (w.nextHeader next).sequence
  · refine ⟨_, _, readActiveHeader_of_lt hwritten ?_ hlt, Or.inr rfl⟩
    rw [Slot.other_other]
    exact hactive
  · refine ⟨_, _, readActiveHeader_of_lt hactive hwritten ?_, Or.inl rfl⟩
    change w.fileHeader.sequence + 1 < w.fileHeader.sequence
    change ¬ w.fileHeader.sequence < w.fileHeader.sequence + 1 at hlt
    rw [UInt64.lt_iff_toNat_lt, UInt64.toNat_add] at hlt ⊢
    have hsize := w.fileHeader.sequence.toNat_lt
    simp only [UInt64.toNat_one] at hlt ⊢
    omega

lemma readActiveHeader_unwritten (hn : ¬ 2 ^ 64 ∣ n + 1) :
    readActiveHeader crc32 w.file = .ok (w.fileHeader, w.activeSlot) := by
  have hactive : deserialize crc32 (w.file w.activeSlot) = .ok w.fileHeader := by
    rw [h.active, deserialize_serialize crc32 h.valid]
  rcases h.inactive with ⟨_, hzero⟩ | ⟨previous, hprevious, _, hsequence, hslot⟩
  · apply readActiveHeader_of_error hactive
    rw [hzero]
    exact deserialize_zeros crc32 _
  · apply readActiveHeader_of_lt hactive (hslot ▸ deserialize_serialize crc32 hprevious)
    rw [hsequence, h.sequence]
    rw [UInt64.lt_iff_toNat_lt, UInt64.toNat_ofNat', UInt64.toNat_ofNat']
    omega

lemma readActiveHeader_wrapped (hn : 2 ^ 64 ∣ n + 1) :
    ∃ previous : FileHeader, previous.Valid ∧ w.file w.activeSlot.other = previous.serialize crc32 ∧
      previous.sequence = UInt64.ofNat n ∧ readActiveHeader crc32 w.file = .ok (previous, w.activeSlot.other) := by
  rcases h.inactive with ⟨rfl, _⟩ | ⟨previous, hprevious, _, hsequence, hslot⟩
  · exact absurd hn (by decide)
  · refine ⟨previous, hprevious, hslot, hsequence, ?_⟩
    have hactive : deserialize crc32 (w.file w.activeSlot.other.other) = .ok w.fileHeader := by
      rw [Slot.other_other, h.active, deserialize_serialize crc32 h.valid]
    apply readActiveHeader_of_lt (hslot ▸ deserialize_serialize crc32 hprevious) hactive
    rw [hsequence, h.sequence, UInt64.lt_iff_toNat_lt, UInt64.toNat_ofNat', UInt64.toNat_ofNat']
    omega

lemma not_survivesTear (hn : 2 ^ 64 ∣ n + 1) (next : FileHeader) : ¬ SurvivesTear crc32 w next := by
  intro hsurvives
  obtain ⟨previous, _, hslot, hsequence, hread⟩ := readActiveHeader_wrapped h hn
  have htorn : Torn (w.file w.activeSlot.other) ((w.nextHeader next).serialize crc32) (w.file w.activeSlot.other) :=
    ⟨by rw [hslot, length_serialize], fun _ => Or.inl rfl⟩
  obtain ⟨header, slot, hheader, hwhich⟩ := hsurvives _ htorn fun hne => absurd rfl hne
  rw [update_eq_self, hread] at hheader
  cases hheader
  have hzero : w.fileHeader.sequence = 0 := by
    rw [h.sequence, ← UInt64.toNat_inj, UInt64.toNat_ofNat']
    exact Nat.mod_eq_zero_of_dvd hn
  have hprevious : previous.sequence.toNat = 2 ^ 64 - 1 := by
    rw [hsequence, UInt64.toNat_ofNat']
    omega
  rcases hwhich with heq | heq
  · rw [heq, hzero] at hprevious
    exact absurd hprevious (by decide)
  · rw [heq, AppendWriter.sequence_nextHeader, hzero] at hprevious
    exact absurd hprevious (by decide)

end

theorem tornUpdate_survives_iff (crc32 : Crc32) (initial next : ValidHeader) (updates : List ValidHeader) :
    SurvivesTear crc32 (headerRun crc32 initial updates) next.1 ↔ ¬ 2 ^ 64 ∣ updates.length + 1 := by
  have h := steady_headerRun crc32 initial updates
  set w := headerRun crc32 initial updates
  constructor
  · intro hsurvives hn
    exact not_survivesTear h hn next.1 hsurvives
  · intro hn mixed htorn hdetected
    by_cases hold : mixed = w.file w.activeSlot.other
    · rw [hold, update_eq_self]
      exact ⟨_, _, readActiveHeader_unwritten h hn, Or.inl rfl⟩
    · by_cases hnew : mixed = (w.nextHeader next.1).serialize crc32
      · rw [hnew]
        exact readActiveHeader_written h next.2
      · exact ⟨_, _, readActiveHeader_detected h (hdetected hold hnew), Or.inl rfl⟩

def noHash : List UInt8 := List.replicate 32 0

def sampleHeader (entryCount : UInt64) : ValidHeader :=
  ⟨⟨3, .blake3_256, 0, 0, 0, 512, 65536, 1, 0, 0, 1, noHash, entryCount, false, 0, 0, 0, 0, 0, 0, noHash, noHash⟩, rfl, rfl, rfl, rfl, rfl⟩

def rewritten (n : ℕ) : AppendWriter := headerRun (fun _ => 0) (sampleHeader 0) (List.replicate n (sampleHeader 0))

def counted (n : ℕ) : AppendWriter := (rewritten n).updateHeader (fun _ => 0) (sampleHeader 1).1

lemma entryCount_headerRun (crc32 : Crc32) (initial : ValidHeader) (n : ℕ) :
    (headerRun crc32 initial (List.replicate n initial)).fileHeader.entryCount = initial.1.entryCount := by
  have hfold : ∀ (n : ℕ) (w : AppendWriter), w.fileHeader.entryCount = initial.1.entryCount →
      ((List.replicate n initial).foldl (fun w next => w.updateHeader crc32 next.1) w).fileHeader.entryCount = initial.1.entryCount := by
    intro n
    induction n with
    | zero => exact fun w h => h
    | succ n ih => exact fun w _ => ih _ rfl
  exact hfold n _ rfl

lemma readActiveHeader_updateHeader (h : Steady crc32 w n) (hv : next.Valid) (hn : 2 ^ 64 ∣ n + 2) :
    readActiveHeader crc32 (w.updateHeader crc32 next).file = .ok (w.fileHeader, w.activeSlot) := by
  obtain ⟨previous, hvalid, hslot, _, hread⟩ := readActiveHeader_wrapped (h.updateHeader hv) hn
  have hother : (w.updateHeader crc32 next).activeSlot.other = w.activeSlot := Slot.other_other _
  have hfile : (w.updateHeader crc32 next).file w.activeSlot = w.fileHeader.serialize crc32 := by
    exact (update_of_ne (Slot.other_ne _).symm _ _).trans h.active
  rw [hother] at hslot hread
  have hsame : previous = w.fileHeader := by
    have hread' := deserialize_serialize crc32 hvalid
    rw [← hslot, hfile, deserialize_serialize crc32 h.valid] at hread'
    exact (Except.ok.inj hread').symm
  rw [hread, hsame]

lemma counted_stale (hn : 2 ^ 64 ∣ n + 2) :
    readActiveHeader (fun _ => 0) (counted n).file = .ok ((rewritten n).fileHeader, (rewritten n).activeSlot) ∧
      (rewritten n).fileHeader.entryCount = 0 ∧ (counted n).fileHeader.entryCount = 1 ∧
      ¬ SurvivesTear (fun _ => 0) (counted n) (sampleHeader 1).1 := by
  have h : Steady (fun _ => 0) (rewritten n) n := by
    have hrun := steady_headerRun (fun _ => 0) (sampleHeader 0) (List.replicate n (sampleHeader 0))
    rwa [List.length_replicate] at hrun
  exact ⟨readActiveHeader_updateHeader h (sampleHeader 1).2 hn, entryCount_headerRun _ _ _, rfl,
    not_survivesTear (h.updateHeader (sampleHeader 1).2) hn _⟩

theorem tornUpdate_stale_after_wrap :
    readActiveHeader (fun _ => 0) (counted (2 ^ 64 - 2)).file =
        .ok ((rewritten (2 ^ 64 - 2)).fileHeader, (rewritten (2 ^ 64 - 2)).activeSlot) ∧
      (rewritten (2 ^ 64 - 2)).fileHeader.entryCount = 0 ∧ (counted (2 ^ 64 - 2)).fileHeader.entryCount = 1 ∧
      ¬ SurvivesTear (fun _ => 0) (counted (2 ^ 64 - 2)) (sampleHeader 1).1 :=
  counted_stale (by norm_num)

end AeorDb.Header
