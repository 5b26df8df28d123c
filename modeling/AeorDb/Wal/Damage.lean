import AeorDb.Wal.Scanner

/-! The rebuild scan of a log with one damaged region. -/

namespace AeorDb.Wal

open Library Store Header EntryHeader List

def ScannedEntry.entryEnd (e : ScannedEntry) : ℕ := e.offset + e.header.totalLength

def ScannedEntry.forRebuild (e : ScannedEntry) : ScannedRebuildEntry :=
  ⟨e.offset, e.header, e.key, if e.header.entryType = .chunk ∨ e.header.entryType = .void then none else some e.value⟩

structure WellFormed (blake3 : Blake3) (f : ByteFile) (e : ScannedEntry) : Prop where
  header : deserialize f e.offset = .ok e.header
  length : e.header.totalLength = e.header.headerSize + (e.header.keyLength + e.header.valueLength)
  key : f.readExact (e.offset + e.header.headerSize) e.header.keyLength = some e.key
  value : f.readExact (e.offset + e.header.headerSize + e.header.keyLength) e.header.valueLength = some e.value
  verified : e.header.verify blake3 e.key e.value = true

inductive LogOf (blake3 : Blake3) (f : ByteFile) : ℕ → ℕ → List ScannedEntry → Prop where
  | nil (p : ℕ) : LogOf blake3 f p p []
  | cons {stop : ℕ} {e : ScannedEntry} {entries : List ScannedEntry} (he : WellFormed blake3 f e)
      (hrest : LogOf blake3 f e.entryEnd stop entries) : LogOf blake3 f e.offset stop (e :: entries)

structure Damaged (a b : ℕ) (f f' : ByteFile) : Prop where
  size : f'.size = f.size
  data : ∀ i, i < a ∨ b ≤ i → f'.data i = f.data i

def Intact (a b : ℕ) (e : ScannedEntry) : Prop := e.entryEnd ≤ a ∨ b ≤ e.offset

inductive Lands (f : ByteFile) (fileLength : ℕ) : ℕ → ℕ → Prop where
  | here (p : ℕ) : Lands f fileLength p p
  | length {p q : ℕ} {header : EntryHeader} (hp : p < fileLength) (hheader : deserialize f p = .ok header)
      (hlength : header.totalLength = header.headerSize + (header.keyLength + header.valueLength))
      (hend : p + header.totalLength ≤ fileLength) (hrest : Lands f fileLength (p + header.totalLength) q) : Lands f fileLength p q
  | mismatch {p q : ℕ} {header : EntryHeader} (hp : p < fileLength) (hheader : deserialize f p = .ok header)
      (hlength : header.totalLength ≠ header.headerSize + (header.keyLength + header.valueLength))
      (hrest : Lands f fileLength (p + max header.totalLength 1) q) : Lands f fileLength p q
  | search {p q next : ℕ} {error : EntryError} (hp : p < fileLength) (hheader : deserialize f p = .error error)
      (heof : error ≠ .unexpectedEof) (hnext : scanForNextMagic f fileLength (p + 1) = some next) (hrest : Lands f fileLength next q) :
      Lands f fileLength p q

variable {blake3 : Blake3} {f f' : ByteFile} {fileLength start stop p q a b : ℕ} {report : Bool} {e : ScannedEntry}
  {entries : List ScannedEntry} {header : EntryHeader} {error : EntryError}

lemma position_of_mismatch (hp : p < fileLength) (hheader : deserialize f p = .ok header)
    (hlength : header.totalLength ≠ header.headerSize + (header.keyLength + header.valueLength)) :
    (nextRebuildEntry blake3 f fileLength report p).position? = some (p + max header.totalLength 1) := by
  rw [nextRebuildEntry, if_neg (not_le.mpr hp), hheader]
  dsimp only
  rw [if_pos hlength]
  exact position_passOver ..

lemma nextRebuildEntry_of_length (hp : p < fileLength) (hheader : deserialize f p = .ok header)
    (hlength : header.totalLength = header.headerSize + (header.keyLength + header.valueLength)) (hend : p + header.totalLength ≤ fileLength) :
    nextRebuildEntry blake3 f fileLength report p = rebuildPayload blake3 f report p header := by
  rw [nextRebuildEntry, if_neg (not_le.mpr hp), hheader]
  dsimp only
  rw [if_neg (not_not.mpr hlength), if_neg (not_lt.mpr hend)]

lemma nextRebuildEntry_of_error (hp : p < fileLength) (hheader : deserialize f p = .error error) :
    nextRebuildEntry blake3 f fileLength report p = passHeader f fileLength report p error := by
  rw [nextRebuildEntry, if_neg (not_le.mpr hp), hheader]

lemma Lands.reaches (h : Lands f fileLength p q) : Turn.Reaches (nextRebuildEntry blake3 f fileLength report) p q := by
  induction h with
  | here p => exact .refl
  | length hp hheader hlength hend _ ih =>
    refine .head ?_ ih
    rw [nextRebuildEntry_of_length hp hheader hlength hend, position_rebuildPayload]
  | mismatch hp hheader hlength _ ih => exact .head (position_of_mismatch hp hheader hlength) ih
  | search hp hheader heof hnext _ ih =>
    refine .head ?_ ih
    rw [nextRebuildEntry_of_error hp hheader, passHeader, if_neg heof, hnext]
    exact position_passOver ..

lemma lands_of_reaches (hq : q < fileLength) (h : Turn.Reaches (nextRebuildEntry blake3 f fileLength report) p q) :
    Lands f fileLength p q := by
  induction h using Relation.ReflTransGen.head_induction_on with
  | refl => exact .here q
  | @head p r hstep hreach ih =>
    have hp : p < fileLength := by
      by_contra hle
      rw [nextRebuildEntry_stop (not_lt.mp hle)] at hstep
      cases hstep
    cases hheader : deserialize f p with
    | error error =>
      rw [nextRebuildEntry_of_error hp hheader, passHeader] at hstep
      split_ifs at hstep with heof
      · cases hstep
      · cases hnext : scanForNextMagic f fileLength (p + 1) with
        | none =>
          rw [hnext] at hstep
          cases hstep
        | some next =>
          rw [hnext, position_passOver] at hstep
          cases hstep
          exact .search hp hheader heof hnext ih
    | ok header =>
      by_cases hlength : header.totalLength = header.headerSize + (header.keyLength + header.valueLength)
      · by_cases hend : p + header.totalLength ≤ fileLength
        · rw [nextRebuildEntry_of_length hp hheader hlength hend, position_rebuildPayload] at hstep
          cases hstep
          exact .length hp hheader hlength hend ih
        · -- the scan has left the log, and does not come back
          rw [nextRebuildEntry, if_neg (not_le.mpr hp), hheader] at hstep
          dsimp only at hstep
          rw [if_neg (not_not.mpr hlength), if_pos (not_le.mp hend)] at hstep
          cases report with
          | false => cases hstep
          | true =>
            cases hstep
            exact absurd (Turn.Reaches.le (fun _ _ => nextRebuildEntry_forward) hreach) (not_le.mpr hq)
      · rw [position_of_mismatch hp hheader hlength] at hstep
        cases hstep
        exact .mismatch hp hheader hlength ih

lemma Damaged.readExact (h : Damaged a b f f') {offset length : ℕ} (hout : offset + length ≤ a ∨ b ≤ offset) :
    f'.readExact offset length = f.readExact offset length := by
  rw [ByteFile.readExact, ByteFile.readExact, h.size]
  have hregion : f'.region offset length = f.region offset length := by
    apply ByteFile.region_congr
    intro i hi
    apply h.data
    omega
  rw [hregion]

lemma WellFormed.lt_entryEnd (h : WellFormed blake3 f e) : e.offset < e.entryEnd := by
  have hsize : 0 < e.header.headerSize := Nat.add_pos_left (by decide) _
  have hle : e.header.headerSize ≤ e.header.totalLength := h.length ▸ Nat.le_add_right _ _
  rw [ScannedEntry.entryEnd]
  omega

lemma deserialize_congr (hheader : deserialize f p = .ok header)
    (hread : ∀ offset length, p ≤ offset → offset + length ≤ p + header.headerSize → f'.readExact offset length = f.readExact offset length) :
    deserialize f' p = .ok header := by
  have hfixed : f'.readExact p fixedHeaderSize = f.readExact p fixedHeaderSize := hread p _ le_rfl (by rw [headerSize]; omega)
  rw [deserialize, hfixed]
  rw [deserialize] at hheader
  cases hbytes : f.readExact p fixedHeaderSize with
  | none =>
    rw [hbytes] at hheader
    cases hheader
  | some fixed =>
    rw [hbytes] at hheader
    dsimp only at hheader ⊢
    split_ifs at hheader ⊢ with hmagic
    split at hheader
    · cases hheader
    · split at hheader
      · cases hheader
      · split at hheader
        · cases hheader
        · next hashAlgo _ _ _ _ =>
          split at hheader
          · cases hheader
          · next hash hhash =>
            cases hheader
            have hsame := hread (p + fixedHeaderSize) hashAlgo.hashLength (Nat.le_add_right _ _) (Nat.add_assoc _ _ _).le
            simp only [*]

lemma WellFormed.congr (h : WellFormed blake3 f e)
    (hread : ∀ offset length, e.offset ≤ offset → offset + length ≤ e.entryEnd → f'.readExact offset length = f.readExact offset length) :
    WellFormed blake3 f' e := by
  have hend : e.entryEnd = e.offset + e.header.headerSize + e.header.keyLength + e.header.valueLength := by
    rw [ScannedEntry.entryEnd, h.length]
    omega
  refine ⟨deserialize_congr h.header fun offset length hstart hlength => hread offset length hstart ?_, h.length, ?_, ?_, h.verified⟩
  · omega
  · rw [hread _ _ (by omega) (by omega)]
    exact h.key
  · rw [hread _ _ (by omega) (by omega)]
    exact h.value

lemma WellFormed.of_damaged (h : WellFormed blake3 f e) (hdamage : Damaged a b f f') (hintact : Intact a b e) : WellFormed blake3 f' e := by
  refine h.congr fun offset length hstart hend => hdamage.readExact ?_
  rcases hintact with hbefore | hbehind <;> omega

lemma WellFormed.nextRebuildEntry (h : WellFormed blake3 f e) (hend : e.entryEnd ≤ fileLength) :
    nextRebuildEntry blake3 f fileLength report e.offset = .yield (.ok e.forRebuild) e.entryEnd := by
  rw [nextRebuildEntry_of_length (h.lt_entryEnd.trans_le hend) h.header h.length hend, rebuildPayload, h.key]
  rw [h.value]
  dsimp only
  rw [if_pos h.verified, ScannedEntry.forRebuild]
  split_ifs <;> rfl

lemma LogOf.le (h : LogOf blake3 f start stop entries) : start ≤ stop := by
  induction h with
  | nil p => exact le_rfl
  | cons he _ ih => exact he.lt_entryEnd.le.trans ih

lemma LogOf.append_iff {xs ys : List ScannedEntry} :
    LogOf blake3 f start stop (xs ++ ys) ↔ ∃ mid, LogOf blake3 f start mid xs ∧ LogOf blake3 f mid stop ys := by
  induction xs generalizing start with
  | nil =>
    constructor
    · exact fun h => ⟨start, .nil start, h⟩
    · rintro ⟨mid, hnil, h⟩
      cases hnil
      exact h
  | cons e xs ih =>
    constructor
    · intro h
      cases h with
      | cons he hrest =>
        obtain ⟨mid, hxs, hys⟩ := ih.mp hrest
        exact ⟨mid, .cons he hxs, hys⟩
    · rintro ⟨mid, hxs, hys⟩
      cases hxs with
      | cons he hrest => exact .cons he (ih.mpr ⟨mid, hrest, hys⟩)

lemma LogOf.of_damaged (h : LogOf blake3 f start stop entries) (hdamage : Damaged a b f f') (hintact : ∀ e ∈ entries, Intact a b e) :
    LogOf blake3 f' start stop entries := by
  induction h with
  | nil p => exact .nil p
  | cons he _ ih =>
    exact .cons (he.of_damaged hdamage (hintact _ mem_cons_self)) (ih fun x hx => hintact x (mem_cons_of_mem _ hx))

lemma LogOf.reaches (h : LogOf blake3 f start stop entries) (hstop : stop ≤ fileLength) :
    Turn.Reaches (Wal.nextRebuildEntry blake3 f fileLength report) start stop := by
  induction h with
  | nil p => exact .refl
  | cons he hrest ih =>
    refine .head ?_ (ih hstop)
    rw [he.nextRebuildEntry (hrest.le.trans hstop)]
    rfl

lemma LogOf.returned (h : LogOf blake3 f start stop entries) (hstop : stop ≤ fileLength) (he : e ∈ entries) :
    ∃ p q, Turn.Reaches (Wal.nextRebuildEntry blake3 f fileLength report) start p ∧
      Wal.nextRebuildEntry blake3 f fileLength report p = .yield (.ok e.forRebuild) q := by
  induction h with
  | nil p => cases he
  | @cons stop x entries hx hrest ih =>
    have hturn : Wal.nextRebuildEntry blake3 f fileLength report x.offset = .yield (.ok x.forRebuild) x.entryEnd :=
      hx.nextRebuildEntry (hrest.le.trans hstop)
    rcases mem_cons.mp he with rfl | he
    · exact ⟨e.offset, e.entryEnd, .refl, hturn⟩
    · obtain ⟨p, q, hreach, hq⟩ := ih hstop he
      refine ⟨p, q, .head ?_ hreach, hq⟩
      rw [hturn]
      rfl

lemma LogOf.bounds (h : LogOf blake3 f start stop entries) (he : e ∈ entries) :
    start ≤ e.offset ∧ e.offset < e.entryEnd ∧ e.entryEnd ≤ stop := by
  induction h with
  | nil p => cases he
  | @cons stop x entries hx hrest ih =>
    have hlt := hx.lt_entryEnd
    rcases mem_cons.mp he with rfl | he
    · exact ⟨le_rfl, hlt, hrest.le⟩
    · obtain ⟨hstart, hrest⟩ := ih he
      exact ⟨hlt.le.trans hstart, hrest⟩

lemma LogOf.exists_split (h : LogOf blake3 f start stop entries) (a b : ℕ) : ∃ before hit after, entries = before ++ (hit ++ after) ∧
    (∀ e ∈ before, e.entryEnd ≤ a) ∧ (∀ e ∈ hit, a < e.entryEnd ∧ e.offset < b) ∧ ∀ e ∈ after, b ≤ e.offset := by
  induction h with
  | nil p => exact ⟨[], [], [], rfl, by simp, by simp, by simp⟩
  | @cons stop x entries hx hrest ih =>
    obtain ⟨before, hit, after, rfl, hbefore, hhit, hafter⟩ := ih
    have hlater : ∀ e ∈ before ++ (hit ++ after), x.entryEnd ≤ e.offset ∧ e.offset < e.entryEnd := fun e he =>
      ⟨(hrest.bounds he).1, (hrest.bounds he).2.1⟩
    have hlt := hx.lt_entryEnd
    by_cases ha : x.entryEnd ≤ a
    · exact ⟨x :: before, hit, after, rfl, forall_mem_cons.mpr ⟨ha, hbefore⟩, hhit, hafter⟩
    have hnone : before = [] := by
      refine eq_nil_iff_forall_not_mem.mpr fun e he => ?_
      have hend := hbefore e he
      have hstart := hlater e (mem_append_left _ he)
      omega
    subst hnone
    by_cases hb : x.offset < b
    · exact ⟨[], x :: hit, after, rfl, by simp, forall_mem_cons.mpr ⟨⟨not_le.mp ha, hb⟩, hhit⟩, hafter⟩
    · have hmissed : hit = [] := by
        refine eq_nil_iff_forall_not_mem.mpr fun e he => ?_
        have hstruck := hhit e he
        have hstart := hlater e (mem_append_right [] (mem_append_left after he))
        omega
      subst hmissed
      exact ⟨[], [], x :: after, rfl, by simp, by simp, forall_mem_cons.mpr ⟨not_lt.mp hb, hafter⟩⟩

lemma offset_of_yield {x : ScannedRebuildEntry} (h : nextRebuildEntry blake3 f fileLength report p = .yield (.ok x) q) : x.offset = p := by
  have hpass : ∀ (offset : ℕ) (reason : Reason) (r : ℕ), passOver report offset reason r ≠ .yield (.ok x) q := by
    intro offset reason r hyield
    cases report <;> cases hyield
  by_cases hp : fileLength ≤ p
  · rw [nextRebuildEntry_stop hp] at h
    cases h
  cases hheader : deserialize f p with
  | error error =>
    rw [nextRebuildEntry_of_error (not_le.mp hp) hheader, passHeader] at h
    split_ifs at h
    split at h
    · cases h
    · exact absurd h (hpass _ _ _)
  | ok header =>
    rw [nextRebuildEntry, if_neg hp, hheader] at h
    dsimp only at h
    by_cases hlength : header.totalLength = header.headerSize + (header.keyLength + header.valueLength)
    · rw [if_neg (not_not.mpr hlength)] at h
      split_ifs at h
      · cases h
      · rw [rebuildPayload] at h
        split at h
        · exact absurd h (hpass _ _ _)
        · split_ifs at h
          · cases h
            rfl
          · split at h
            · exact absurd h (hpass _ _ _)
            · split_ifs at h
              · cases h
                rfl
              · exact absurd h (hpass _ _ _)
    · rw [if_pos hlength] at h
      exact absurd h (hpass _ _ _)

lemma LogOf.first_eq (h : LogOf blake3 f start stop (e :: entries)) : start = e.offset := by
  cases h with
  | cons he hrest => rfl

/-- The rebuild scan returns all entries outside the damage exactly if, from the first entry that is struck, it comes to the first one
behind the damage. -/
theorem rebuild_finds_intact_iff (hlog : LogOf blake3 f start fileLength entries) (hdamage : Damaged a b f f') (report : Bool) :
    (∃ found, Turn.scan (nextRebuildEntry blake3 f' fileLength report) (fileLength - start + 1) start = some found ∧
      ∀ e ∈ entries, Intact a b e → .ok e.forRebuild ∈ found) ↔
    ∀ before first hit behind after, entries = before ++ (first :: hit ++ behind :: after) → (∀ e ∈ before, e.entryEnd ≤ a) →
      (∀ e ∈ first :: hit, a < e.entryEnd ∧ e.offset < b) → b ≤ behind.offset → Lands f' fileLength first.offset behind.offset := by
  have hforward : ∀ p q, (nextRebuildEntry blake3 f' fileLength report p).position? = some q → p < q := fun _ _ => nextRebuildEntry_forward
  constructor
  · rintro ⟨found, hscan, hfound⟩ before first hit behind after rfl hbefore hstruck hbehind
    obtain ⟨mid, hbeforeLog, hrest⟩ := LogOf.append_iff.mp hlog
    obtain ⟨mid', hhitLog, hafterLog⟩ := LogOf.append_iff.mp hrest
    obtain rfl := hhitLog.first_eq
    obtain rfl := hafterLog.first_eq
    have hlimit := hafterLog.bounds mem_cons_self
    have hfirst : Turn.Reaches (nextRebuildEntry blake3 f' fileLength report) start first.offset :=
      (hbeforeLog.of_damaged hdamage fun e he => .inl (hbefore e he)).reaches hrest.le
    have hmem := hfound behind (by simp) (.inr hbehind)
    obtain ⟨q, r, hreach, hyield⟩ := Turn.exists_of_mem_scan hscan hmem
    obtain rfl : behind.offset = q := offset_of_yield hyield
    exact lands_of_reaches (hlimit.2.1.trans_le hlimit.2.2) (hfirst.of_le hforward hreach hhitLog.le)
  · intro hlands
    obtain ⟨found, hscan⟩ := Turn.scan_ends (fun p q _ => hforward p q) (fun _ => nextRebuildEntry_stop) (Nat.zero_le start)
      (Nat.lt_succ_self (fileLength - start))
    refine ⟨found, hscan, fun e he hintact => ?_⟩
    obtain ⟨before, hit, after, rfl, hbefore, hhit, hafter⟩ := hlog.exists_split a b
    obtain ⟨mid, hbeforeLog, hrest⟩ := LogOf.append_iff.mp hlog
    obtain ⟨mid', hhitLog, hafterLog⟩ := LogOf.append_iff.mp hrest
    have hbeforeLog' := hbeforeLog.of_damaged hdamage fun e he => .inl (hbefore e he)
    have hafterLog' := hafterLog.of_damaged hdamage fun e he => .inr (hafter e he)
    have hmid : Turn.Reaches (nextRebuildEntry blake3 f' fileLength report) start mid := hbeforeLog'.reaches hrest.le
    rcases mem_append.mp he with hleft | hright
    · obtain ⟨p, q, hreach, hyield⟩ := hbeforeLog'.returned hrest.le hleft
      exact Turn.mem_of_reaches hreach hyield hscan
    rcases mem_append.mp hright with hmiddle | hlast
    · -- a struck entry is not one of those that must be found
      have hstruck := hhit e hmiddle
      rcases hintact with hend | hstart <;> omega
    have hacross : Turn.Reaches (nextRebuildEntry blake3 f' fileLength report) mid mid' := by
      cases hit with
      | nil =>
        cases hhitLog
        exact .refl
      | cons first hit =>
        cases after with
        | nil => cases hlast
        | cons behind after =>
          obtain rfl := hhitLog.first_eq
          obtain rfl := hafterLog.first_eq
          exact (hlands before first hit behind after rfl hbefore hhit (hafter behind mem_cons_self)).reaches
    obtain ⟨p, q, hreach, hyield⟩ := hafterLog'.returned le_rfl hlast
    exact Turn.mem_of_reaches (hmid.trans (hacross.trans hreach)) hyield hscan

def plainHeader (totalLength : UInt8) : List UInt8 :=
  entryMagic ++ [0, 2, 0, 1, 0, 0, 0] ++ [1, 0, 0, 0] ++ [0, 0, 0, 0] ++ List.replicate 8 0 ++ [totalLength, 0, 0, 0] ++ List.replicate 32 0

def zeroHash : Blake3 := fun _ => List.replicate 32 0

def twoRecords (totalLength key : UInt8) : ByteFile := .ofBytes (plainHeader totalLength ++ [key] ++ plainHeader 64 ++ [8])

def plainRecord (offset : ℕ) (key : UInt8) : ScannedEntry where
  offset := offset
  header := ⟨0, .fileRecord, 0, .blake3_256, .none, 0, 1, 0, 0, 64, List.replicate 32 0⟩
  key := [key]
  value := []

set_option maxRecDepth 20000 in
lemma log_twoRecords : LogOf zeroHash (twoRecords 64 7) 0 128 [plainRecord 0 7, plainRecord 64 8] := by
  have hfirst : WellFormed zeroHash (twoRecords 64 7) (plainRecord 0 7) :=
    ⟨by decide, by decide, by decide, by decide, by decide⟩
  have hsecond : WellFormed zeroHash (twoRecords 64 7) (plainRecord 64 8) :=
    ⟨by decide, by decide, by decide, by decide, by decide⟩
  exact .cons hfirst (.cons hsecond (.nil 128))

lemma damaged_of_bytes {f f' : ByteFile} (hsize : f'.size = f.size) (h : ∀ i < f.size, i < a ∨ b ≤ i → f'.data i = f.data i) :
    Damaged a b f f' := by
  refine ⟨hsize, fun i hi => ?_⟩
  by_cases hlt : i < f.size
  · exact h i hlt hi
  · rw [f.beyond i (not_lt.mp hlt), f'.beyond i (hsize.symm ▸ not_lt.mp hlt)]

set_option maxRecDepth 20000 in
theorem rebuild_finds_intact_key :
    Damaged 63 64 (twoRecords 64 7) (twoRecords 64 9) ∧
    ∃ found, Turn.scan (nextRebuildEntry zeroHash (twoRecords 64 9) 128 true) (128 - 0 + 1) 0 = some found ∧
      ∀ e ∈ [plainRecord 0 7, plainRecord 64 8], Intact 63 64 e → .ok e.forRebuild ∈ found := by
  have hdamage : Damaged 63 64 (twoRecords 64 7) (twoRecords 64 9) := damaged_of_bytes rfl (by decide)
  refine ⟨hdamage, (rebuild_finds_intact_iff log_twoRecords hdamage true).mpr ?_⟩
  intro before first hit behind after hsplit _ hstruck hbehind
  have hheader : deserialize (twoRecords 64 9) 0 = .ok (plainRecord 0 7).header := by decide
  have hmem : first ∈ [plainRecord 0 7, plainRecord 64 8] ∧ behind ∈ [plainRecord 0 7, plainRecord 64 8] := by
    rw [hsplit]
    simp
  have hfirst : first = plainRecord 0 7 := by
    have hoffset := (hstruck first mem_cons_self).2
    rcases mem_pair.mp hmem.1 with h | h
    · exact h
    · rw [h] at hoffset
      exact absurd hoffset (by decide)
  have hlast : behind = plainRecord 64 8 := by
    rcases mem_pair.mp hmem.2 with h | h
    · rw [h] at hbehind
      exact absurd hbehind (by decide)
    · exact h
  rw [hfirst, hlast]
  exact .length (by decide) hheader (by decide) (by decide) (.here 64)

set_option maxRecDepth 20000 in
theorem intact_record_lost :
    LogOf zeroHash (twoRecords 64 7) 0 128 [plainRecord 0 7, plainRecord 64 8] ∧
    Damaged 27 28 (twoRecords 64 7) (twoRecords 128 7) ∧ (twoRecords 128 7).region 27 1 = [128] ∧ Intact 27 28 (plainRecord 64 8) ∧
    Turn.scan (nextRebuildEntry zeroHash (twoRecords 128 7) 128 true) 129 0 = some [.error ⟨0, .notTotalLength 1 0 63 128⟩] :=
  ⟨log_twoRecords, damaged_of_bytes rfl (by decide), by decide, .inr (by decide), by decide⟩

end AeorDb.Wal
