import AeorDb.Sync.Chunks

/-! Files committed by the hashes of chunks that are stored already: what is read and what is only taken from the index. -/

namespace AeorDb.Sync

open Library Store Wal List Option Except Result

abbrev Bytes := List UInt8

/-- The entries of an index whose keys are all as long as the algorithm's hashes. -/
structure ChunkIndex (hashLength : ℕ) where
  entries : LiveEntries Bytes
  keyLength : ∀ h, entries h ≠ none → h.length = hashLength

structure CommitFile where
  path : Str
  chunks : List Str
  contentHash : Option Str
  size : Option UInt64

structure PreparedCommitFile where
  chunks : List (Bytes × ℕ)
  contentHash : Bytes
  deriving DecidableEq

def PreparedCommitFile.totalSize (p : PreparedCommitFile) : ℕ := (p.chunks.map Prod.snd).sum

section

variable {hashLength : ℕ}

def entryTotalLength (hashLength : ℕ) (key value : Bytes) : ℕ := fixedHeaderSize + hashLength + key.length + value.length

/-- The length of a chunk by its entry in the index alone, which does not say how the chunk is compressed. -/
def ChunkIndex.getChunkMetadata (s : ChunkIndex hashLength) (hash : Bytes) : EngineResult (Option ℕ) :=
  match s.entries hash with
  | none => .ok none
  | some x =>
    if x.entryType ≠ .chunk then .error (.invalidInput "Hash is not a chunk entry")
    else
      let overhead := fixedHeaderSize + hashLength + hashLength
      if entryTotalLength hashLength hash x.bytes < overhead then
        .error (.corruptEntry 0 "chunk KV entry total_length is smaller than header+key overhead")
      else .ok (some (entryTotalLength hashLength hash x.bytes - overhead))

def u64Max : ℕ := 18446744073709551615

def checkedAdd (file : CommitFile) (a b : ℕ) : EngineResult ℕ :=
  if a + b ≤ u64Max then .ok (a + b)
  else .error (.invalidInput ("Commit size overflow while preparing '" ++ String.ofList file.path ++ "'"))

structure Collected (V : Type) where
  chunks : List (Bytes × ℕ)
  missing : List Str
  totalSize : ℕ
  values : List V

/-- The loop over the hashes, once with the lengths of the index and once with the data of the chunks. -/
def collect {V : Type} (look : Bytes → EngineResult (Option V)) (size : V → ℕ) (file : CommitFile) :
    List (Str × Bytes) → Collected V → EngineResult (Collected V)
  | [], c => .ok c
  | (hexHash, rawHash) :: rest, c => do
    match ← look rawHash with
    | some v =>
      let totalSize ← checkedAdd file c.totalSize (size v)
      collect look size file rest ⟨c.chunks ++ [(rawHash, size v)], c.missing, totalSize, c.values ++ [v]⟩
    | none => collect look size file rest { c with missing := c.missing ++ [hexHash] }

def validateCommitSize (file : CommitFile) (actual : ℕ) : EngineResult Unit :=
  if ∀ expected ∈ file.size, expected.toNat = actual then .ok ()
  else .error (.invalidInput ("Size mismatch for '" ++ String.ofList file.path ++ "'"))

variable (decodeHex : Str → Option Bytes)

def decodeCommitChunkHashes (file : CommitFile) : EngineResult (List (Str × Bytes)) :=
  file.chunks.mapM fun hexHash =>
    match decodeHex hexHash with
    | some raw => .ok (hexHash, raw)
    | none => .error (.invalidInput ("Invalid hex chunk hash '" ++ String.ofList hexHash ++ "' for '" ++ String.ofList file.path ++ "'"))

def decodeCommitContentHash (hashLength : ℕ) : Option Str → EngineResult (Option Bytes)
  | none => .ok none
  | some contentHash =>
    match decodeHex contentHash with
    | none => .error (.invalidInput ("Invalid content_hash '" ++ String.ofList contentHash ++ "'"))
    | some decoded =>
      if decoded.length ≠ hashLength then
        .error (.invalidInput ("Invalid content_hash length " ++ toString decoded.length ++ " bytes; expected " ++ toString hashLength ++ " bytes"))
      else .ok (some decoded)

variable (z : Compressor) (computeHash : Bytes → Bytes) (s : ChunkIndex hashLength)

/-- The part of `prepare_commit_file` that reads the chunks. -/
def prepareByBodies (file : CommitFile) (hashes : List (Str × Bytes)) (supplied : Option Bytes) :
    EngineResult (Except (List Str) PreparedCommitFile) := do
  let c ← collect (s.entries.readChunk z) List.length file hashes ⟨[], [], 0, []⟩
  if c.missing ≠ [] then .ok (.error c.missing)
  else
    validateCommitSize file c.totalSize
    -- the hasher is fed chunk by chunk
    let computed := computeHash c.values.flatten
    if ∀ asserted ∈ supplied, asserted = computed then .ok (.ok ⟨c.chunks, computed⟩)
    else .error (.invalidInput ("Content hash mismatch for '" ++ String.ofList file.path ++ "'"))

def prepareCommitFile (file : CommitFile) : EngineResult (Except (List Str) PreparedCommitFile) := do
  let hashes ← decodeCommitChunkHashes decodeHex file
  let supplied ← decodeCommitContentHash decodeHex hashLength file.contentHash
  match supplied.filter fun _ => file.size.isSome with
  | some asserted =>
    let c ← collect s.getChunkMetadata id file hashes ⟨[], [], 0, []⟩
    if c.missing ≠ [] then .ok (.error c.missing)
    else
      match validateCommitSize file c.totalSize with
      | .ok () => .ok (.ok ⟨c.chunks, asserted⟩)
      | .error _ => prepareByBodies z computeHash s file hashes supplied
  | none => prepareByBodies z computeHash s file hashes supplied

/-- The same commit with every chunk read. -/
def prepareSlowly (file : CommitFile) : EngineResult (Except (List Str) PreparedCommitFile) := do
  let hashes ← decodeCommitChunkHashes decodeHex file
  let supplied ← decodeCommitContentHash decodeHex hashLength file.contentHash
  prepareByBodies z computeHash s file hashes supplied

end

lemma toNat_le_u64Max (n : UInt64) : n.toNat ≤ u64Max := by
  have hlt := n.toNat_lt
  rw [u64Max]
  omega

section

variable {V : Type} {look : Bytes → EngineResult (Option V)} {size : V → ℕ} {file : CommitFile}

def Collected.extend (c : Collected V) (size : V → ℕ) (hashes : List (Str × Bytes)) (values : List V) : Collected V :=
  ⟨c.chunks ++ (hashes.map Prod.snd).zip (values.map size), c.missing, c.totalSize + (values.map size).sum, c.values ++ values⟩

lemma missing_subset_collect {hashes : List (Str × Bytes)} {c c' : Collected V} (h : collect look size file hashes c = .ok c') :
    c.missing ⊆ c'.missing := by
  induction hashes generalizing c with
  | nil =>
    cases h
    exact List.Subset.refl _
  | cons x hashes ih =>
    obtain ⟨o, _, h⟩ := Result.bind_eq_ok.mp h
    cases o with
    | some v =>
      obtain ⟨total, _, h⟩ := Result.bind_eq_ok.mp h
      have hrest := ih h
      exact hrest
    | none => exact fun m hm => ih h (mem_append_left _ hm)

lemma collect_complete_iff (look : Bytes → EngineResult (Option V)) (size : V → ℕ) (file : CommitFile) (hashes : List (Str × Bytes))
    {c : Collected V} (c' : Collected V) (hc : c.totalSize ≤ u64Max) :
    collect look size file hashes c = .ok c' ∧ c'.missing = [] ↔ c.missing = [] ∧
      ∃ values, List.Forall₂ (fun x v => look x.2 = .ok (some v)) hashes values ∧
        c.totalSize + (values.map size).sum ≤ u64Max ∧ c' = c.extend size hashes values := by
  induction hashes generalizing c with
  | nil =>
    simp only [collect, Except.ok.injEq, forall₂_nil_left_iff]
    constructor
    · rintro ⟨rfl, hmissing⟩
      exact ⟨hmissing, [], rfl, by simpa using hc, by simp [Collected.extend]⟩
    · rintro ⟨hmissing, _, rfl, _, rfl⟩
      exact ⟨by simp [Collected.extend], hmissing⟩
  | cons x hashes ih =>
    rw [collect, bind_eq_ok]
    constructor
    · rintro ⟨⟨o, ho, h⟩, hmissing⟩
      cases o with
      | none =>
        have hmem := missing_subset_collect h
        rw [hmissing] at hmem
        simp at hmem
      | some v =>
        obtain ⟨total, htotal, h⟩ := Result.bind_eq_ok.mp h
        rw [checkedAdd] at htotal
        split_ifs at htotal with hlt
        obtain rfl : c.totalSize + size v = total := ok.inj htotal
        obtain ⟨hnone, values, hvalues, hsum, rfl⟩ := (ih hlt).mp ⟨h, hmissing⟩
        refine ⟨hnone, v :: values, .cons ho hvalues, ?_, ?_⟩
        · simpa [Nat.add_assoc] using hsum
        · simp [Collected.extend, Nat.add_assoc]
    · rintro ⟨hnone, values, hvalues, hsum, rfl⟩
      obtain ⟨v, values', hv, hrest, rfl⟩ := forall₂_cons_left_iff.mp hvalues
      have hlt : c.totalSize + size v ≤ u64Max := by
        simp only [map_cons, sum_cons] at hsum
        omega
      obtain ⟨d, hd⟩ : ∃ d : Collected V, d = ⟨c.chunks ++ [(x.2, size v)], c.missing, c.totalSize + size v, c.values ++ [v]⟩ := ⟨_, rfl⟩
      have hext : c.extend size (x :: hashes) (v :: values') = d.extend size hashes values' := by
        simp [Collected.extend, hd, Nat.add_assoc]
      obtain ⟨hcollect, hmissing⟩ := (ih (c := d) (by rwa [hd])).mpr ⟨by rwa [hd], values', hrest, by simpa [hd, Nat.add_assoc] using hsum, hext⟩
      refine ⟨⟨some v, hv, ?_⟩, hmissing⟩
      rw [hd] at hcollect
      simpa only [checkedAdd, hlt, if_true] using! hcollect

end

variable {hashLength : ℕ} {decodeHex : Str → Option Bytes} {z : Compressor} {computeHash : Bytes → Bytes} {s : ChunkIndex hashLength}
  {file : CommitFile} {hashes : List (Str × Bytes)} {supplied : Option Bytes} {p : PreparedCommitFile}

/-- `lengths` are the stored lengths of the chunks, which are all there. -/
def ChunkIndex.Stored (s : ChunkIndex hashLength) (hashes : List (Str × Bytes)) (lengths : List ℕ) : Prop :=
  List.Forall₂ (fun x n => ∃ e, s.entries x.2 = some e ∧ e.entryType = .chunk ∧ e.bytes.length = n) hashes lengths

/-- The chunks can be read, and give a file of this size and content hash. -/
def ChunkIndex.Holds (z : Compressor) (computeHash : Bytes → Bytes) (s : ChunkIndex hashLength) (hashes : List Bytes) (size : ℕ)
    (contentHash : Bytes) : Prop :=
  ∃ data, s.entries.assemble z hashes = some data ∧ data.length = size ∧ computeHash data = contentHash

variable {n : ℕ} {asserted : Bytes}

lemma getChunkMetadata_eq_some_iff {h : Bytes} : s.getChunkMetadata h = .ok (some n) ↔
    ∃ e, s.entries h = some e ∧ e.entryType = .chunk ∧ e.bytes.length = n := by
  rw [ChunkIndex.getChunkMetadata]
  cases he : s.entries h with
  | none => simp
  | some e =>
    have hlength : h.length = hashLength := s.keyLength h (by simp [he])
    by_cases htype : e.entryType = .chunk
    · simp [htype, entryTotalLength, hlength]
    · simp [htype]

lemma stored_unique {lengths lengths' : List ℕ} (h : s.Stored hashes lengths) (h' : s.Stored hashes lengths') : lengths = lengths' := by
  induction h generalizing lengths' with
  | nil => exact (forall₂_nil_left_iff.mp h').symm
  | cons hx _ ih =>
    obtain ⟨e, he, _, rfl⟩ := hx
    obtain ⟨_, rest, ⟨e', he', _, rfl⟩, hrest, rfl⟩ := forall₂_cons_left_iff.mp h'
    obtain rfl : e = e' := some.inj (he.symm.trans he')
    rw [ih hrest]

lemma stored_of_reads {values : List Bytes} (h : List.Forall₂ (fun x v => s.entries.readChunk z x.2 = .ok (some v)) hashes values) :
    ∃ lengths, s.Stored hashes lengths := by
  induction h with
  | nil => exact ⟨[], .nil⟩
  | @cons x v hashes values hx _ ih =>
    obtain ⟨lengths, hlengths⟩ := ih
    cases he : s.entries x.2 with
    | none => simp [LiveEntries.readChunk, he] at hx
    | some e =>
      by_cases htype : e.entryType = .chunk
      · exact ⟨_, .cons ⟨e, he, htype, rfl⟩ hlengths⟩
      · simp [LiveEntries.readChunk, he, htype] at hx

lemma assemble_eq_some_iff {data : Bytes} : s.entries.assemble z (hashes.map Prod.snd) = some data ↔
    ∃ values, List.Forall₂ (fun x v => s.entries.readChunk z x.2 = .ok (some v)) hashes values ∧ values.flatten = data := by
  induction hashes generalizing data with
  | nil => simp [LiveEntries.assemble]
  | cons x hashes ih =>
    rw [map_cons, LiveEntries.assemble]
    constructor
    · intro h
      split at h
      · obtain ⟨rest, hrest, rfl⟩ := Option.map_eq_some_iff.mp h
        obtain ⟨values, hvalues, rfl⟩ := ih.mp hrest
        exact ⟨_ :: values, .cons ‹_› hvalues, rfl⟩
      · simp at h
    · rintro ⟨values, hvalues, rfl⟩
      obtain ⟨v, values', hv, hrest, rfl⟩ := forall₂_cons_left_iff.mp hvalues
      rw [hv]
      exact Option.map_eq_some_iff.mpr ⟨values'.flatten, ih.mpr ⟨values', hrest, rfl⟩, rfl⟩

lemma validateCommitSize_eq_ok : validateCommitSize file n = .ok () ↔ ∀ expected ∈ file.size, expected.toNat = n := by
  rw [validateCommitSize]
  split_ifs with h
  · exact iff_of_true rfl h
  · exact iff_of_false (by simp) h

lemma prepareByBodies_eq_ok_iff : prepareByBodies z computeHash s file hashes supplied = .ok (.ok p) ↔
    ∃ values, List.Forall₂ (fun x v => s.entries.readChunk z x.2 = .ok (some v)) hashes values ∧ (values.map List.length).sum ≤ u64Max ∧
      (∀ n ∈ file.size, n.toNat = (values.map List.length).sum) ∧ (∀ asserted ∈ supplied, asserted = computeHash values.flatten) ∧
      p = ⟨(hashes.map Prod.snd).zip (values.map List.length), computeHash values.flatten⟩ := by
  rw [prepareByBodies, bind_eq_ok]
  constructor
  · rintro ⟨c, hc, h⟩
    split_ifs at h with hmissing
    · simp at h
    obtain ⟨_, values, hvalues, hsum, rfl⟩ := (collect_complete_iff _ _ _ _ _ (Nat.zero_le _)).mp ⟨hc, not_not.mp hmissing⟩
    obtain ⟨_, hsize, h⟩ := Result.bind_eq_ok.mp h
    simp only [Collected.extend, nil_append, Nat.zero_add] at hsum hsize h
    split_ifs at h with hhash
    exact ⟨values, hvalues, hsum, validateCommitSize_eq_ok.mp hsize, hhash, (ok.inj (ok.inj h)).symm⟩
  · rintro ⟨values, hvalues, hsum, hsize, hhash, rfl⟩
    obtain ⟨hc, hmissing⟩ := (collect_complete_iff _ _ file _ (Collected.extend ⟨[], [], 0, []⟩ _ hashes values) (Nat.zero_le _)).mpr
      ⟨rfl, values, hvalues, by simpa using hsum, rfl⟩
    refine ⟨_, hc, ?_⟩
    rw [if_neg (not_not.mpr hmissing), bind_eq_ok]
    refine ⟨(), ?_, ?_⟩
    · exact validateCommitSize_eq_ok.mpr (by simpa [Collected.extend] using hsize)
    · simpa [Collected.extend] using hhash

lemma prepareSlowly_eq (hhashes : decodeCommitChunkHashes decodeHex file = .ok hashes)
    (hsupplied : decodeCommitContentHash decodeHex hashLength file.contentHash = .ok supplied) :
    prepareSlowly decodeHex z computeHash s file = prepareByBodies z computeHash s file hashes supplied := by
  simp only [prepareSlowly, hhashes, hsupplied, bind, Except.bind]

lemma holds_of_prepareByBodies (h : prepareByBodies z computeHash s file hashes supplied = .ok (.ok p)) :
    s.Holds z computeHash (p.chunks.map Prod.fst) p.totalSize p.contentHash := by
  obtain ⟨values, hvalues, _, _, _, rfl⟩ := prepareByBodies_eq_ok_iff.mp h
  have hlength := hvalues.length_eq
  refine ⟨values.flatten, ?_, ?_, rfl⟩
  · rw [map_fst_zip (by simp [hlength])]
    exact assemble_eq_some_iff.mpr ⟨values, hvalues, rfl⟩
  · rw [PreparedCommitFile.totalSize, map_snd_zip (by simp [hlength]), length_flatten]

lemma prepareByBodies_accepts_iff {n : UInt64} (hsize : file.size = some n) :
    (∃ p, prepareByBodies z computeHash s file hashes (some asserted) = .ok (.ok p)) ↔
      s.Holds z computeHash (hashes.map Prod.snd) n.toNat asserted := by
  simp only [prepareByBodies_eq_ok_iff]
  constructor
  · rintro ⟨_, values, hvalues, _, hn, hhash, _⟩
    refine ⟨values.flatten, assemble_eq_some_iff.mpr ⟨values, hvalues, rfl⟩, ?_, (hhash asserted rfl).symm⟩
    rw [length_flatten, ← hn n hsize]
  · rintro ⟨data, hdata, hlength, rfl⟩
    obtain ⟨values, hvalues, rfl⟩ := assemble_eq_some_iff.mp hdata
    rw [length_flatten] at hlength
    refine ⟨_, values, hvalues, hlength ▸ toNat_le_u64Max n, ?_, by simp, rfl⟩
    intro m hm
    obtain rfl : n = m := some.inj (hsize.symm.trans hm)
    exact hlength.symm

lemma prepareCommitFile_declared_iff {n : UInt64} (hhashes : decodeCommitChunkHashes decodeHex file = .ok hashes)
    (hsupplied : decodeCommitContentHash decodeHex hashLength file.contentHash = .ok (some asserted)) (hsize : file.size = some n) :
    prepareCommitFile decodeHex z computeHash s file = .ok (.ok p) ↔ ∃ lengths, s.Stored hashes lengths ∧ lengths.sum ≤ u64Max ∧
      (n.toNat = lengths.sum ∧ p = ⟨(hashes.map Prod.snd).zip lengths, asserted⟩ ∨
        n.toNat ≠ lengths.sum ∧ prepareByBodies z computeHash s file hashes (some asserted) = .ok (.ok p)) := by
  have hok : ∀ {m}, n.toNat = m → validateCommitSize file m = .ok () := fun h =>
    validateCommitSize_eq_ok.mpr (by simpa [hsize] using h)
  have hfail : ∀ {m}, n.toNat ≠ m → ∃ err, validateCommitSize file m = .error err := fun h =>
    ⟨_, if_neg (by simpa [hsize] using h)⟩
  have hstored : ∀ lengths, s.Stored hashes lengths ↔
      List.Forall₂ (fun x v => s.getChunkMetadata x.2 = .ok (some v)) hashes lengths := by
    intro lengths
    simp only [ChunkIndex.Stored, getChunkMetadata_eq_some_iff]
  have hprepare : prepareCommitFile decodeHex z computeHash s file = collect s.getChunkMetadata id file hashes ⟨[], [], 0, []⟩ >>= fun c =>
      if c.missing ≠ [] then .ok (.error c.missing)
      else
        match validateCommitSize file c.totalSize with
        | .ok () => .ok (.ok ⟨c.chunks, asserted⟩)
        | .error _ => prepareByBodies z computeHash s file hashes (some asserted) := by
    simp only [prepareCommitFile, hhashes, hsupplied, hsize, bind, Except.bind]
    rfl
  have hresult : ∀ {c : Collected ℕ} {lengths : List ℕ}, c = Collected.extend ⟨[], [], 0, []⟩ id hashes lengths →
      c.chunks = (hashes.map Prod.snd).zip lengths ∧ c.totalSize = lengths.sum := by
    rintro c lengths rfl
    simp [Collected.extend]
  rw [hprepare, bind_eq_ok]
  constructor
  · rintro ⟨c, hc, h⟩
    split_ifs at h with hmissing
    · simp at h
    obtain ⟨_, lengths, hlengths, hsum, hext⟩ := (collect_complete_iff _ _ _ _ _ (Nat.zero_le _)).mp ⟨hc, not_not.mp hmissing⟩
    obtain ⟨hchunks, htotal⟩ := hresult hext
    rw [htotal, hchunks] at h
    refine ⟨lengths, (hstored lengths).mpr hlengths, by simpa using hsum, ?_⟩
    by_cases heq : n.toNat = lengths.sum
    · simp only [hok heq, Except.ok.injEq] at h
      exact .inl ⟨heq, h.symm⟩
    · obtain ⟨err, herr⟩ := hfail heq
      simp only [herr] at h
      exact .inr ⟨heq, h⟩
  · rintro ⟨lengths, hlengths, hsum, hcases⟩
    obtain ⟨c, hext⟩ : ∃ c : Collected ℕ, c = Collected.extend ⟨[], [], 0, []⟩ id hashes lengths := ⟨_, rfl⟩
    obtain ⟨hc, hmissing⟩ := (collect_complete_iff s.getChunkMetadata id file hashes c (Nat.zero_le _)).mpr
      ⟨rfl, lengths, (hstored lengths).mp hlengths, by simpa using hsum, hext⟩
    obtain ⟨hchunks, htotal⟩ := hresult hext
    refine ⟨c, hc, ?_⟩
    rw [if_neg (not_not.mpr hmissing), htotal, hchunks]
    rcases hcases with ⟨heq, rfl⟩ | ⟨hne, h⟩
    · simp only [hok heq]
    · obtain ⟨err, herr⟩ := hfail hne
      simp only [herr]
      exact h

theorem prepareCommitFile_truthful_iff (decodeHex : Str → Option Bytes) (z : Compressor) (computeHash : Bytes → Bytes)
    (s : ChunkIndex hashLength) (file : CommitFile) :
    ((∀ p, prepareCommitFile decodeHex z computeHash s file = .ok (.ok p) →
        s.Holds z computeHash (p.chunks.map Prod.fst) p.totalSize p.contentHash) ∧
      ((∃ p, prepareCommitFile decodeHex z computeHash s file = .ok (.ok p)) ↔
        ∃ p, prepareSlowly decodeHex z computeHash s file = .ok (.ok p))) ↔
      ∀ hashes asserted n lengths, decodeCommitChunkHashes decodeHex file = .ok hashes →
        decodeCommitContentHash decodeHex hashLength file.contentHash = .ok (some asserted) → file.size = some n →
        s.Stored hashes lengths →
          (lengths.sum = n.toNat → s.Holds z computeHash (hashes.map Prod.snd) n.toNat asserted) ∧
          (u64Max < lengths.sum → ¬ s.Holds z computeHash (hashes.map Prod.snd) n.toNat asserted) := by
  cases hhashes : decodeCommitChunkHashes decodeHex file with
  | error err => simp [prepareCommitFile, prepareSlowly, hhashes, bind, Except.bind]
  | ok hashes =>
    cases hsupplied : decodeCommitContentHash decodeHex hashLength file.contentHash with
    | error err => simp [prepareCommitFile, prepareSlowly, hhashes, hsupplied, bind, Except.bind]
    | ok supplied =>
      rw [prepareSlowly_eq hhashes hsupplied]
      by_cases hdeclared : ∃ asserted n, supplied = some asserted ∧ file.size = some n
      · obtain ⟨asserted, n, rfl, hsize⟩ := hdeclared
        simp only [prepareCommitFile_declared_iff hhashes hsupplied hsize, prepareByBodies_accepts_iff hsize]
        constructor
        · rintro ⟨htrue, haccept⟩ hashes' asserted' n' lengths hhashes' hasserted' hsize' hlengths
          obtain rfl : hashes = hashes' := ok.inj hhashes'
          obtain rfl : asserted = asserted' := some.inj (ok.inj hasserted')
          obtain rfl : n = n' := some.inj (hsize.symm.trans hsize')
          have hcount : hashes.length = lengths.length := hlengths.length_eq
          refine ⟨fun hsum => ?_, fun hover hholds => ?_⟩
          · have hholds := htrue _ ⟨lengths, hlengths, hsum ▸ toNat_le_u64Max n, .inl ⟨hsum.symm, rfl⟩⟩
            simpa [PreparedCommitFile.totalSize, map_fst_zip, map_snd_zip, hcount, hsum] using hholds
          · obtain ⟨p, lengths', hlengths', hlt, _⟩ := haccept.mpr hholds
            obtain rfl := stored_unique hlengths hlengths'
            omega
        · intro h
          refine ⟨?_, ?_, fun hholds => ?_⟩
          · rintro p ⟨lengths, hlengths, _, ⟨hsum, rfl⟩ | ⟨_, hbodies⟩⟩
            · have hcount : hashes.length = lengths.length := hlengths.length_eq
              have hholds := (h hashes asserted n lengths rfl rfl hsize hlengths).1 hsum.symm
              simpa [PreparedCommitFile.totalSize, map_fst_zip, map_snd_zip, hcount, hsum] using hholds
            · exact holds_of_prepareByBodies hbodies
          · rintro ⟨p, lengths, hlengths, _, ⟨hsum, _⟩ | ⟨_, hbodies⟩⟩
            · exact (h hashes asserted n lengths rfl rfl hsize hlengths).1 hsum.symm
            · exact (prepareByBodies_accepts_iff hsize).mp ⟨p, hbodies⟩
          · obtain ⟨p, hp⟩ := (prepareByBodies_accepts_iff hsize).mpr hholds
            obtain ⟨values, hvalues, _⟩ := prepareByBodies_eq_ok_iff.mp hp
            obtain ⟨lengths, hlengths⟩ := stored_of_reads hvalues
            have hlt : lengths.sum ≤ u64Max := not_lt.mp fun hover => (h hashes asserted n lengths rfl rfl hsize hlengths).2 hover hholds
            by_cases hsum : n.toNat = lengths.sum
            · exact ⟨_, lengths, hlengths, hlt, .inl ⟨hsum, rfl⟩⟩
            · exact ⟨p, lengths, hlengths, hlt, .inr ⟨hsum, hp⟩⟩
      · have hfast : prepareCommitFile decodeHex z computeHash s file = prepareByBodies z computeHash s file hashes supplied := by
          have hnone : supplied.filter (fun _ => file.size.isSome) = none := by
            rw [filter_eq_none_iff]
            intro asserted hasserted hsome
            obtain ⟨n, hn⟩ := Option.isSome_iff_exists.mp hsome
            exact hdeclared ⟨asserted, n, hasserted, hn⟩
          simp [prepareCommitFile, hhashes, hsupplied, hnone, bind, Except.bind]
        rw [hfast]
        refine iff_of_true ⟨fun p hp => holds_of_prepareByBodies hp, Iff.rfl⟩ ?_
        intro hashes' asserted n lengths _ hasserted hsize
        exact absurd ⟨asserted, n, ok.inj hasserted, hsize⟩ hdeclared

/-- A compressor that only marks its data. -/
def marking : Compressor where
  compress data := 0 :: data
  decompress data := some data.tail
  decompress_compress _ := rfl

/-- One compressed chunk, whose stored bytes are one more than its data. -/
def compressedChunk : ChunkIndex 1 where
  entries h := if h = [7] then some ⟨.chunk, .zstd, [0, 5, 5]⟩ else none
  keyLength h hne := by
    by_cases heq : h = [7]
    · simp [heq]
    · simp [heq] at hne

def digits (text : Str) : Option Bytes := some (text.map fun c => UInt8.ofNat (c.toNat - 48))

def wrongCommit : CommitFile := ⟨['/', 'a'], [['7']], some ['9'], some 3⟩

/-- Declared with the stored length and any content hash, the file of one compressed chunk is committed unread. -/
theorem prepareCommitFile_compressed :
    prepareCommitFile digits marking id compressedChunk wrongCommit = .ok (.ok ⟨[([7], 3)], [9]⟩) ∧
    compressedChunk.entries.assemble marking [[7]] = some [5, 5] ∧
    ¬ ∃ p, prepareSlowly digits marking id compressedChunk wrongCommit = .ok (.ok p) := by
  have hhashes : decodeCommitChunkHashes digits wrongCommit = .ok [(['7'], [7])] := by decide
  have hsupplied : decodeCommitContentHash digits 1 wrongCommit.contentHash = .ok (some [9]) := by decide
  have hread : compressedChunk.entries.assemble marking [[7]] = some [5, 5] := by decide
  have hthree : (3 : UInt64).toNat = 3 := by decide
  refine ⟨?_, hread, ?_⟩
  · refine (prepareCommitFile_declared_iff hhashes hsupplied rfl).mpr ⟨[3], ?_, by simp [u64Max], .inl ⟨hthree, rfl⟩⟩
    exact .cons ⟨⟨.chunk, .zstd, [0, 5, 5]⟩, rfl, rfl, rfl⟩ .nil
  · rw [prepareSlowly_eq hhashes hsupplied, prepareByBodies_accepts_iff rfl]
    rintro ⟨data, hdata, hlength, _⟩
    obtain rfl : [5, 5] = data := some.inj (hread.symm.trans hdata)
    simp [hthree] at hlength

end AeorDb.Sync
