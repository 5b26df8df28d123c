import AeorDb.Dir.Restore

/-! Uploads that are read piece by piece, beside uploads that are in memory. -/

namespace AeorDb.Dir

open Store Library Grouping Result List

section

variable (sniff : List UInt8 → Str) (isUtf8 : List UInt8 → Bool)

def octetStream : Str := "application/octet-stream".toList

def sampleSize : ℕ := 8192

def isLikelyText (data : List UInt8) : Bool :=
  let sample := data.take (min data.length sampleSize)
  data ≠ [] && isUtf8 sample && !sample.any fun b => b < 0x20 && b ≠ 10 && b ≠ 13 && b ≠ 9

def mediaType (text : Bool) (media : Str) : Str :=
  if media = octetStream ∨ media = "application/x-empty".toList then
    if text then "text/plain".toList else octetStream
  else if media = "application/mp4".toList then "video/mp4".toList
  else media

def Specific (provided : Option Str) : Prop := ∃ t, provided = some t ∧ t ≠ octetStream ∧ t ≠ []

instance (provided : Option Str) : Decidable (Specific provided) :=
  match provided with
  | none => isFalse fun ⟨_, h, _⟩ => by simp at h
  | some t => decidable_of_iff (t ≠ octetStream ∧ t ≠ []) ⟨fun h => ⟨t, rfl, h⟩, fun ⟨_, ht, h⟩ => Option.some.inj ht ▸ h⟩

def detectContentType (data : List UInt8) (provided : Option Str) : Str :=
  if Specific provided then provided.getD [] else mediaType (isLikelyText isUtf8 data) (sniff data)

def sniffing (autoSnapshotName : ℤ → Str) : Env := ⟨detectContentType sniff isUtf8, autoSnapshotName⟩

lemma isLikelyText_take (data : List UInt8) : isLikelyText isUtf8 (data.take sampleSize) = isLikelyText isUtf8 data := by
  have hnil : (data.take sampleSize = []) ↔ data = [] := by
    simp [sampleSize]
  have hsample : ∀ l : List UInt8, l.take (min l.length sampleSize) = l.take sampleSize := by
    intro l
    rw [min_comm, ← take_take, take_length]
  simp only [isLikelyText, hsample, take_take, min_self, ne_eq, hnil]

def readPiece (space : ℕ) : List (List UInt8) → List UInt8 × List (List UInt8)
  | [] => ([], [])
  | piece :: rest => if piece.length ≤ space then (piece, rest) else (piece.take space, piece.drop space :: rest)

lemma readPiece_flatten (space : ℕ) (pieces : List (List UInt8)) :
    (readPiece space pieces).1 ++ (readPiece space pieces).2.flatten = pieces.flatten := by
  cases pieces with
  | nil => rfl
  | cons piece rest =>
    rw [readPiece]
    split_ifs
    · rfl
    · simp [← append_assoc]

def fillBuffer (size : ℕ) (buffer : List UInt8) (pieces : List (List UInt8)) : List UInt8 × List (List UInt8) :=
  if hlt : buffer.length < size then
    let r := readPiece (size - buffer.length) pieces
    if hnil : r.1 = [] then (buffer, r.2)
    else
      have hless : size - (buffer ++ r.1).length < size - buffer.length := by
        have hpos := length_pos_of_ne_nil hnil
        rw [length_append]
        omega
      fillBuffer size (buffer ++ r.1) r.2
  else (buffer, pieces)
termination_by size - buffer.length
decreasing_by exact hless

lemma fillBuffer_flatten (size : ℕ) (buffer : List UInt8) (pieces : List (List UInt8)) :
    (fillBuffer size buffer pieces).1 ++ (fillBuffer size buffer pieces).2.flatten = buffer ++ pieces.flatten := by
  induction buffer, pieces using fillBuffer.induct size with
  | case1 buffer pieces hlt r hnil =>
    rw [fillBuffer, dif_pos hlt, dif_pos hnil, ← readPiece_flatten (size - buffer.length) pieces, hnil, nil_append]
  | case2 buffer pieces hlt r hne _ ih =>
    rw [fillBuffer, dif_pos hlt, dif_neg hne, ih, append_assoc, readPiece_flatten]
  | case3 buffer pieces hfull => rw [fillBuffer, dif_neg hfull]

def readChunks (size : ℕ) (pieces : List (List UInt8)) : List (List UInt8) :=
  let r := fillBuffer size [] pieces
  if hnil : r.1 = [] then []
  else if r.1.length < size then [r.1]
  else
    have hless : r.2.flatten.length < pieces.flatten.length := by
      have hpos := length_pos_of_ne_nil hnil
      have hlength : (r.1 ++ r.2.flatten).length = pieces.flatten.length := congrArg List.length (fillBuffer_flatten size [] pieces)
      rw [length_append] at hlength
      omega
    r.1 :: readChunks size r.2
termination_by pieces.flatten.length
decreasing_by exact hless

def firstBytes (captured chunk : List UInt8) : List UInt8 :=
  if captured.length < sampleSize then captured ++ chunk.take (min (sampleSize - captured.length) chunk.length) else captured

variable {size : ℕ} {pieces : List (List UInt8)}

lemma readPiece_ne_nil {space : ℕ} (hspace : 0 < space) (hne : ∀ piece ∈ pieces, piece ≠ []) :
    ((readPiece space pieces).1 = [] ↔ pieces = []) ∧ (readPiece space pieces).1.length ≤ space ∧
      ∀ piece ∈ (readPiece space pieces).2, piece ≠ [] := by
  cases pieces with
  | nil => simp [readPiece]
  | cons piece rest =>
    have hpiece := hne piece (by simp)
    rw [readPiece]
    split_ifs with hle
    · exact ⟨by simp [hpiece], hle, fun x hx => hne x (by simp [hx])⟩
    · refine ⟨by simp [hpiece]; omega, by simp, ?_⟩
      intro x hx
      rcases mem_cons.mp hx with rfl | hx
      · rw [ne_eq, drop_eq_nil_iff]
        exact hle
      · exact hne x (by simp [hx])

lemma fillBuffer_spec {buffer : List UInt8} (hbuffer : buffer.length ≤ size) (hne : ∀ piece ∈ pieces, piece ≠ []) :
    ((fillBuffer size buffer pieces).1.length = size ∨ (fillBuffer size buffer pieces).2 = []) ∧
      (fillBuffer size buffer pieces).1.length ≤ size ∧ ∀ piece ∈ (fillBuffer size buffer pieces).2, piece ≠ [] := by
  induction buffer, pieces using fillBuffer.induct size with
  | case1 buffer pieces hlt r hnil =>
    have hread := readPiece_ne_nil (show 0 < size - buffer.length by omega) hne
    obtain rfl := hread.1.mp hnil
    rw [fillBuffer, dif_pos hlt]
    exact ⟨.inr rfl, hbuffer, hread.2.2⟩
  | case2 buffer pieces hlt r hnil _ ih =>
    have hread := readPiece_ne_nil (show 0 < size - buffer.length by omega) hne
    rw [fillBuffer, dif_pos hlt, dif_neg hnil]
    refine ih ?_ hread.2.2
    rw [length_append]
    have hlength : r.1.length ≤ size - buffer.length := hread.2.1
    omega
  | case3 buffer pieces hfull =>
    rw [fillBuffer, dif_neg hfull]
    exact ⟨.inl (le_antisymm hbuffer (not_lt.mp hfull)), hbuffer, hne⟩

lemma fillBuffer_eq (hne : ∀ piece ∈ pieces, piece ≠ []) : (fillBuffer size [] pieces).1 = pieces.flatten.take size ∧
    (fillBuffer size [] pieces).2.flatten = pieces.flatten.drop size := by
  have happend := fillBuffer_flatten size [] pieces
  rw [nil_append] at happend
  obtain ⟨hfull | hrest, hle, _⟩ := fillBuffer_spec (show [].length ≤ size from Nat.zero_le size) hne
  · rw [← happend]
    exact ⟨(take_left' hfull).symm, (drop_left' hfull).symm⟩
  · rw [hrest, flatten_nil, append_nil] at happend
    rw [← happend, hrest, take_of_length_le hle, drop_of_length_le hle]
    exact ⟨rfl, rfl⟩

lemma readChunks_eq (hsize : 0 < size) (hne : ∀ piece ∈ pieces, piece ≠ []) : readChunks size pieces = groups size pieces.flatten := by
  induction pieces using readChunks.induct size with
  | case1 pieces r hnil =>
    have htake : pieces.flatten.take size = [] := (fillBuffer_eq hne).1.symm.trans hnil
    have hempty : pieces.flatten = [] := (take_eq_nil_iff.mp htake).resolve_left hsize.ne'
    rw [readChunks, dif_pos hnil, hempty]
    simp [groups, starts, Nat.div_eq_of_lt (Nat.sub_one_lt hsize.ne')]
  | case2 pieces r hnil hshort =>
    have htake : r.1 = pieces.flatten.take size := (fillBuffer_eq hne).1
    have hwhole : r.1 = pieces.flatten := by
      rw [htake, length_take] at hshort
      rw [htake, take_of_length_le (by omega)]
    rw [readChunks, dif_neg hnil, if_pos hshort, ← hwhole, groups_of_le hnil hshort.le]
  | case3 pieces r hnil hfull _ ih =>
    obtain ⟨htake, hdrop⟩ : (fillBuffer size [] pieces).1 = pieces.flatten.take size ∧ _ := fillBuffer_eq hne
    have hrest := ih (fillBuffer_spec (show [].length ≤ size from Nat.zero_le size) hne).2.2
    rw [readChunks, dif_neg hnil, if_neg hfull, hrest]
    change (fillBuffer size [] pieces).1 :: groups size (fillBuffer size [] pieces).2.flatten = _
    rw [htake, hdrop]
    by_cases hlt : size < pieces.flatten.length
    · exact (groups_of_lt hsize hlt).symm
    · have hne' : pieces.flatten ≠ [] := by
        intro hempty
        exact hnil (htake.trans (by rw [hempty, take_nil]))
      rw [groups_of_le hne' (by omega), take_of_length_le (by omega), drop_of_length_le (by omega)]
      simp [groups, starts, Nat.div_eq_of_lt (Nat.sub_one_lt hsize.ne')]

lemma foldl_firstBytes (chunks : List (List UInt8)) {captured : List UInt8} (hcaptured : captured.length ≤ sampleSize) :
    chunks.foldl firstBytes captured = (captured ++ chunks.flatten).take sampleSize := by
  induction chunks generalizing captured with
  | nil => simp [take_of_length_le hcaptured]
  | cons chunk chunks ih =>
    have hstep : firstBytes captured chunk = (captured ++ chunk).take sampleSize := by
      rw [firstBytes, take_append, take_of_length_le hcaptured]
      split_ifs with hlt
      · rw [← take_take, take_length]
      · rw [show sampleSize - captured.length = 0 by omega, take_zero, append_nil]
    rw [foldl_cons, ih (by rw [hstep]; simp), hstep, flatten_cons, ← append_assoc]
    generalize captured ++ chunk = seen
    rcases le_total sampleSize seen.length with hle | hle
    · rw [take_append_of_le_length (by rw [length_take, min_eq_left hle]), take_take, min_self,
        take_append_of_le_length hle]
    · rw [take_of_length_le hle]

end

variable {H : Type} [DecidableEq H] (hs : Hasher H) (env : Env)

def storeFileFromReader (path : Str) (pieces : List (List UInt8)) (contentType : Option Str) : EngineM H (FileRecord H) := do
  let chunks := readChunks defaultChunkSize pieces
  let chunkHashes ← storeChunks hs chunks
  -- `finalize_file_with_content_hash`, with the content hash of what the hasher was fed chunk by chunk
  let normalized := normalizePath path
  if normalized = ['/'] then throw (.invalidInput "Cannot store at root path")
  let published ← publishFileRecord hs ⟨normalized, some (env.detectContentType (chunks.foldl firstBytes []) contentType),
    (chunks.map List.length).sum, chunkHashes, hs.compute (.whole chunks.flatten), none⟩
  updateParentDirectories hs published.path published.child
  pure published.record

variable {hs env} {path : Str} {contentType : Option Str} {data : List UInt8} {e e' : Engine H} {r : FileRecord H}

lemma storeFileFromReader_eq {pieces : List (List UInt8)} (hne : ∀ piece ∈ pieces, piece ≠ [])
    (hpath : normalizePath path ≠ ['/']) (contentType : Option Str) : storeFileFromReader hs env path pieces contentType =
      storeFileBuffered hs { env with detectContentType := fun data => env.detectContentType (data.take sampleSize) } path
        pieces.flatten contentType := by
  have hlength : ((groups defaultChunkSize pieces.flatten).map List.length).sum = pieces.flatten.length := by
    rw [← length_flatten, flatten_blocks]
  have hfirst : (groups defaultChunkSize pieces.flatten).foldl firstBytes [] = pieces.flatten.take sampleSize := by
    rw [foldl_firstBytes _ (Nat.zero_le _), nil_append, flatten_blocks]
  have hchunks : readChunks defaultChunkSize pieces = groups defaultChunkSize pieces.flatten := readChunks_eq (by decide) hne
  simp only [storeFileFromReader, storeFileBuffered, hchunks, if_neg hpath, hlength, hfirst, flatten_blocks]

lemma storeFileBuffered_congr {env' : Env}
    (h : env.detectContentType data contentType = env'.detectContentType data contentType) (path : Str) :
    storeFileBuffered hs env path data contentType = storeFileBuffered hs env' path data contentType := by
  simp only [storeFileBuffered, h]

lemma storeChunk_key {bytes : List UInt8} {key : H} (h : storeChunk hs bytes e = .ok key e') : key = hs.chunkHash bytes := by
  obtain ⟨known, e₁, _, h⟩ := estate_bind_eq_ok.mp h
  cases known with
  | true =>
    cases h
    rfl
  | false =>
    obtain ⟨_, e₂, _, h⟩ := estate_bind_eq_ok.mp h
    cases h
    rfl

lemma storeChunks_hashes {blocks : List (List UInt8)} {hashes : List H}
    (h : storeChunks hs blocks e = .ok hashes e') : hashes = blocks.map hs.chunkHash := by
  induction blocks generalizing e hashes with
  | nil => cases h; rfl
  | cons bytes blocks ih =>
    obtain ⟨key, e₁, hkey, h⟩ := estate_bind_eq_ok.mp h
    obtain ⟨rest, e₂, hrest, h⟩ := estate_bind_eq_ok.mp h
    cases h
    rw [ih hrest, storeChunk_key hkey, map_cons]

structure Describes (hs : Hasher H) (data : List UInt8) (contentType : Str) (r : FileRecord H) : Prop where
  chunks : r.chunkHashes = (groups defaultChunkSize data).map hs.chunkHash
  size : r.totalSize = data.length
  hash : r.contentHash = hs.compute (.whole data)
  type : r.contentType = some contentType

lemma describes_of_storeFileBuffered
    (h : storeFileBuffered hs env path data contentType e = .ok r e') : Describes hs data (env.detectContentType data contentType) r := by
  simp only [storeFileBuffered] at h
  split_ifs at h with hroot
  · simp [throw, throwThe, MonadExceptOf.throw, EStateM.throw, bind, EStateM.bind] at h
  obtain ⟨hashes, e₁, hhashes, h⟩ := estate_bind_eq_ok.mp h
  obtain ⟨published, e₂, hpub, h⟩ := estate_bind_eq_ok.mp h
  obtain ⟨_, e₃, _, h⟩ := estate_bind_eq_ok.mp h
  obtain ⟨rfl, rfl⟩ := estate_pure_eq_ok.mp h
  obtain ⟨now, e₅, _, hpub⟩ := estate_bind_eq_ok.mp hpub
  obtain ⟨key, e₆, _, hpub⟩ := estate_bind_eq_ok.mp hpub
  obtain ⟨now', e₇, _, hpub⟩ := estate_bind_eq_ok.mp hpub
  obtain ⟨rfl, rfl⟩ := estate_pure_eq_ok.mp hpub
  exact ⟨storeChunks_hashes hhashes, rfl, rfl, rfl⟩

def SameFile (r r' : FileRecord H) : Prop :=
  r.chunkHashes = r'.chunkHashes ∧ r.totalSize = r'.totalSize ∧ r.contentHash = r'.contentHash ∧ r.contentType = r'.contentType

lemma storeFileFromReader_root (hpath : normalizePath path = ['/']) (pieces : List (List UInt8)) (contentType : Option Str)
 : storeFileFromReader hs env path pieces contentType e ≠ .ok r e' := by
  intro h
  obtain ⟨hashes, e₁, _, h⟩ := estate_bind_eq_ok.mp h
  simp [hpath, throw, throwThe, MonadExceptOf.throw, EStateM.throw, bind, EStateM.bind] at h

theorem storeFileFromReader_same_iff (sniff : List UInt8 → Str) (isUtf8 : List UInt8 → Bool) (name : ℤ → Str) (path : Str)
    {pieces : List (List UInt8)} (hne : ∀ piece ∈ pieces, piece ≠ []) (contentType : Option Str) :
    let data := pieces.flatten
    let sameType := Specific contentType ∨ mediaType (isLikelyText isUtf8 data) (sniff (data.take sampleSize)) =
      mediaType (isLikelyText isUtf8 data) (sniff data)
    (∀ e₁ e₂ e₁' e₂' r₁ r₂, storeFileFromReader hs (sniffing sniff isUtf8 name) path pieces contentType e₁ = .ok r₁ e₁' →
      storeFileBuffered hs (sniffing sniff isUtf8 name) path data contentType e₂ = .ok r₂ e₂' → (SameFile r₁ r₂ ↔ sameType)) ∧
    (sameType → normalizePath path ≠ ['/'] → storeFileFromReader hs (sniffing sniff isUtf8 name) path pieces contentType =
      storeFileBuffered hs (sniffing sniff isUtf8 name) path data contentType) := by
  intro data sameType
  have hdetect : detectContentType sniff isUtf8 (data.take sampleSize) contentType = detectContentType sniff isUtf8 data contentType ↔
      sameType := by
    rw [detectContentType, detectContentType, isLikelyText_take]
    by_cases hspecific : Specific contentType
    · simp [sameType, hspecific]
    · simp [sameType, hspecific]
  refine ⟨fun e₁ e₂ e₁' e₂' r₁ r₂ h₁ h₂ => ?_, fun hsame hpath => ?_⟩
  · have hpath : normalizePath path ≠ ['/'] := fun hroot => storeFileFromReader_root hroot pieces contentType h₁
    rw [storeFileFromReader_eq hne hpath] at h₁
    obtain ⟨hchunks₁, hsize₁, hhash₁, htype₁⟩ := describes_of_storeFileBuffered h₁
    obtain ⟨hchunks₂, hsize₂, hhash₂, htype₂⟩ := describes_of_storeFileBuffered h₂
    rw [SameFile, hchunks₁, hchunks₂, hsize₁, hsize₂, hhash₁, hhash₂, htype₁, htype₂, ← hdetect]
    simp [sniffing, data]
  · rw [storeFileFromReader_eq hne hpath]
    exact storeFileBuffered_congr (hdetect.mpr hsame) path

theorem storeFileFromReader_same_two :
    storeFileFromReader Digest.hasher (sniffing (fun _ => octetStream) (fun _ => true) fun _ => []) ['/', 'f'] [[104], [105]] none =
      storeFileBuffered Digest.hasher (sniffing (fun _ => octetStream) (fun _ => true) fun _ => []) ['/', 'f'] [104, 105] none :=
  (storeFileFromReader_same_iff (fun _ => octetStream) (fun _ => true) (fun _ => []) ['/', 'f'] (by decide) none).2 (.inr rfl)
    (by decide)

def isoImage : List UInt8 := List.replicate 32769 0 ++ [67, 68, 48, 48, 49]

lemma length_isoImage : isoImage.length = 32774 := by
  rw [isoImage, length_append, length_replicate]
  rfl

def isoType : Str := "application/x-iso9660-image".toList

def sniffIso (data : List UInt8) : Str := if (data.drop 32769).take 5 = [67, 68, 48, 48, 49] then isoType else octetStream

def isoEnv : Env := sniffing sniffIso (fun _ => false) fun _ => []

lemma sniffIso_isoImage : sniffIso isoImage = isoType ∧ sniffIso (isoImage.take sampleSize) = octetStream := by
  constructor
  · rw [sniffIso, isoImage, drop_left' length_replicate]
    rfl
  · rw [sniffIso, drop_of_length_le]
    · rfl
    · rw [length_take, sampleSize]
      omega

lemma detect_iso (data : List UInt8) : isoEnv.detectContentType data none = sniffIso data := by
  have htype : ∀ media, media = isoType ∨ media = octetStream → mediaType false media = media := by
    rintro media (rfl | rfl) <;> decide
  have hnone : ¬ Specific none := by decide
  simp only [isoEnv, sniffing, detectContentType, if_neg hnone, isLikelyText, Bool.and_false, Bool.false_and]
  apply htype
  rw [sniffIso]
  split_ifs <;> simp

lemma sane_isoEnv {f : List UInt8 → List UInt8} : Env.Sane { isoEnv with detectContentType := fun data => isoEnv.detectContentType (f data) } := by
  intro data contentType hfit
  by_cases hspecific : Specific contentType
  · simpa [isoEnv, sniffing, detectContentType, hspecific] using hfit
  · have htext : ∀ media, media = isoType ∨ media = octetStream → utf8Len (mediaType false media) ≤ u16Max := by
      rintro media (rfl | rfl) <;> decide
    simp only [isoEnv, sniffing, detectContentType, if_neg hspecific, isLikelyText, Bool.and_false, Bool.false_and]
    apply htext
    rw [sniffIso]
    split_ifs <;> simp

theorem isoImage_typed_twice : ∃ r₁ r₂ e₁ e₂,
    storeFileFromReader Digest.hasher isoEnv (pathOf ["f".toList]) [isoImage] none start = .ok r₁ e₁ ∧
    storeFileBuffered Digest.hasher isoEnv (pathOf ["f".toList]) isoImage none start = .ok r₂ e₂ ∧
    r₁.contentType = some octetStream ∧ r₂.contentType = some isoType := by
  have hstore : ∀ f : List UInt8 → List UInt8, ∃ r e, storeFileBuffered Digest.hasher
      { isoEnv with detectContentType := fun data => isoEnv.detectContentType (f data) } (pathOf ["f".toList]) isoImage none start =
      .ok r e := by
    intro f
    have hdata : isoImage.length ≤ u32Max * defaultChunkSize := by
      rw [length_isoImage]
      decide
    have htype : utf8Len ((none : Option Str).getD []) ≤ u16Max := by decide
    obtain ⟨r, e, hok, _⟩ := storeFileBuffered_total (consistent_rootOnly Digest.hasher fun n => n) (roomy_rootOnly _)
      (filesTyped_rootOnly _ _) publishable_f (by decide) (sane_isoEnv (f := f)) htype hdata
    exact ⟨r, e, hok⟩
  obtain ⟨r₁, e₁, h₁⟩ := hstore (List.take sampleSize)
  obtain ⟨r₂, e₂, h₂⟩ := hstore id
  refine ⟨r₁, r₂, e₁, e₂, ?_, h₂, ?_, ?_⟩
  · have hne : ∀ piece ∈ [isoImage], piece ≠ [] := by
      intro piece hpiece hnil
      have hlength := length_isoImage
      rw [← mem_singleton.mp hpiece, hnil] at hlength
      simp at hlength
    rw [storeFileFromReader_eq hne (by decide), flatten_singleton]
    exact h₁
  · rw [(describes_of_storeFileBuffered h₁).type, detect_iso, sniffIso_isoImage.2]
  · rw [(describes_of_storeFileBuffered h₂).type, detect_iso]
    exact congrArg some sniffIso_isoImage.1

end AeorDb.Dir
