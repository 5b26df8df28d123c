import AeorDb.Dir.Operations
import AeorDb.Store.Digest
import AeorDb.Wal.Scanner

/-! The chunks of a node: everything that stores one, and what a peer can send. -/

namespace AeorDb.Sync

open Library Store Dir Wal List Option Function

structure Compressor where
  compress : List UInt8 → List UInt8
  decompress : List UInt8 → Option (List UInt8)
  decompress_compress : ∀ data, decompress (compress data) = some data

structure StoredEntry where
  entryType : EntryType
  compression : CompressionAlgorithm
  bytes : List UInt8

variable {H : Type}

abbrev LiveEntries (H : Type) := H → Option StoredEntry

structure ChunkData (H : Type) where
  hash : H
  data : List UInt8

structure WireChunk where
  hash : Option Str
  data : Option Str

section

variable [DecidableEq H] (hs : Hasher H) (z : Compressor)

namespace LiveEntries

def storeEntry (s : LiveEntries H) (t : EntryType) (k : H) (algo : CompressionAlgorithm) (bytes : List UInt8) : LiveEntries H :=
  Function.update s k (some ⟨t, algo, bytes⟩)

def hasEntry (s : LiveEntries H) (k : H) : Bool := (s k).isSome

def storeMissing (s : LiveEntries H) (x : H × StoredEntry) : LiveEntries H :=
  if s.hasEntry x.1 then s else s.storeEntry x.2.entryType x.1 x.2.compression x.2.bytes

def decodeChunkEntry (x : StoredEntry) : Option (List UInt8) :=
  match x.compression with
  | .none => some x.bytes
  | .zstd => z.decompress x.bytes

def readChunk (s : LiveEntries H) (h : H) : EngineResult (Option (List UInt8)) :=
  match s h with
  | none => .ok none
  | some x =>
    if x.entryType = .chunk then
      match decodeChunkEntry z x with
      | some data => .ok (some data)
      | none => .error (.ioError "decompression failed")
    else .error (.invalidInput "Hash is not a chunk entry")

def storeChunk (s : LiveEntries H) (data : List UInt8) : LiveEntries H :=
  s.storeMissing (hs.chunkHash data, ⟨.chunk, .none, data⟩)

def storeFileChunk (algo : CompressionAlgorithm) (s : LiveEntries H) (data : List UInt8) : LiveEntries H :=
  -- the hash is that of the uncompressed data
  s.storeMissing (hs.chunkHash data,
    match algo with
    | .none => ⟨.chunk, .none, data⟩
    | .zstd => ⟨.chunk, .zstd, z.compress data⟩)

def storeFileInternal (s : LiveEntries H) (data : List UInt8) (algo : CompressionAlgorithm) : LiveEntries H :=
  (Grouping.groups defaultChunkSize data).foldl (storeFileChunk hs z algo) s

def storeFileFromReader (s : LiveEntries H) (data : List UInt8) : LiveEntries H :=
  (Grouping.groups defaultChunkSize data).foldl (storeChunk hs) s

def commitBufferedFiles (s : LiveEntries H) (files : List (List UInt8)) : LiveEntries H := files.foldl (storeFileFromReader hs) s

def transferEntry (remote : LiveEntries H) (s : LiveEntries H) (h : H) : LiveEntries H :=
  match remote h with
  | some x => s.storeMissing (h, ⟨x.entryType, .none, x.bytes⟩)
  | none => s

def transferMissingChunks (s remote : LiveEntries H) (chunks files : List H) : LiveEntries H :=
  files.foldl (transferEntry remote) (chunks.foldl (transferEntry remote) s)

def receiveChunk (s : LiveEntries H) (chunk : ChunkData H) : LiveEntries H := s.storeMissing (chunk.hash, ⟨.chunk, .none, chunk.data⟩)

def applySyncChunks (s : LiveEntries H) (chunks : List (ChunkData H)) : LiveEntries H × ℕ :=
  chunks.foldl (fun r chunk => (r.1.receiveChunk chunk, if r.1.hasEntry chunk.hash then r.2 else r.2 + 1)) (s, 0)

variable (decodeHash : Str → Option H) (decodeData : Str → Option (List UInt8))

def decodeWire (chunk : WireChunk) : Option (ChunkData H) :=
  match decodeHash (chunk.hash.getD []), decodeData (chunk.data.getD []) with
  | some hash, some data => some ⟨hash, data⟩
  | _, _ => none

def storeFetched (s : LiveEntries H) (response : List WireChunk) : LiveEntries H :=
  (response.filterMap (decodeWire decodeHash decodeData)).foldl receiveChunk s

def assemble (s : LiveEntries H) : List H → Option (List UInt8)
  | [] => some []
  | h :: hashes =>
    match s.readChunk z h with
    | .ok (some data) => (s.assemble hashes).map (data ++ ·)
    | _ => none

def storeSyncedFile (s : LiveEntries H) (chunkHashes : List H) : LiveEntries H :=
  match s.assemble z chunkHashes with
  | some data => s.storeFileInternal hs z data .none
  | none => s

end LiveEntries

/-- What changes the entries of a node. A remote cycle is `fetched` and then a `synced` for each changed file, a
local one is `transferred` and then a `synced` for each file that the merge adds; the records that go with the
files are stored by `other`. -/
inductive ChunkOp (H : Type) where
  | stored (data : List UInt8) (algo : CompressionAlgorithm)
  | streamed (data : List UInt8)
  | committed (files : List (List UInt8))
  | other (t : EntryType) (k : H) (bytes : List UInt8) (ht : t ≠ .chunk)
  | removed (k : H)
  | transferred (remote : LiveEntries H) (chunks files : List H)
  | fetched (response : List WireChunk)
  | synced (chunkHashes : List H)
  | applied (chunks : List (ChunkData H))

variable (decodeHash : Str → Option H) (decodeData : Str → Option (List UInt8))

def LiveEntries.act (s : LiveEntries H) : ChunkOp H → LiveEntries H
  | .stored data algo => s.storeFileInternal hs z data algo
  | .streamed data => s.storeFileFromReader hs data
  | .committed files => s.commitBufferedFiles hs files
  | .other t k bytes _ => s.storeEntry t k .none bytes
  | .removed k => Function.update s k none
  | .transferred remote chunks files => s.transferMissingChunks remote chunks files
  | .fetched response => s.storeFetched decodeHash decodeData response
  | .synced chunkHashes => s.storeSyncedFile hs z chunkHashes
  | .applied chunks => (s.applySyncChunks chunks).1

def LiveEntries.Honest (s : LiveEntries H) : ChunkOp H → Prop
  | .transferred remote chunks files =>
    ∀ h ∈ chunks ++ files, s h = none → ∀ x, remote h = some x → x.entryType = .chunk → hs.chunkHash x.bytes = h
  | .fetched response =>
    ∀ h, s h = none → ∀ chunk, (response.filterMap (LiveEntries.decodeWire decodeHash decodeData)).find? (·.hash = h) = some chunk →
      hs.chunkHash chunk.data = h
  | .applied chunks => ∀ h, s h = none → ∀ chunk, chunks.find? (·.hash = h) = some chunk → hs.chunkHash chunk.data = h
  | _ => True

variable {hs z} {s : LiveEntries H}

namespace LiveEntries

def Right (hs : Hasher H) (z : Compressor) (x : H × StoredEntry) : Prop :=
  x.2.entryType = .chunk → ∃ data, decodeChunkEntry z x.2 = some data ∧ hs.chunkHash data = x.1

def Keyed (hs : Hasher H) (z : Compressor) (s : LiveEntries H) : Prop := ∀ h x, s h = some x → Right hs z (h, x)

def storeAllMissing (s : LiveEntries H) (xs : List (H × StoredEntry)) : LiveEntries H := xs.foldl storeMissing s

lemma storeMissing_apply (s : LiveEntries H) (x : H × StoredEntry) (k : H) :
    s.storeMissing x k = (s k).or (if x.1 = k then some x.2 else none) := by
  unfold storeMissing hasEntry storeEntry
  by_cases hk : x.1 = k
  · subst hk
    cases h : s x.1 with
    | none => simp
    | some y => simp [h]
  · rw [if_neg hk, or_none]
    split_ifs
    · rfl
    · exact update_of_ne (Ne.symm hk) _ _

lemma storeAllMissing_apply (s : LiveEntries H) (xs : List (H × StoredEntry)) (k : H) :
    s.storeAllMissing xs k = (s k).or ((xs.find? (·.1 = k)).map Prod.snd) := by
  induction xs generalizing s with
  | nil => exact (or_none).symm
  | cons x xs ih =>
    rw [storeAllMissing, foldl_cons, ← storeAllMissing, ih, storeMissing_apply, Option.or_assoc]
    by_cases hk : x.1 = k
    · simp [hk]
    · simp [hk]

lemma Keyed.storeAllMissing_iff (h : s.Keyed hs z) (xs : List (H × StoredEntry)) :
    (s.storeAllMissing xs).Keyed hs z ↔ ∀ k, s k = none → ∀ x, xs.find? (·.1 = k) = some x → Right hs z x := by
  constructor
  · intro hkeyed k hmissing x hx
    have hk : x.1 = k := by simpa using find?_some hx
    have hget : s.storeAllMissing xs k = some x.2 := by
      rw [storeAllMissing_apply, hmissing, hx]
      rfl
    have hright := hkeyed k x.2 hget
    rwa [← hk] at hright
  · intro hright k y hy
    rw [storeAllMissing_apply] at hy
    cases hk : s k with
    | some old =>
      rw [hk] at hy
      obtain rfl : old = y := some.inj hy
      exact h k old hk
    | none =>
      rw [hk] at hy
      obtain ⟨x, hx, rfl⟩ := Option.map_eq_some_iff.mp hy
      have hxk : x.1 = k := by simpa using find?_some hx
      rw [← hxk]
      exact hright k hk x hx

lemma Keyed.storeAllMissing (h : s.Keyed hs z) {xs : List (H × StoredEntry)} (hxs : ∀ x ∈ xs, Right hs z x) :
    (s.storeAllMissing xs).Keyed hs z :=
  (h.storeAllMissing_iff xs).mpr fun _ _ x hx => hxs x (mem_of_find?_eq_some hx)

variable {x : H × StoredEntry} {h : H}

lemma Keyed.storeMissing (h : s.Keyed hs z) (hx : Right hs z x) : (s.storeMissing x).Keyed hs z := by
  change (s.storeAllMissing [x]).Keyed hs z
  exact h.storeAllMissing (forall_mem_singleton.mpr hx)

omit [DecidableEq H] in
lemma right_uncompressed {t : EntryType} {bytes : List UInt8} :
    Right hs z (h, ⟨t, .none, bytes⟩) ↔ (t = .chunk → hs.chunkHash bytes = h) := by
  constructor
  · intro hright ht
    obtain ⟨data, hdata, hhash⟩ := hright ht
    rwa [← some.inj hdata] at hhash
  · exact fun hhash ht => ⟨bytes, rfl, hhash ht⟩

lemma Keyed.storeFileInternal (h : s.Keyed hs z) (data : List UInt8) (algo : CompressionAlgorithm) :
    (s.storeFileInternal hs z data algo).Keyed hs z := by
  unfold LiveEntries.storeFileInternal
  generalize Grouping.groups defaultChunkSize data = groups
  induction groups generalizing s with
  | nil => exact h
  | cons group groups ih =>
    apply ih
    apply h.storeMissing
    cases algo with
    | none => exact fun _ => ⟨group, rfl, rfl⟩
    | zstd => exact fun _ => ⟨group, z.decompress_compress group, rfl⟩

lemma Keyed.storeFileFromReader (h : s.Keyed hs z) (data : List UInt8) : (s.storeFileFromReader hs data).Keyed hs z :=
  h.storeFileInternal data .none

lemma Keyed.commitBufferedFiles (h : s.Keyed hs z) (files : List (List UInt8)) : (s.commitBufferedFiles hs files).Keyed hs z := by
  induction files generalizing s with
  | nil => exact h
  | cons data files ih => exact ih (h.storeFileFromReader data)

lemma Keyed.storeSyncedFile (h : s.Keyed hs z) (chunkHashes : List H) : (s.storeSyncedFile hs z chunkHashes).Keyed hs z := by
  unfold LiveEntries.storeSyncedFile
  split
  · exact h.storeFileInternal _ _
  · exact h

lemma Keyed.update_other (h : s.Keyed hs z) {k : H} {x : Option StoredEntry} (hx : ∀ y, x = some y → y.entryType ≠ .chunk) :
    Keyed hs z (Function.update s k x) := by
  intro h' y hy
  by_cases hk : h' = k
  · subst hk
    rw [update_self] at hy
    exact fun ht => absurd ht (hx y hy)
  · rw [update_of_ne hk] at hy
    exact h h' y hy

def found (remote : LiveEntries H) (hashes : List H) : List (H × StoredEntry) :=
  hashes.filterMap fun h => (remote h).map fun x => (h, ⟨x.entryType, .none, x.bytes⟩)

lemma foldl_transferEntry (remote : LiveEntries H) (hashes : List H) :
    hashes.foldl (transferEntry remote) s = s.storeAllMissing (found remote hashes) := by
  induction hashes generalizing s with
  | nil => rfl
  | cons h hashes ih =>
    rw [foldl_cons, ih, transferEntry]
    cases hx : remote h with
    | none => simp [hx, found]
    | some x => simp [hx, found, LiveEntries.storeAllMissing]

lemma transferMissingChunks_eq (remote : LiveEntries H) (chunks files : List H) :
    s.transferMissingChunks remote chunks files = s.storeAllMissing (found remote (chunks ++ files)) := by
  rw [← foldl_transferEntry, List.foldl_append]
  rfl

lemma find_found {remote : LiveEntries H} {hashes : List H} : (found remote hashes).find? (·.1 = h) = some x ↔
      h ∈ hashes ∧ ∃ y, remote h = some y ∧ x = (h, ⟨y.entryType, .none, y.bytes⟩) := by
  induction hashes with
  | nil => simp [found]
  | cons k hashes ih =>
    rw [found, filterMap_cons]
    cases hk : remote k with
    | none =>
      rw [map_none]
      rw [show List.filterMap _ hashes = found remote hashes from rfl, ih]
      constructor
      · rintro ⟨hmem, hy⟩
        exact ⟨mem_cons_of_mem _ hmem, hy⟩
      · rintro ⟨hmem, y, hy, hx⟩
        rcases mem_cons.mp hmem with rfl | hmem
        · rw [hk] at hy
          cases hy
        · exact ⟨hmem, y, hy, hx⟩
    | some y =>
      by_cases hkh : k = h
      · subst hkh
        simp [hk, eq_comm]
      · rw [show List.filterMap _ hashes = found remote hashes from rfl]
        simp [hkh, ih, Ne.symm hkh]

lemma Keyed.transferMissingChunks_iff (h : s.Keyed hs z) (remote : LiveEntries H) (chunks files : List H) :
    (s.transferMissingChunks remote chunks files).Keyed hs z ↔
      ∀ h ∈ chunks ++ files, s h = none → ∀ x, remote h = some x → x.entryType = .chunk → hs.chunkHash x.bytes = h := by
  rw [transferMissingChunks_eq, h.storeAllMissing_iff]
  constructor
  · intro hright k hk hmissing x hx
    exact right_uncompressed.mp (hright k hmissing _ (find_found.mpr ⟨hk, x, hx, rfl⟩))
  · intro hhash k hmissing x hx
    obtain ⟨hk, y, hy, rfl⟩ := find_found.mp hx
    exact right_uncompressed.mpr (hhash k hk hmissing y hy)

lemma Keyed.foldl_receiveChunk_iff (h : s.Keyed hs z) (chunks : List (ChunkData H)) : Keyed hs z (chunks.foldl receiveChunk s) ↔
      ∀ h, s h = none → ∀ chunk, chunks.find? (·.hash = h) = some chunk → hs.chunkHash chunk.data = h := by
  have hall : chunks.foldl receiveChunk s = s.storeAllMissing (chunks.map fun chunk => (chunk.hash, ⟨.chunk, .none, chunk.data⟩)) := by
    rw [LiveEntries.storeAllMissing, foldl_map]
    rfl
  have hfind : ∀ k, (chunks.map fun chunk => (chunk.hash, (⟨.chunk, .none, chunk.data⟩ : StoredEntry))).find? (·.1 = k) =
      (chunks.find? (·.hash = k)).map fun chunk => (chunk.hash, ⟨.chunk, .none, chunk.data⟩) := fun k => find?_map
  rw [hall, h.storeAllMissing_iff]
  constructor
  · intro hright k hmissing chunk hchunk
    have hk : chunk.hash = k := by simpa using find?_some hchunk
    rw [← hk]
    refine right_uncompressed.mp (hright k hmissing _ ?_) rfl
    rw [hfind, hchunk]
    rfl
  · intro hhash k hmissing x hx
    rw [hfind] at hx
    obtain ⟨chunk, hchunk, rfl⟩ := Option.map_eq_some_iff.mp hx
    have hk : chunk.hash = k := by simpa using find?_some hchunk
    exact right_uncompressed.mpr fun _ => (hhash k hmissing chunk hchunk).trans hk.symm

lemma fst_applySyncChunks (s : LiveEntries H) (chunks : List (ChunkData H)) : (s.applySyncChunks chunks).1 = chunks.foldl receiveChunk s := by
  unfold LiveEntries.applySyncChunks
  generalize 0 = n
  induction chunks generalizing s n with
  | nil => rfl
  | cons chunk chunks ih => exact ih _ _

variable {decodeHash : Str → Option H} {decodeData : Str → Option (List UInt8)}

lemma Keyed.act_iff (h : s.Keyed hs z) (op : ChunkOp H) :
    (s.act hs z decodeHash decodeData op).Keyed hs z ↔ s.Honest hs decodeHash decodeData op := by
  cases op with
  | stored data algo => exact iff_of_true (h.storeFileInternal data algo) trivial
  | streamed data => exact iff_of_true (h.storeFileFromReader data) trivial
  | committed files => exact iff_of_true (h.commitBufferedFiles files) trivial
  | other t k bytes ht =>
    refine iff_of_true (h.update_other ?_) trivial
    intro y hy
    rwa [← some.inj hy]
  | removed k => exact iff_of_true (h.update_other fun y hy => absurd hy (by simp)) trivial
  | transferred remote chunks files => exact h.transferMissingChunks_iff remote chunks files
  | fetched response => exact h.foldl_receiveChunk_iff _
  | synced chunkHashes => exact iff_of_true (h.storeSyncedFile chunkHashes) trivial
  | applied chunks =>
    change Keyed hs z (s.applySyncChunks chunks).1 ↔ _
    rw [fst_applySyncChunks]
    exact h.foldl_receiveChunk_iff chunks

theorem chunks_keyed_iff (hs : Hasher H) (z : Compressor) (decodeHash : Str → Option H) (decodeData : Str → Option (List UInt8))
    (ops : List (ChunkOp H)) :
    (∀ done, done <+: ops → Keyed hs z (done.foldl (act hs z decodeHash decodeData) fun _ => none)) ↔
      ∀ done op, done ++ [op] <+: ops → Honest hs decodeHash decodeData (done.foldl (act hs z decodeHash decodeData) fun _ => none) op :=
  Trace.forall_prefix_iff (fun _ op hkeyed => hkeyed.act_iff op) (fun _ _ hx => nomatch hx) ops

end LiveEntries

end

open LiveEntries

def marked : Compressor where
  compress data := 0 :: data
  decompress
    | 0 :: data => some data
    | _ => none
  decompress_compress _ := rfl

def one : Digest := Digest.hasher.chunkHash [1]

def onEmpty (ops : List (ChunkOp Digest)) : LiveEntries Digest :=
  ops.foldl (act Digest.hasher marked (fun _ => none) fun _ => none) fun _ => none

def compressedPeer : LiveEntries Digest := onEmpty [.stored [1] .zstd]

/-- Other bytes are kept under the key of a chunk, also when the chunk itself is stored later. A peer that has the
chunk compressed passes on the compressed bytes. -/
theorem peer_plants_chunk :
    (onEmpty [.applied [⟨one, [2]⟩]]).readChunk marked one = .ok (some [2]) ∧
    (onEmpty [.applied [⟨one, [2]⟩], .stored [1] .none]).readChunk marked one = .ok (some [2]) ∧
    compressedPeer.readChunk marked one = .ok (some [1]) ∧
    (onEmpty [.transferred compressedPeer [one] []]).readChunk marked one = .ok (some [0, 1]) := by
  refine ⟨?_, ?_, ?_, ?_⟩ <;> decide

end AeorDb.Sync
