import AeorDb.Dir.CreateSafe
import AeorDb.Dir.StoredFiles
import AeorDb.Gc.Run
import AeorDb.Sync.Cycle

/-! What resolving a conflict leaves at its path. -/

namespace AeorDb.Sync

open Store BTree Dir Library Trace Digest EngineM List Result

variable {H : Type} [DecidableEq H] {hs : Hasher H} {env : Env} {codec : MetaCodec H} {e e' : Engine H} {segments : List Str}

def metaSegments (segments : List Str) : List Str := ".aeordb-conflicts".toList :: segments ++ [".meta".toList]

lemma clean_metaSegments (h : Clean segments) : Clean (metaSegments segments) := by
  have hfirst : CleanName ".aeordb-conflicts".toList := by decide
  have hlast : CleanName ".meta".toList := by decide
  exact clean_append.mpr ⟨forall_mem_cons.mpr ⟨hfirst, h⟩, hlast⟩

lemma metaPath_pathOf (hne : segments ≠ []) : metaPath (pathOf segments) = pathOf (metaSegments segments) := by
  have hbase : conflictBase = '/' :: ".aeordb-conflicts".toList := by decide
  have hmeta : "/.meta".toList = '/' :: ".meta".toList := by decide
  rw [metaSegments, pathOf_append, metaPath, pathOf_eq_slashed hne, hbase, hmeta]
  simp only [slashed, flatMap_cons, cons_append]

lemma pathOf_ne_metaPath (p : Str) : p ≠ metaPath p := by
  intro h
  have hlen := congrArg List.length h
  simp only [metaPath, length_append] at hlen
  have hpos : 0 < "/.meta".toList.length := by decide
  omega

section

variable {blocks : List (List UInt8)}

def liveBlocks (hs : Hasher H) (e : Engine H) (blocks : List (List UInt8)) : List (List UInt8) :=
  blocks.filter fun b => e.hasEntry (hs.chunkHash b)

section

omit [DecidableEq H]

lemma liveBlocks_cons (b : List UInt8) (blocks : List (List UInt8)) : liveBlocks hs e (b :: blocks) =
    if e.hasEntry (hs.chunkHash b) then b :: liveBlocks hs e blocks else liveBlocks hs e blocks := filter_cons

lemma availableBytes_eq (ht : FilesTyped hs e) (blocks : List (List UInt8)) :
    availableBytes e (blocks.map hs.chunkHash) = .ok (liveBlocks hs e blocks).flatten := by
  induction blocks with
  | nil => rfl
  | cons b blocks ih =>
    rw [map_cons, availableBytes, ih, liveBlocks_cons]
    cases hget : e.get (hs.chunkHash b) with
    | none =>
      have hdead : e.hasEntry (hs.chunkHash b) = false := by
        rw [← Bool.not_eq_true, Engine.hasEntry_iff]
        simp [hget]
      rw [hdead]
      rfl
    | some v =>
      have hlive : e.hasEntry (hs.chunkHash b) = true := (Engine.hasEntry_iff _ _).mpr ⟨v, hget⟩
      obtain rfl := (ht _ v hget).chunk b rfl
      rw [hlive]
      rfl

variable (hs e) in
lemma length_liveBlocks_le (blocks : List (List UInt8)) : (liveBlocks hs e blocks).flatten.length ≤ blocks.flatten.length :=
  (filter_sublist.flatten).length_le

lemma flatten_liveBlocks_iff : (liveBlocks hs e blocks).flatten = blocks.flatten ↔
    ∀ b ∈ blocks, b ≠ [] → e.hasEntry (hs.chunkHash b) = true := by
  induction blocks with
  | nil => simp [liveBlocks]
  | cons b blocks ih =>
    rw [forall_mem_cons, ← ih]
    cases hlive : e.hasEntry (hs.chunkHash b) with
    | true =>
      simp [liveBlocks_cons, hlive]
    | false =>
      rw [liveBlocks_cons, hlive, if_neg Bool.false_ne_true, flatten_cons]
      constructor
      · intro h
        have hlen := congrArg List.length h
        have hle := length_liveBlocks_le hs e blocks
        rw [length_append] at hlen
        obtain rfl : b = [] := length_eq_zero_iff.mp (by omega)
        exact ⟨fun hne => absurd rfl hne, h⟩
      · rintro ⟨hb, h⟩
        have hnil : b = [] := by
          by_contra hne
          exact absurd (hb hne) (by simp)
        rw [hnil, h, nil_append]

end

end

section

variable {pick : Str} {h : H} {blocks : List (List UInt8)}

def Listed (hs : Hasher H) (codec : MetaCodec H) (e : Engine H) (path pick : Str) (h : H) : Prop :=
  ∃ bytes hashes, readFileBuffered hs e (metaPath path) = .ok bytes ∧ codec.parse bytes = .ok hashes ∧ hashes pick = .ok (some h)

omit [DecidableEq H] in
lemma Listed.pickedHash_eq {path : Str} (hl : Listed hs codec e path pick h) (hpick : pick = winnerPick ∨ pick = loserPick) :
    pickedHash hs codec path pick e = .ok (some h) := by
  obtain ⟨bytes, hashes, hread, hparse, hhash⟩ := hl
  have hvalid : ¬ (pick ≠ winnerPick ∧ pick ≠ loserPick) := fun hne => hpick.elim hne.1 hne.2
  simp only [pickedHash, hread, hparse, bind, Except.bind, if_neg hvalid, hhash]

omit [DecidableEq H] in
lemma readFileBuffered_congr (ht : FilesTyped hs e) {p : Str}
    (hfile : e'.get (hs.filePathHash (normalizePath p)) = e.get (hs.filePathHash (normalizePath p)))
    (hchunk : ∀ b, e'.get (hs.chunkHash b) = e.get (hs.chunkHash b)) : readFileBuffered hs e' p = readFileBuffered hs e p := by
  cases hget : e.get (hs.filePathHash (normalizePath p)) with
  | none => simp [readFileBuffered, requireRecord, lookupRecord, hfile, hget, bind, Except.bind]
  | some v =>
    obtain ⟨r, rfl, hchunks⟩ := (ht _ v hget).path _ rfl
    have hfetch : ∀ h ∈ r.chunkHashes, fetchChunk e' h = fetchChunk e h := by
      intro h hh
      obtain ⟨b, rfl⟩ := hchunks h hh
      rw [fetchChunk, fetchChunk, hchunk]
    have hcollect : collectChunks e' r.chunkHashes = collectChunks e r.chunkHashes := by
      rw [collectChunks, collectChunks, mapM_congr hfetch]
    simp [readFileBuffered, requireRecord, lookupRecord, hfile, hget, fileOf, Except.map, bind, Except.bind, hcollect]

variable (hs env e) in
lemma ran_dropMeta (hs' : Clean segments) (hne : segments ≠ []) :
    ∃ e', ignore (deleteFile hs env (metaPath (pathOf segments))) e = .ok () e' ∧
      Ran Engine.act (DeleteWrite hs (metaPath (pathOf segments))) e e' :=
  ⟨_, rfl, by simpa only [metaPath_pathOf hne, normalizePath_pathOf (clean_metaSegments hs')] using
    performs_deleteFile hs env (metaPath (pathOf segments)) e⟩

variable (env) in
lemma resolveConflict_gone (ht : FilesTyped hs e) (hs' : Clean segments) (hne : segments ≠ [])
    (hpick : pick = winnerPick ∨ pick = loserPick) (hl : Listed hs codec e (pathOf segments) pick h) (hgone : e.get h = none) :
    ∃ e', resolveConflict hs env codec (pathOf segments) pick e = .ok () e' ∧
      readFileBuffered hs e' (pathOf segments) = readFileBuffered hs e (pathOf segments) := by
  obtain ⟨e', hdrop, hran⟩ := ran_dropMeta hs env e hs' hne
  refine ⟨e', ?_, ?_⟩
  · have hquery : query (fun e => .ok ((some h).bind e.get)) e = .ok none e := by simp [query, hgone]
    rw [resolveConflict, estate_bind_of_ok (query_eq_ok.mpr ⟨hl.pickedHash_eq hpick, rfl⟩),
      estate_bind_of_ok hquery]
    exact hdrop
  · have hother : normalizePath (pathOf segments) ≠ metaPath (pathOf segments) := by
      rw [normalizePath_pathOf hs']
      exact pathOf_ne_metaPath _
    exact readFileBuffered_congr ht (get_file_of_deleteWrite hran hother) (get_chunk_of_deleteWrite hran)

lemma resolveConflict_found (hc : Consistent hs e) (hroom : Roomy hs e) (ht : FilesTyped hs e) (henv : env.Sane)
    (hp : Publishable segments) (hpath : utf8Len (pathOf segments) ≤ u16Max) (hpick : pick = winnerPick ∨ pick = loserPick)
    (hl : Listed hs codec e (pathOf segments) pick h) {q : Str} {t : Option Str}
    (hversion : h = hs.fileIdentityHash q t (blocks.map hs.chunkHash)) (hsize : blocks.flatten.length ≤ u32Max * defaultChunkSize)
    (hlive : e.hasEntry h = true) : ∃ e', resolveConflict hs env codec (pathOf segments) pick e = .ok () e' ∧
      readFileBuffered hs e' (pathOf segments) = .ok (liveBlocks hs e blocks).flatten := by
  obtain ⟨v, hv⟩ := (Engine.hasEntry_iff _ _).mp hlive
  obtain ⟨r, rfl, hchunks, htype⟩ := (ht h v hv).identity q t _ hversion
  obtain ⟨_, e₁, hstore, hstored⟩ := storeFileBuffered_total hc hroom ht hp hpath henv htype
    ((length_liveBlocks_le hs e blocks).trans hsize)
  obtain ⟨e₂, hdrop, hran⟩ := ran_dropMeta hs env e₁ hp.clean hp.ne
  refine ⟨e₂, ?_, ?_⟩
  · have hquery : query (fun e => .ok ((some h).bind e.get)) e = .ok (some (.file r)) e := by simp [query, hv]
    have hbytes : query (fun e => availableBytes e r.chunkHashes) e = .ok (liveBlocks hs e blocks).flatten e :=
      query_eq_ok.mpr ⟨hchunks ▸ availableBytes_eq ht blocks, rfl⟩
    have hrestore : restoreVersion hs env (pathOf segments) (.file r) e = .ok () e₁ := by
      refine estate_bind_eq_ok.mpr ⟨r, e, rfl, ?_⟩
      rw [estate_bind_of_ok hbytes, estate_bind_of_ok hstore]
      rfl
    rw [resolveConflict, estate_bind_of_ok (query_eq_ok.mpr ⟨hl.pickedHash_eq hpick, rfl⟩),
      estate_bind_of_ok hquery]
    exact estate_bind_eq_ok.mpr ⟨(), e₁, hrestore, hdrop⟩
  · exact hstored.read hp.clean (get_file_of_deleteWrite hran (pathOf_ne_metaPath _)) (get_chunk_of_deleteWrite hran)

structure Steady (hs : Hasher H) (e : Engine H) : Prop where
  consistent : Consistent hs e
  roomy : Roomy hs e
  typed : FilesTyped hs e

end

def sharedPath : Str := "/f".toList

def versionHash (b : UInt8) : Digest := hasher.fileIdentityHash sharedPath none [hasher.chunkHash [b]]

def stored (b : UInt8) (e : Engine Digest) : Engine Digest := final (storeFileBuffered hasher plainEnv sharedPath [b] none e)

def byteCodec : MetaCodec Digest where
  encode conflict _ := [conflict.winner, conflict.loser].map fun v => if v.hash = some (versionHash 1) then 1 else 2
  parse bytes := .ok fun pick => .ok ((if pick = winnerPick then bytes[0]? else bytes[1]?).map versionHash)

def smallFlat (v : Value Digest) : Bool :=
  match v with
  | .dir (.flat es) => es.length < bulkLimit
  | _ => true

variable {e : Engine Digest}

lemma roomy_of_log (hc : Consistent hasher e) (h : e.log.all (smallFlat ·.value) = true) : Roomy hasher e := by
  intro q es hq hk
  obtain ⟨fs, hd⟩ := hc.dirAt hq hk
  obtain ⟨hget, heq⟩ | ⟨n, node, _, heq, _⟩ := hd.read
  · simp only [Hasher.directoryContentHash, Hasher.compute_inj, Preimage.dirContent.injEq, DirData.flat.injEq] at heq
    obtain ⟨r, hr, hv⟩ := Option.map_eq_some_iff.mp hget
    have hsmall := all_eq_true.mp h r (e.getEntry_mem_log _ r hr)
    rw [hv, ← heq] at hsmall
    simpa [smallFlat] using hsmall
  · simp [Hasher.directoryContentHash, Hasher.btreeHash] at heq

lemma sane_plainEnv : plainEnv.Sane := fun _ _ h => h

lemma steady_store (hst : Steady hasher e) (segments : List Str) {data : List UInt8} {t : Option Str}
    (hp : Publishable segments) (hpath : utf8Len (pathOf segments) ≤ u16Max) (ht : utf8Len (t.getD []) ≤ u16Max)
    (hdata : data.length ≤ u32Max * defaultChunkSize)
    (hsmall : (final (storeFileBuffered hasher plainEnv (pathOf segments) data t e)).log.all (smallFlat ·.value) = true) :
    Steady hasher (final (storeFileBuffered hasher plainEnv (pathOf segments) data t e)) := by
  obtain ⟨r, e', hstore, hat⟩ := storeFileBuffered_total hst.consistent hst.roomy hst.typed hp hpath sane_plainEnv ht hdata
  rw [hstore] at hsmall ⊢
  obtain ⟨c, hpub⟩ := hat.publication
  have hc := hpub.consistent hst.consistent
  exact ⟨hc, roomy_of_log hc hsmall, hat.typed⟩

instance (segments : List Str) : Decidable (Publishable segments) :=
  decidable_of_iff (Clean segments ∧ segments ≠ [] ∧ segments.length ≤ maxDirectoryDepth ∧ ∀ s ∈ segments, utf8Len s ≤ u16Max)
    ⟨fun h => ⟨h.1, h.2.1, h.2.2.1, h.2.2.2⟩, fun h => ⟨h.1, h.2, h.3, h.4⟩⟩

def recorded : Engine Digest :=
  final (storeFileBuffered hasher plainEnv (metaPath sharedPath) [1, 2] (some "application/json".toList) (stored 1 start))

lemma steady_recorded : Steady hasher recorded :=
  have hone : Steady hasher (stored 1 start) :=
    steady_store ⟨consistent_rootOnly _ _, roomy_rootOnly _, filesTyped_rootOnly _ _⟩ ["f".toList] (by decide) (by decide) (by decide) (by decide)
      (by decide)
  steady_store hone (metaSegments ["f".toList])
    (by decide) (by decide) (by decide) (by decide) (by decide)

def writer : Engine Digest := stored 1 start

def laterWriter : Engine Digest := stored 2 (rootOnly hasher fun n => 100 + n)

def synced : Engine Digest := final (syncWithLocalEngine hasher plainEnv byteCodec none none laterWriter writer)

def collected : Engine Digest := final (Gc.runGc hasher ⟨fun _ _ => [], 0, 0⟩ synced)

def resolved : Engine Digest := final (resolveConflict hasher plainEnv byteCodec sharedPath loserPick collected)

end AeorDb.Sync
