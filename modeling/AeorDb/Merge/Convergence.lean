import AeorDb.Merge.Namespace
import AeorDb.Store.Digest

/-! Merging in both directions gives the same namespace, unless a path holds different kinds on the two sides. -/

namespace AeorDb.Merge

open Store Library Slot Kind

variable {H R : Type} [LinearOrder H]

section

variable {k : Kind H R} {changed : R → R → Bool} {p : Str}

lemma Kind.localWins_swap {l r : H × R} (h : l.1 ≠ r.1) : k.localWins r l = !k.localWins l r := by
  rcases lt_trichotomy (k.updatedAt l.2) (k.updatedAt r.2) with hlt | heq | hgt
  · simp [localWins, compare_lt_iff_lt.mpr hlt, compare_gt_iff_gt.mpr hlt]
  · rcases lt_or_gt_of_ne h with hh | hh
    · simp [localWins, heq, hh.le, hh]
    · simp [localWins, heq, hh.le, hh]
  · simp [localWins, compare_lt_iff_lt.mpr hgt, compare_gt_iff_gt.mpr hgt]

structure Kind.Acts (k : Kind H R) (readChunk : H → List UInt8) (value : H × R → Held) (key : Slot → Bool) : Prop where
  held_add : ∀ s p x, (apply readChunk s (k.add p x)).held = some (value x)
  held_delete : ∀ s p, key s = true → (apply readChunk s (k.delete p)).held = none

def Kind.pathOps (k : Kind H R) (changed : R → R → Bool) (p : Str) (b l r : Option (H × R)) : List (MergeOp H) :=
  (k.mergePath p (sideOf changed b l) (sideOf changed b r)).1

lemma Kind.pathOps_absent (b : Option (H × R)) : k.pathOps changed p b none none = [] := by
  cases b <;> rfl

variable {readChunk : H → List UInt8} {value : H × R → Held} {key : Slot → Bool}

lemma Kind.Acts.held_eq (hk : k.Acts readChunk value key) {b l r : Option (H × R)} {s s' : Slot}
    (hs : s.held = l.map value) (hs' : s'.held = r.map value) (hkey : l.isSome → key s = true) (hkey' : r.isSome → key s' = true)
    (hsame : ∀ y x, changed y.2 x.2 = false → value y = value x)
    (hident : ∀ y x, l = some y → r = some x → k.identical y x = k.identical x y ∧ (k.identical y x = true → value y = value x))
    (hne : ∀ y x, l = some y → r = some x → k.identical y x = false → y.1 ≠ x.1) :
    ((k.pathOps changed p b l r).foldl (apply readChunk) s).held =
      ((k.pathOps changed p b r l).foldl (apply readChunk) s').held := by
  -- both sides changed the path: the same version wins on both
  have hboth : ∀ y x add, l = some y → r = some x →
      ((if k.identical y x then ([], []) else k.resolveConflict p y x add).1.foldl (apply readChunk) s).held =
        ((if k.identical x y then ([], []) else k.resolveConflict p x y add).1.foldl (apply readChunk) s').held := by
    rintro y x add rfl rfl
    obtain ⟨hcomm, hvalue⟩ := hident y x rfl rfl
    rw [← hcomm]
    cases hid : k.identical y x with
    | true => simp [hs, hs', hvalue hid]
    | false =>
      simp only [Bool.false_eq_true, if_false, resolveConflict, localWins_swap (hne y x rfl rfl hid)]
      cases k.localWins y x <;> simp [hk.held_add, hs, hs']
  cases b with
  | none =>
    cases l with
    | none => cases r <;> simp [pathOps, mergePath, sideOf, hk.held_add, hs, hs']
    | some y =>
      cases r with
      | none => simp [pathOps, mergePath, sideOf, hk.held_add, hs]
      | some x => exact hboth y x true rfl rfl
  | some b =>
    cases l with
    | none =>
      cases r with
      | none => simp [pathOps, mergePath, sideOf, hs, hs']
      | some x =>
        cases hx : changed b.2 x.2 with
        | true => simp [pathOps, mergePath, sideOf, hx, hk.held_add, hs']
        | false => simp [pathOps, mergePath, sideOf, hx, hs, hk.held_delete s' p (hkey' rfl)]
    | some y =>
      cases r with
      | none =>
        cases hy : changed b.2 y.2 with
        | true => simp [pathOps, mergePath, sideOf, hy, hk.held_add, hs]
        | false => simp [pathOps, mergePath, sideOf, hy, hs', hk.held_delete s p (hkey rfl)]
      | some x =>
        cases hy : changed b.2 y.2 with
        | true =>
          cases hx : changed b.2 x.2 with
          | true => simpa [pathOps, mergePath, sideOf, hx, hy] using hboth y x false rfl rfl
          | false => simp [pathOps, mergePath, sideOf, hx, hy, hk.held_add, hs]
        | false =>
          cases hx : changed b.2 x.2 with
          | true => simp [pathOps, mergePath, sideOf, hx, hy, hk.held_add, hs']
          | false => simp [pathOps, mergePath, sideOf, hx, hy, hs, hs', ← hsame b y hy, ← hsame b x hx]

end

section

variable (readChunk : H → List UInt8)

lemma fileKind_acts : (fileKind : Kind H (FileRecord H)).Acts readChunk (fun x => .file (reassembleFileData readChunk x.2)) fileKey where
  held_add _ _ _ := rfl
  held_delete s p h := by simp [fileKind, apply, h]

omit [LinearOrder H] in
lemma symlinkKind_acts : (symlinkKind : Kind H SymlinkRecord).Acts readChunk (fun x => .symlink x.2.target) symlinkKey where
  held_add _ _ _ := rfl
  held_delete s p h := by simp [symlinkKind, apply, h]

lemma addsFirst_pathOps {k : Kind H R} {changed : R → R → Bool} {p : Str} (b l r : Option (H × R)) :
    addsFirst (k.pathOps changed p b l r) = k.pathOps changed p b l r := by
  rcases k.mergePath_cases p (sideOf changed b l) (sideOf changed b r) with h | ⟨x, h⟩ | h
  · rw [pathOps, h]
    rfl
  · rw [pathOps, h]
    cases hd : (k.add p x).isDelete <;> simp [addsFirst, hd]
  · rw [pathOps, h]
    cases hd : (k.delete p).isDelete <;> simp [addsFirst, hd]

end

section

variable {hs : Hasher H} (readChunk : H → List UInt8)

def mergeInto (base localTree remoteTree : VersionTree H) (stale : StaleKeys) : Namespace :=
  applyMergeOperations readChunk (namespaceOf readChunk localTree stale)
    (threeWayMerge (diffTrees base localTree) (diffTrees base remoteTree)).operations

lemma mergeInto_apply (base l r : VersionTree H) (stale : StaleKeys) (p : Str) : mergeInto readChunk base l r stale p =
      (addsFirst (fileKind.pathOps fileChanged p (base.files.lookup p) (l.files.lookup p) (r.files.lookup p) ++
        symlinkKind.pathOps symlinkChanged p (base.symlinks.lookup p) (l.symlinks.lookup p) (r.symlinks.lookup p))).foldl
        (apply readChunk) (namespaceOf readChunk l stale p) := by
  rw [mergeInto, applyMergeOperations_apply, filter_threeWayMerge]
  simp only [filePathOps, symlinkPathOps, diffTrees, side_diffKind, pathOps]

variable {base l r : VersionTree H} {stale stale' : StaleKeys} {p : Str}

lemma held_eq_of_no_symlink (hl : l.Proper hs) (hr : r.Proper hs) (hls : l.symlinks.lookup p = none) (hrs : r.symlinks.lookup p = none) :
    (mergeInto readChunk base l r stale p).held = (mergeInto readChunk base r l stale' p).held := by
  rw [mergeInto_apply, mergeInto_apply, hls, hrs, pathOps_absent, List.append_nil, List.append_nil, addsFirst_pathOps, addsFirst_pathOps]
  apply (fileKind_acts readChunk).held_eq
  · simp [namespaceOf, heldOf, hls]
  · simp [namespaceOf, heldOf, hrs]
  · intro h
    simp [namespaceOf, h]
  · intro h
    simp [namespaceOf, h]
  · intro y x h
    have hchunks : y.2.chunkHashes = x.2.chunkHashes := by simpa [fileChanged] using h
    simp [reassembleFileData, hchunks]
  · intro y x hy hx
    refine ⟨by simp [fileKind, eq_comm], fun h => ?_⟩
    have hchunks := chunks_eq_of_hash_eq hl hr hy hx (by simpa [fileKind] using h)
    simp [reassembleFileData, hchunks]
  · intro y x _ _ h
    simpa [fileKind] using h

lemma held_eq_of_no_file (hl : l.Proper hs) (hr : r.Proper hs) (hlf : l.files.lookup p = none) (hrf : r.files.lookup p = none) :
    (mergeInto readChunk base l r stale p).held = (mergeInto readChunk base r l stale' p).held := by
  rw [mergeInto_apply, mergeInto_apply, hlf, hrf, pathOps_absent, List.nil_append, List.nil_append, addsFirst_pathOps, addsFirst_pathOps]
  apply (symlinkKind_acts readChunk).held_eq
  · simp [namespaceOf, heldOf, hlf]
  · simp [namespaceOf, heldOf, hrf]
  · intro h
    simp [namespaceOf, h]
  · intro h
    simp [namespaceOf, h]
  · intro y x h
    have htarget : y.2.target = x.2.target := by simpa [symlinkChanged] using h
    simp [htarget]
  · intro y x _ _
    refine ⟨by simp [symlinkKind, eq_comm], fun h => ?_⟩
    have htarget : y.2.target = x.2.target := by simpa [symlinkKind] using h
    simp [htarget]
  · intro y x hy hx h hhash
    rw [hl.symlink_hash p y hy, hr.symlink_hash p x hx] at hhash
    have htarget : y.2.target = x.2.target := by simpa [Hasher.symlinkIdentityHash] using hhash
    simp [symlinkKind, htarget] at h

lemma held_ne_of_clash (hb : base.Proper hs) {x : H × FileRecord H} {y : H × SymlinkRecord} (hlf : l.files.lookup p = some x)
    (hls : l.symlinks.lookup p = none) (hrf : r.files.lookup p = none) (hrs : r.symlinks.lookup p = some y) :
    (mergeInto readChunk base l r stale p).held ≠ (mergeInto readChunk base r l stale' p).held := by
  rw [mergeInto_apply, mergeInto_apply, hlf, hls, hrf, hrs]
  simp only [namespaceOf, hlf, hls, hrf, hrs, heldOf]
  cases hbf : base.files.lookup p with
  | none =>
    cases hbs : base.symlinks.lookup p with
    | none => simp [pathOps, mergePath, sideOf, addsFirst, fileKind, symlinkKind, MergeOp.isDelete, apply]
    | some b =>
      -- the file took the place of a symlink: the other side, unchanged, loses both
      cases hy : symlinkChanged b.2 y.2 <;>
        simp [pathOps, mergePath, sideOf, hy, addsFirst, fileKind, symlinkKind, MergeOp.isDelete, apply]
  | some b =>
    have hbs : base.symlinks.lookup p = none := by
      rcases hb.one_kind p with h | h
      · rw [hbf] at h
        cases h
      · exact h
    rw [hbs]
    cases hx : fileChanged b.2 x.2 <;>
      simp [pathOps, mergePath, sideOf, hx, addsFirst, fileKind, symlinkKind, MergeOp.isDelete, apply]

/-- Merging each side into the other leads to one namespace exactly when no path holds a file on one side and a symlink on the other. -/
theorem threeWayMerge_converges_iff (base l r : ProperTree hs) (stale stale' : StaleKeys) :
    (∀ p, (mergeInto readChunk base.1 l.1 r.1 stale p).held = (mergeInto readChunk base.1 r.1 l.1 stale' p).held) ↔
      ∀ p, ¬ (l.1.files.contains p ∧ r.1.symlinks.contains p) ∧ ¬ (l.1.symlinks.contains p ∧ r.1.files.contains p) := by
  refine forall_congr' fun p => ?_
  simp only [contains_iff_lookup]
  cases hlf : l.1.files.lookup p with
  | none =>
    cases hrf : r.1.files.lookup p with
    | none => simpa using held_eq_of_no_file readChunk l.2 r.2 hlf hrf
    | some x =>
      have hrs : r.1.symlinks.lookup p = none := (r.2.one_kind p).resolve_left (by simp [hrf])
      cases hls : l.1.symlinks.lookup p with
      | none => simpa [hrs] using held_eq_of_no_symlink readChunk l.2 r.2 hls hrs
      | some y => simpa [hrs] using (held_ne_of_clash readChunk base.2 hrf hrs hlf hls).symm
  | some x =>
    have hls : l.1.symlinks.lookup p = none := (l.2.one_kind p).resolve_left (by simp [hlf])
    cases hrs : r.1.symlinks.lookup p with
    | none => simpa [hls] using held_eq_of_no_symlink readChunk l.2 r.2 hls hrs
    | some y =>
      have hrf : r.1.files.lookup p = none := (r.2.one_kind p).resolve_right (by simp [hrs])
      simpa [hls, hrf] using held_ne_of_clash readChunk base.2 hlf hls hrf hrs

end

def samplePath : Str := "/x".toList

def sampleFile : FileRecord Digest := ⟨samplePath, none, 0, 0, 0, [], .ofStr [], []⟩

def sampleLink : SymlinkRecord := ⟨samplePath, "/y".toList, 0, 0⟩

def withFile : VersionTree Digest where
  files := Table.empty.insert (samplePath, Digest.hasher.fileIdentityHash samplePath none [], sampleFile)
  symlinks := Table.empty

def withLink : VersionTree Digest where
  files := Table.empty
  symlinks := Table.empty.insert (samplePath, Digest.hasher.symlinkIdentityHash samplePath "/y".toList, sampleLink)

omit [LinearOrder H] in
lemma lookup_singleton (x : Str × H × R) (p : Str) : PathMap.lookup (Table.empty.insert x) p = if p = x.1 then some x.2 else none := by
  rw [PathMap.lookup, Table.get_insert]
  split_ifs <;> rfl

lemma withFile_proper : withFile.Proper Digest.hasher where
  file_hash p x h := by
    rw [withFile, lookup_singleton] at h
    split_ifs at h with hp
    cases h
    exact Or.inl (by rw [hp]; rfl)
  symlink_hash p x h := by cases h
  one_kind _ := Or.inr rfl

lemma withLink_proper : withLink.Proper Digest.hasher where
  file_hash p x h := by cases h
  symlink_hash p x h := by
    rw [withLink, lookup_singleton] at h
    split_ifs at h with hp
    cases h
    rw [hp]
    rfl
  one_kind _ := Or.inl rfl

def noStale : StaleKeys := ⟨fun _ => false, fun _ => false⟩

theorem threeWayMerge_swaps_kinds :
    withFile.Proper Digest.hasher ∧ withLink.Proper Digest.hasher ∧
      (mergeInto (fun _ => []) ⟨.empty, .empty⟩ withFile withLink noStale samplePath).held = some (.symlink "/y".toList) ∧
      (mergeInto (fun _ => []) ⟨.empty, .empty⟩ withLink withFile noStale samplePath).held = some (.file []) := by
  exact ⟨withFile_proper, withLink_proper, by decide, by decide⟩

end AeorDb.Merge
