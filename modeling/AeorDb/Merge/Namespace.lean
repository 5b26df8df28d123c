import AeorDb.Merge.ThreeWay

/-! The effect of merge operations on what each path holds. -/

namespace AeorDb.Merge

open Store Library Hasher

variable {H : Type}

inductive Held where
  | file (data : List UInt8)
  | symlink (target : Str)
  deriving DecidableEq

structure Slot where
  held : Option Held
  fileKey : Bool
  symlinkKey : Bool

abbrev Namespace := Str → Slot

def reassembleFileData (readChunk : H → List UInt8) (record : FileRecord H) : List UInt8 := record.chunkHashes.flatMap readChunk

def Slot.apply (readChunk : H → List UInt8) (s : Slot) : MergeOp H → Slot
  | .addFile _ _ record => { s with held := some (.file (reassembleFileData readChunk record)), fileKey := true }
  | .deleteFile _ => if s.fileKey then { s with held := none, fileKey := false } else s
  | .addSymlink _ _ record => { s with held := some (.symlink record.target), symlinkKey := true }
  | .deleteSymlink _ => if s.symlinkKey then { s with held := none, symlinkKey := false } else s

def applyMergeOperation (readChunk : H → List UInt8) (ns : Namespace) (op : MergeOp H) : Namespace :=
  Function.update ns op.path ((ns op.path).apply readChunk op)

def applyMergeOperations (readChunk : H → List UInt8) (ns : Namespace) (ops : List (MergeOp H)) : Namespace :=
  ops.foldl (applyMergeOperation readChunk) ns

lemma applyMergeOperations_apply (readChunk : H → List UInt8) (ns : Namespace) (ops : List (MergeOp H)) (p : Str) :
    applyMergeOperations readChunk ns ops p = (ops.filter fun op => op.path = p).foldl (Slot.apply readChunk) (ns p) := by
  induction ops generalizing ns with
  | nil => rfl
  | cons op ops ih =>
    change applyMergeOperations readChunk (applyMergeOperation readChunk ns op) ops p = _
    rw [ih]
    by_cases hp : op.path = p
    · subst hp
      simp [applyMergeOperation]
    · rw [List.filter_cons_of_neg (by simpa using hp), applyMergeOperation, Function.update_of_ne (Ne.symm hp)]

structure StaleKeys where
  file : Str → Bool
  symlink : Str → Bool

def heldOf (readChunk : H → List UInt8) (file : Option (H × FileRecord H)) (symlink : Option (H × SymlinkRecord)) : Option Held :=
  (file.map fun x => .file (reassembleFileData readChunk x.2)).or (symlink.map fun x => .symlink x.2.target)

def namespaceOf (readChunk : H → List UInt8) (tree : VersionTree H) (stale : StaleKeys) : Namespace := fun p =>
  { held := heldOf readChunk (tree.files.lookup p) (tree.symlinks.lookup p)
    fileKey := (tree.files.lookup p).isSome || stale.file p
    symlinkKey := (tree.symlinks.lookup p).isSome || stale.symlink p }

structure VersionTree.Proper (hs : Hasher H) (tree : VersionTree H) : Prop where
  file_hash : ∀ p x, tree.files.lookup p = some x →
    x.1 = hs.fileIdentityHash p x.2.contentType x.2.chunkHashes ∨ x.1 = hs.fileContentHash x.2
  symlink_hash : ∀ p x, tree.symlinks.lookup p = some x → x.1 = hs.symlinkIdentityHash p x.2.target
  one_kind : ∀ p, tree.files.lookup p = none ∨ tree.symlinks.lookup p = none

def ProperTree (hs : Hasher H) := { tree : VersionTree H // tree.Proper hs }

variable {hs : Hasher H} {p : Str} {t t' : VersionTree H}

lemma chunks_eq_of_hash_eq (ht : t.Proper hs) (ht' : t'.Proper hs) {x y : H × FileRecord H}
    (hx : t.files.lookup p = some x) (hy : t'.files.lookup p = some y) (h : x.1 = y.1) : x.2.chunkHashes = y.2.chunkHashes := by
  rcases ht.file_hash p x hx with hx' | hx' <;> rcases ht'.file_hash p y hy with hy' | hy' <;> rw [hx', hy'] at h
  · simp only [fileIdentityHash, compute_inj, Preimage.fileIdentity.injEq] at h
    exact h.2
  · simp [fileIdentityHash, fileContentHash] at h
  · simp [fileIdentityHash, fileContentHash] at h
  · simp only [fileContentHash, compute_inj, Preimage.fileContent.injEq] at h
    rw [h]

end AeorDb.Merge
