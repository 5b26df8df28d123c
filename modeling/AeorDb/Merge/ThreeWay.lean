import AeorDb.Merge.Diff

/-! Merging the changes of two sides, path by path. -/

namespace AeorDb.Merge

open Store Library List

variable {H R : Type}

inductive ConflictType where
  | concurrentModify | modifyDelete | concurrentCreate
  deriving DecidableEq

structure ConflictVersion (H : Type) where
  hash : Option H
  virtualTime : ℕ
  nodeId : ℕ
  size : ℕ
  contentType : Option Str

structure ConflictEntry (H : Type) where
  path : Str
  conflictType : ConflictType
  winner : ConflictVersion H
  loser : ConflictVersion H

inductive MergeOp (H : Type) where
  | addFile (path : Str) (fileHash : H) (fileRecord : FileRecord H)
  | deleteFile (path : Str)
  | addSymlink (path : Str) (symlinkHash : H) (symlinkRecord : SymlinkRecord)
  | deleteSymlink (path : Str)

namespace MergeOp

def path : MergeOp H → Str
  | addFile p _ _ => p
  | deleteFile p => p
  | addSymlink p _ _ => p
  | deleteSymlink p => p

def isDelete : MergeOp H → Bool
  | addFile _ _ _ => false
  | deleteFile _ => true
  | addSymlink _ _ _ => false
  | deleteSymlink _ => true

end MergeOp

structure MergeResult (H : Type) where
  operations : List (MergeOp H)
  conflicts : List (ConflictEntry H)

structure Kind (H R : Type) where
  identical : H × R → H × R → Bool
  updatedAt : R → ℤ
  version : H × R → ConflictVersion H
  add : Str → H × R → MergeOp H
  delete : Str → MergeOp H

def deletedVersion : ConflictVersion H := ⟨none, 0, 0, 0, none⟩

namespace Kind

variable [LinearOrder H] (k : Kind H R)

def localWins (l r : H × R) : Bool :=
  match compare (k.updatedAt l.2) (k.updatedAt r.2) with
  | .gt => true
  | .lt => false
  | .eq => decide (r.1 ≤ l.1)

def resolveConflict (path : Str) (l r : H × R) (isAdd : Bool) : List (MergeOp H) × List (ConflictEntry H) :=
  let type := if isAdd then .concurrentCreate else .concurrentModify
  if k.localWins l r then ([], [⟨path, type, k.version l, k.version r⟩])
  else ([k.add path r], [⟨path, type, k.version r, k.version l⟩])

def modifyDelete (path : Str) (x : H × R) : ConflictEntry H := ⟨path, .modifyDelete, k.version x, deletedVersion⟩

def mergePath (path : Str) (l r : Side H R) : List (MergeOp H) × List (ConflictEntry H) :=
  match l.change, l.deleted, r.change, r.deleted with
  | none, false, some x, false => ([k.add path x], [])
  | some _, false, none, false => ([], [])
  | some y, false, some x, false =>
    if k.identical y x then ([], []) else k.resolveConflict path y x (l.isAdd || r.isAdd)
  | none, true, some x, false => ([k.add path x], [k.modifyDelete path x])
  | some y, false, none, true => ([], [k.modifyDelete path y])
  | none, false, none, true => ([k.delete path], [])
  | _, _, _, _ => ([], [])

def allPaths (l r : KindDiff H R) : List Str := (l.paths ++ r.paths).dedup.insertionSort (· ≤ ·)

def merge (l r : KindDiff H R) : MergeResult H where
  operations := (allPaths l r).flatMap fun p => (k.mergePath p (l.side p) (r.side p)).1
  conflicts := (allPaths l r).flatMap fun p => (k.mergePath p (l.side p) (r.side p)).2

end Kind

variable [LinearOrder H]

def fileKind : Kind H (FileRecord H) where
  identical l r := decide (l.1 = r.1)
  updatedAt record := record.updatedAt
  version x := ⟨some x.1, x.2.updatedAt.toNat, 0, x.2.totalSize, x.2.contentType⟩
  add path x := .addFile path x.1 x.2
  delete path := .deleteFile path

def symlinkKind : Kind H SymlinkRecord where
  identical l r := decide (l.2.target = r.2.target)
  updatedAt record := record.updatedAt
  version x := ⟨some x.1, x.2.updatedAt.toNat, 0, 0, none⟩
  add path x := .addSymlink path x.1 x.2
  delete path := .deleteSymlink path

def mergeFiles (l r : TreeDiff H) : MergeResult H := fileKind.merge l.files r.files

def mergeSymlinks (l r : TreeDiff H) : MergeResult H := symlinkKind.merge l.symlinks r.symlinks

def addsFirst (ops : List (MergeOp H)) : List (MergeOp H) :=
  ops.filter (fun op => !op.isDelete) ++ ops.filter fun op => op.isDelete

def threeWayMerge (l r : TreeDiff H) : MergeResult H where
  operations := addsFirst ((mergeFiles l r).operations ++ (mergeSymlinks l r).operations)
  conflicts := (mergeFiles l r).conflicts ++ (mergeSymlinks l r).conflicts

structure Kind.Local (k : Kind H R) : Prop where
  path_add : ∀ p x, (k.add p x).path = p
  path_delete : ∀ p, (k.delete p).path = p

lemma fileKind_local : (fileKind : Kind H (FileRecord H)).Local := ⟨fun _ _ => rfl, fun _ => rfl⟩

omit [LinearOrder H] in
lemma symlinkKind_local : (symlinkKind : Kind H SymlinkRecord).Local := ⟨fun _ _ => rfl, fun _ => rfl⟩

variable {k : Kind H R}

lemma Kind.mergePath_cases (p : Str) (l r : Side H R) :
    (k.mergePath p l r).1 = [] ∨ (∃ x, (k.mergePath p l r).1 = [k.add p x]) ∨ (k.mergePath p l r).1 = [k.delete p] := by
  obtain ⟨lc, la, ld⟩ := l
  obtain ⟨rc, ra, rd⟩ := r
  cases lc with
  | none => cases ld <;> cases rc <;> cases rd <;> simp [mergePath]
  | some y =>
    cases rc with
    | none => cases ld <;> cases rd <;> simp [mergePath]
    | some x =>
      cases ld <;> cases rd <;> try simp [mergePath]
      by_cases hsame : k.identical y x
      · simp [hsame]
      · by_cases hwins : k.localWins y x
        · simp [hsame, resolveConflict, hwins]
        · exact Or.inr (Or.inl ⟨x.1, x.2, by simp [hsame, resolveConflict, hwins]⟩)

lemma Kind.Local.path_mergePath (hk : k.Local) (p : Str) (l r : Side H R) : ∀ op ∈ (k.mergePath p l r).1, op.path = p := by
  intro op hop
  rcases k.mergePath_cases p l r with h | ⟨x, h⟩ | h
  · rw [h] at hop
    cases hop
  · rw [h] at hop
    obtain rfl := mem_singleton.mp hop
    exact hk.path_add p x
  · rw [h] at hop
    obtain rfl := mem_singleton.mp hop
    exact hk.path_delete p

omit [LinearOrder H] in
lemma filter_flatMap_path {ps : List Str} {f : Str → List (MergeOp H)} (hps : ps.Nodup) (hf : ∀ q, ∀ op ∈ f q, op.path = q) (p : Str) :
    (ps.flatMap f).filter (fun op => op.path = p) = if p ∈ ps then f p else [] := by
  induction ps with
  | nil => rfl
  | cons q ps ih =>
    obtain ⟨hq, hps⟩ := nodup_cons.mp hps
    rw [flatMap_cons, filter_append, ih hps]
    by_cases hpq : p = q
    · subst hpq
      have hself : (f p).filter (fun op => op.path = p) = f p := filter_eq_self.mpr fun op hop => by simpa using hf p op hop
      simp [hself, hq]
    · have hnone : (f q).filter (fun op => op.path = p) = [] := by
        refine filter_eq_nil_iff.mpr fun op hop => ?_
        simpa [hf q op hop] using Ne.symm hpq
      simp [hnone, hpq]

lemma Kind.Local.filter_merge (hk : k.Local) (l r : KindDiff H R) (p : Str) :
    (k.merge l r).operations.filter (fun op => op.path = p) = (k.mergePath p (l.side p) (r.side p)).1 := by
  have hnodup : (allPaths l r).Nodup := (perm_insertionSort (· ≤ ·) _).nodup_iff.mpr (nodup_dedup _)
  have hmem : p ∈ allPaths l r ↔ p ∈ l.paths ∨ p ∈ r.paths := by simp [allPaths]
  rw [merge, filter_flatMap_path hnodup (fun q => hk.path_mergePath q _ _)]
  split_ifs with hp
  · rfl
  · rw [hmem, not_or] at hp
    rw [side_of_not_mem hp.1, side_of_not_mem hp.2]
    rfl

omit [LinearOrder H] in
lemma filter_addsFirst (ops : List (MergeOp H)) (p : Str) :
    (addsFirst ops).filter (fun op => op.path = p) = addsFirst (ops.filter fun op => op.path = p) := by
  simp only [addsFirst, filter_append, filter_filter, Bool.and_comm]

def filePathOps (l r : TreeDiff H) (p : Str) : List (MergeOp H) := (fileKind.mergePath p (l.files.side p) (r.files.side p)).1

def symlinkPathOps (l r : TreeDiff H) (p : Str) : List (MergeOp H) :=
  (symlinkKind.mergePath p (l.symlinks.side p) (r.symlinks.side p)).1

lemma filter_threeWayMerge (l r : TreeDiff H) (p : Str) :
    (threeWayMerge l r).operations.filter (fun op => op.path = p) = addsFirst (filePathOps l r p ++ symlinkPathOps l r p) := by
  rw [threeWayMerge, filter_addsFirst, filter_append, mergeFiles, mergeSymlinks, fileKind_local.filter_merge,
    symlinkKind_local.filter_merge, filePathOps, symlinkPathOps]

end AeorDb.Merge
