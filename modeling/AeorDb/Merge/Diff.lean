import AeorDb.Library.Table
import AeorDb.Store.Hashing

/-! Version trees and what changed between two of them. -/

namespace AeorDb.Merge

open Store Library Option

variable {H R : Type}

abbrev PathMap (H R : Type) := Table (Prod.fst : Str × H × R → Str)

def PathMap.lookup (m : PathMap H R) (path : Str) : Option (H × R) := (m.get path).map Prod.snd

structure VersionTree (H : Type) where
  files : PathMap H (FileRecord H)
  symlinks : PathMap H SymlinkRecord

structure KindDiff (H R : Type) where
  added : PathMap H R
  modified : PathMap H R
  deleted : List Str

structure TreeDiff (H : Type) where
  files : KindDiff H (FileRecord H)
  symlinks : KindDiff H SymlinkRecord

def modifiedFrom (changed : R → R → Bool) (base : PathMap H R) (x : Str × H × R) : Bool :=
  (base.lookup x.1).any fun b => changed b.2 x.2.2

def diffKind (changed : R → R → Bool) (base target : PathMap H R) : KindDiff H R where
  added := target.filter fun x => !base.contains x.1
  modified := target.filter (modifiedFrom changed base)
  deleted := (base.entries.map Prod.fst).filter fun path => !target.contains path

def fileChanged [DecidableEq H] (base target : FileRecord H) : Bool := base.chunkHashes != target.chunkHashes

def symlinkChanged (base target : SymlinkRecord) : Bool := base.target != target.target

def diffTrees [DecidableEq H] (base target : VersionTree H) : TreeDiff H where
  files := diffKind fileChanged base.files target.files
  symlinks := diffKind symlinkChanged base.symlinks target.symlinks

structure Side (H R : Type) where
  change : Option (H × R)
  isAdd : Bool
  deleted : Bool

namespace KindDiff

def side (d : KindDiff H R) (path : Str) : Side H R where
  change := (d.added.lookup path).or (d.modified.lookup path)
  isAdd := d.added.contains path
  deleted := decide (path ∈ d.deleted)

def paths (d : KindDiff H R) : List Str :=
  d.added.entries.map Prod.fst ++ d.modified.entries.map Prod.fst ++ d.deleted

end KindDiff

def sideOf (changed : R → R → Bool) : Option (H × R) → Option (H × R) → Side H R
  | none, none => ⟨none, false, false⟩
  | none, some x => ⟨some x, true, false⟩
  | some b, some x => ⟨if changed b.2 x.2 then some x else none, false, false⟩
  | some _, none => ⟨none, false, true⟩

lemma lookup_filter (m : PathMap H R) (p : Str × H × R → Bool) (path : Str) :
    PathMap.lookup (m.filter p) path = (m.lookup path).filter fun x => p (path, x) := by
  rw [PathMap.lookup, Table.get_filter, PathMap.lookup]
  cases h : m.get path with
  | none => rfl
  | some x =>
    obtain ⟨_, rfl⟩ := Table.get_eq_some.mp h
    cases hp : p x <;> simp [Option.filter, hp]

lemma contains_iff_lookup (m : PathMap H R) (path : Str) : m.contains path = (m.lookup path).isSome := by
  rw [Table.contains, PathMap.lookup, isSome_map]

lemma mem_paths_iff (m : PathMap H R) (path : Str) : path ∈ m.entries.map Prod.fst ↔ (m.lookup path).isSome := by
  rw [← contains_iff_lookup, Table.contains_iff, Table.keys, List.mem_toFinset]

lemma mem_deleted (changed : R → R → Bool) (base target : PathMap H R) (path : Str) :
    path ∈ (diffKind changed base target).deleted ↔ (base.lookup path).isSome ∧ target.lookup path = none := by
  rw [diffKind, List.mem_filter, mem_paths_iff, Bool.not_eq_true', contains_iff_lookup, isSome_eq_false_iff, isNone_iff_eq_none]

lemma side_diffKind (changed : R → R → Bool) (base target : PathMap H R) (path : Str) :
    (diffKind changed base target).side path = sideOf changed (base.lookup path) (target.lookup path) := by
  simp only [KindDiff.side, mem_deleted, contains_iff_lookup]
  simp only [diffKind, lookup_filter, modifiedFrom, contains_iff_lookup]
  cases base.lookup path <;> cases target.lookup path <;> simp [sideOf, Option.filter]

lemma side_of_not_mem {d : KindDiff H R} {path : Str} (h : path ∉ d.paths) : d.side path = ⟨none, false, false⟩ := by
  simp only [KindDiff.paths, List.mem_append, not_or, mem_paths_iff, not_isSome_iff_eq_none] at h
  obtain ⟨⟨hadded, hmodified⟩, hdeleted⟩ := h
  simp [KindDiff.side, hadded, hmodified, hdeleted, contains_iff_lookup]

end AeorDb.Merge
