import AeorDb.Dir.Operations
import AeorDb.Merge.Diff

/-! Everything below a version's root, collected path by path, and what the diff of two versions makes of the first one. -/

namespace AeorDb.Version

open Store BTree Dir Merge Library List

structure WalkedTree (H : Type) extends VersionTree H where
  directories : PathMap H (Value H)
  chunks : List H

section

variable {H : Type} [DecidableEq H] (e : Engine H)

def WalkedTree.empty : WalkedTree H := ⟨⟨.empty, .empty⟩, .empty, []⟩

def versionChildren : Value H → EngineResult (List (ChildEntry H))
  | .dir (.flat es) => .ok es
  | .dir (.node n) => btreeListFromNode e n true
  | _ => .error (.corruptEntry 0 "Unexpected directory data")

abbrev WalkState (H : Type) := WalkedTree H × Finset H

def walkChild (walkDir : H → Str → WalkState H → EngineResult (WalkState H)) (path : Str) (st : WalkState H) (c : ChildEntry H) :
    EngineResult (WalkState H) :=
  let path := childPath path c.name
  match c.entryType with
  | .directoryIndex => walkDir c.hash path st
  | .fileRecord =>
    match e.getRaw c.hash with
    | none => .ok st
    | some r => do
      let record ← fileOf r.value
      .ok ({ st.1 with files := st.1.files.insert (path, c.hash, record), chunks := st.1.chunks.union record.chunkHashes }, st.2)
  | .symlink =>
    match e.getRaw c.hash with
    | none => .ok st
    | some r => do
      let record ← symlinkOf r.value
      .ok ({ st.1 with symlinks := st.1.symlinks.insert (path, c.hash, record) }, st.2)
  | _ => .ok st

/-- The second part of the state is the set of directory hashes the walk has been to; a step into a
directory adds one, so the bound on the depth is never reached. -/
def walkDirectory : ℕ → H → Str → WalkState H → EngineResult (WalkState H)
  | 0, _, _, _ => .error outOfFuel
  | fuel + 1, h, path, (tree, visited) =>
    if h ∈ visited then .ok (tree, visited)
    else
      match e.getRaw h with
      | none => .ok (tree, insert h visited)
      | some r => do
        let children ← versionChildren e r.value
        children.foldlM (walkChild e (walkDirectory fuel) path)
          ({ tree with directories := tree.directories.insert (path, h, r.value) }, insert h visited)

def walkVersionTree (root : H) : EngineResult (WalkedTree H) :=
  (walkDirectory e (e.log.length + 2) root ['/'] (.empty, ∅)).map Prod.fst

def walkRoot : Option H → EngineResult (WalkedTree H)
  | none => .ok .empty
  | some root => walkVersionTree e root

end

section

variable {H R : Type}

/-- A version as it is walked: its chunks are those that its files are made of. -/
structure WholeTree (H : Type) extends WalkedTree H where
  chunks_iff : ∀ c, c ∈ chunks ↔ ∃ x ∈ files.entries, c ∈ x.2.2.chunkHashes

structure VersionDiff (H : Type) extends TreeDiff H where
  newChunks : List H
  changedDirectories : PathMap H (Value H)

def diffDirectories [DecidableEq H] (base target : PathMap H (Value H)) : PathMap H (Value H) :=
  target.filter fun x => (base.lookup x.1).all fun b => b.2 ≠ x.2.2

def diffVersions [DecidableEq H] (base target : WalkedTree H) : VersionDiff H where
  toTreeDiff := diffTrees base.toVersionTree target.toVersionTree
  newChunks := target.chunks.filter (· ∉ base.chunks)
  changedDirectories := diffDirectories base.directories target.directories

def applyKind (d : KindDiff H R) (m : PathMap H R) : PathMap H R :=
  ((m.filter fun x => x.1 ∉ d.deleted).insertAll d.added.entries).insertAll d.modified.entries

def VersionDiff.apply [DecidableEq H] (d : VersionDiff H) (t : WalkedTree H) : WalkedTree H where
  files := applyKind d.files t.files
  symlinks := applyKind d.symlinks t.symlinks
  directories := t.directories.insertAll d.changedDirectories.entries
  chunks := t.chunks.union d.newChunks

structure VersionDiff.Empty (d : VersionDiff H) : Prop where
  files : d.files.paths = []
  symlinks : d.symlinks.paths = []
  newChunks : d.newChunks = []
  changedDirectories : d.changedDirectories.entries = []

def SameContent (t u : VersionTree H) : Prop :=
  ∀ p, (t.files.lookup p).map (fun x => (x.2.chunkHashes, x.2.contentType)) =
      (u.files.lookup p).map (fun x => (x.2.chunkHashes, x.2.contentType)) ∧
    (t.symlinks.lookup p).map (·.2.target) = (u.symlinks.lookup p).map (·.2.target)

lemma lookup_insertAll (m n : PathMap H R) (p : Str) : PathMap.lookup (m.insertAll n.entries) p = (n.lookup p).or (m.lookup p) := by
  rw [PathMap.lookup, Table.get_insertAll, Table.latest_eq_get n fun _ => Iff.rfl, Option.map_or]
  rfl

/-- A path of the target holds what it holds there, or what it held before if the two count as unchanged. -/
lemma lookup_applyKind (changed : R → R → Bool) (base target : PathMap H R) (p : Str) :
    PathMap.lookup (applyKind (diffKind changed base target) base) p =
      (target.lookup p).map fun x => ((base.lookup p).filter fun b => !changed b.2 x.2).getD x := by
  rw [applyKind, lookup_insertAll, lookup_insertAll, lookup_filter]
  simp only [mem_deleted]
  simp only [diffKind, lookup_filter, modifiedFrom, contains_iff_lookup]
  cases base.lookup p with
  | none => cases target.lookup p <;> simp [Option.filter]
  | some b =>
    cases target.lookup p with
    | none => simp [Option.filter]
    | some x => cases h : changed b.2 x.2 <;> simp [Option.filter, h]

lemma paths_diffKind_self {changed : R → R → Bool} (hself : ∀ r, changed r r = false) (m : PathMap H R) :
    (diffKind changed m m).paths = [] := by
  refine eq_nil_iff_forall_not_mem.mpr fun p hp => ?_
  simp only [KindDiff.paths, mem_append, mem_paths_iff, mem_deleted] at hp
  simp only [diffKind, lookup_filter, modifiedFrom, contains_iff_lookup] at hp
  cases hm : m.lookup p <;> simp [hm, hself] at hp

end

variable {H : Type} [DecidableEq H]

def typedFile (contentType : Option Str) : WholeTree ℕ where
  files := Table.empty.insert (['/', 'a'], 1, ⟨['/', 'a'], contentType, 0, 0, 0, [], 0, []⟩)
  symlinks := .empty
  directories := .empty
  chunks := []
  chunks_iff := by simp [Table.mem_insert, Table.empty]

end AeorDb.Version
