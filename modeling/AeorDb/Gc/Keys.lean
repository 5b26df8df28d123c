import AeorDb.Gc.Mark

/-! Which keys the stored values stand under, and which keys they refer to. -/

namespace AeorDb.Gc

open Store BTree Dir

section

variable {H : Type}

def nodeRefs : BTreeNode H → List H
  | .leaf es => es.map ChildEntry.hash
  | .internal _ cs => cs

def refs : Value H → List H
  | .file r => r.chunkHashes
  | .link target => [target]
  | .dir (.flat es) => es.map ChildEntry.hash
  | .dir (.node n) =>
    match deserialize n with
    | .ok node => nodeRefs node
    | .error _ => []
  | _ => []

def Points (s : Heap H) (k c : H) : Prop := ∃ r, s.entry k = some r ∧ c ∈ refs r.value

/-- `c` is found from `root` by following live entries. -/
def Reach (s : Heap H) : H → H → Prop := Relation.ReflTransGen (Points s)

end

variable {H : Type} (hs : Hasher H)

inductive TreeKey : H → Prop
  | chunk (bytes : List UInt8) : TreeKey (hs.chunkHash bytes)
  | file (path : Str) (contentType : Option Str) (chunks : List H) : TreeKey (hs.fileIdentityHash path contentType chunks)
  | directory (data : DirData H) : TreeKey (hs.directoryContentHash data)
  | node (n : BTreeNode H) : TreeKey (hs.btreeHash n)
  | symlink (path target : Str) : TreeKey (hs.symlinkIdentityHash path target)

structure ChildTyped (c : ChildEntry H) : Prop where
  walkable : walkable c = true
  tree : TreeKey hs c.hash

def FileKey (k : H) (r : FileRecord H) : Prop :=
  k = hs.filePathHash r.path ∨ k = hs.fileContentHash r ∨ ∃ path contentType, k = hs.fileIdentityHash path contentType r.chunkHashes

def SymlinkKey (k : H) (r : SymlinkRecord) : Prop :=
  k = hs.symlinkPathHash r.path ∨ k = hs.symlinkContentHash r ∨ k = hs.symlinkIdentityHash r.path r.target

def NodeTyped : BTreeNode H → Prop
  | .leaf es => ∀ c ∈ es, ChildTyped hs c
  | .internal _ cs => ∀ c ∈ cs, ∃ n, c = hs.btreeHash n

/-- The entries the engine writes: every value under a key of its own kind, with references of the right kind. -/
def Typed (r : LogEntry H) : Prop :=
  match r.value with
  | .chunk bytes => r.entryType = .chunk ∧ r.key = hs.chunkHash bytes
  | .file record => r.entryType = .fileRecord ∧ FileKey hs r.key record ∧ ∀ c ∈ record.chunkHashes, ∃ bytes, c = hs.chunkHash bytes
  | .link target => r.entryType = .directoryIndex ∧ (∃ path, r.key = hs.directoryPathHash path) ∧ TreeKey hs target
  | .dir (.flat es) =>
    r.entryType = .directoryIndex ∧ (r.key = hs.directoryContentHash (.flat es) ∨ ∃ path, r.key = hs.directoryPathHash path) ∧
      ∀ c ∈ es, ChildTyped hs c
  | .dir (.node n) => r.entryType = .directoryIndex ∧ r.key = hs.btreeHash n ∧ NodeTyped hs n
  | .symlink record => r.entryType = .symlink ∧ SymlinkKey hs r.key record
  | .deletion record => r.entryType = .deletionRecord ∧ r.key = hs.deletionKey record.path record.deletedAt
  | .snapshot info => r.entryType = .snapshot ∧ r.key = hs.snapshotKey info.name ∧ ∀ h, info.rootHash = some h → TreeKey hs h
  | .fork info => r.entryType = .fork ∧ r.key = hs.forkKey info.name ∧ ∀ h, info.rootHash = some h → TreeKey hs h

variable {hs}

def isTree : Preimage H → Bool
  | .chunk _ | .fileIdentity _ _ | .dirContent _ | .btree _ => true
  | .text s => "symlinkid:".toList.isPrefixOf s
  | _ => false

lemma TreeKey.isTree {p : Preimage H} (h : TreeKey hs (hs.compute p)) : isTree p = true := by
  generalize hk : hs.compute p = k at h
  cases h <;> obtain rfl := hs.injective hk <;> rfl

lemma not_treeKey_directoryPathHash (path : Str) : ¬ TreeKey hs (hs.directoryPathHash path) := fun h => by
  simpa [isTree] using h.isTree

lemma not_treeKey_filePathHash (path : Str) : ¬ TreeKey hs (hs.filePathHash path) := fun h => by
  simpa [isTree] using h.isTree

lemma not_treeKey_symlinkPathHash (path : Str) : ¬ TreeKey hs (hs.symlinkPathHash path) := fun h => by
  simpa [isTree] using h.isTree

lemma not_treeKey_fileContentHash (r : FileRecord H) : ¬ TreeKey hs (hs.fileContentHash r) := fun h =>
  Bool.false_ne_true h.isTree

lemma not_treeKey_symlinkContentHash (r : SymlinkRecord) : ¬ TreeKey hs (hs.symlinkContentHash r) := fun h =>
  Bool.false_ne_true h.isTree

lemma mem_deserialize {n node : BTreeNode H} (h : deserialize n = .ok node) (hn : NodeTyped hs n) : NodeTyped hs node := by
  cases n with
  | leaf es =>
    cases h
    intro c hc
    split_ifs at hc
    · cases hc
    · exact hn c hc
  | internal ks cs =>
    rw [deserialize] at h
    split_ifs at h
    cases h
    exact fun c hc => hn c (List.mem_of_mem_take hc)

lemma treeKey_nodeRefs {node : BTreeNode H} (hn : NodeTyped hs node) : ∀ c ∈ nodeRefs node, TreeKey hs c := by
  cases node with
  | leaf es =>
    intro c hc
    obtain ⟨child, hchild, rfl⟩ := List.mem_map.mp hc
    exact (hn child hchild).tree
  | internal ks cs =>
    intro c hc
    obtain ⟨n, rfl⟩ := hn c hc
    exact .node n

variable {r : LogEntry H}

lemma Typed.treeKey_refs (h : Typed hs r) : ∀ c ∈ refs r.value, TreeKey hs c := by
  obtain ⟨t, k, v, time⟩ := r
  intro c hc
  cases v with
  | file record =>
    obtain ⟨bytes, rfl⟩ := h.2.2 c hc
    exact .chunk bytes
  | link target =>
    obtain rfl := List.mem_singleton.mp hc
    exact h.2.2
  | dir data =>
    cases data with
    | flat es =>
      obtain ⟨child, hchild, rfl⟩ := List.mem_map.mp hc
      exact (h.2.2 child hchild).tree
    | node n =>
      cases hd : deserialize n with
      | error err => simp [refs, hd] at hc
      | ok node =>
        simp only [refs, hd] at hc
        exact treeKey_nodeRefs (mem_deserialize hd h.2.2) c hc
  | _ => cases hc

lemma Typed.refs_of_chunkHash {bytes : List UInt8} (h : Typed hs r) (hk : r.key = hs.chunkHash bytes) :
    refs r.value = [] := by
  obtain ⟨t, k, v, time⟩ := r
  obtain rfl : k = hs.chunkHash bytes := hk
  cases v with
  | file record =>
    obtain h | h | ⟨path, contentType, h⟩ := h.2.1 <;> cases hs.injective h
  | link target =>
    obtain ⟨path, h⟩ := h.2.1
    cases hs.injective h
  | dir data =>
    cases data with
    | flat es =>
      obtain h | ⟨path, h⟩ := h.2.1 <;> cases hs.injective h
    | node n => cases hs.injective h.2.1
  | _ => rfl

lemma Typed.refs_of_leaf (h : Typed hs r) (hd : r.entryType ≠ .directoryIndex) (hf : r.entryType ≠ .fileRecord) :
    refs r.value = [] := by
  obtain ⟨t, k, v, time⟩ := r
  cases v with
  | file record => exact (hf h.1).elim
  | link target => exact (hd h.1).elim
  | dir data => cases data <;> exact (hd h.1).elim
  | _ => rfl

lemma text_ne_snapshotKey {s : Str} (hs' : "snap:".toList.isPrefixOf s = false) (name : Str) :
    hs.compute (.text s) ≠ hs.snapshotKey name := by
  intro h
  obtain rfl : s = "snap:".toList ++ name := Preimage.text.inj (hs.injective h)
  rw [List.isPrefixOf_iff_prefix.mpr (List.prefix_append _ _)] at hs'
  cases hs'

lemma TreeKey.ne_snapshotKey {k : H} (h : TreeKey hs k) (name : Str) : k ≠ hs.snapshotKey name := by
  rintro rfl
  simpa [Gc.isTree] using h.isTree

lemma Typed.ne_snapshotKey (h : Typed hs r) (ht : r.entryType ≠ .snapshot) (name : Str) : r.key ≠ hs.snapshotKey name := by
  obtain ⟨t, k, v, time⟩ := r
  cases v with
  | chunk bytes => exact h.2 ▸ (TreeKey.chunk bytes).ne_snapshotKey name
  | file record =>
    obtain rfl | rfl | ⟨path, contentType, rfl⟩ := h.2.1
    · exact text_ne_snapshotKey rfl name
    · exact fun heq => nomatch hs.injective heq
    · exact (TreeKey.file _ _ _).ne_snapshotKey name
  | link target =>
    obtain ⟨path, rfl⟩ := h.2.1
    exact text_ne_snapshotKey rfl name
  | dir data =>
    cases data with
    | flat es =>
      obtain rfl | ⟨path, rfl⟩ := h.2.1
      · exact (TreeKey.directory _).ne_snapshotKey name
      · exact text_ne_snapshotKey rfl name
    | node n => exact h.2.1 ▸ (TreeKey.node n).ne_snapshotKey name
  | symlink record =>
    obtain rfl | rfl | rfl := h.2
    · exact text_ne_snapshotKey rfl name
    · exact fun heq => nomatch hs.injective heq
    · exact (TreeKey.symlink _ _).ne_snapshotKey name
  | deletion record => exact h.2 ▸ text_ne_snapshotKey rfl name
  | snapshot info => exact (ht h.1).elim
  | fork info => exact h.2.1 ▸ text_ne_snapshotKey rfl name

end AeorDb.Gc
