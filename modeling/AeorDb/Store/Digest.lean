import AeorDb.Store.Hashing

/-! A concrete collision-free hash: a digest records its input. -/

namespace AeorDb.Store

open List

inductive Digest where
  | mk (tag : ℕ) (text : Str) (nums : List ℤ) (subs : List Digest)

namespace Digest

mutual

def eqb : Digest → Digest → Bool
  | .mk t x n s, .mk t' x' n' s' => t == t' && x == x' && n == n' && eqbList s s'

def eqbList : List Digest → List Digest → Bool
  | [], [] => true
  | a :: s, b :: s' => eqb a b && eqbList s s'
  | _, _ => false

end

mutual

lemma eqb_iff : (a b : Digest) → (eqb a b = true ↔ a = b)
  | .mk t x n s, .mk t' x' n' s' => by simp [eqb, eqbList_iff s s', and_assoc]

lemma eqbList_iff : (s s' : List Digest) → (eqbList s s' = true ↔ s = s')
  | [], [] => by simp [eqbList]
  | a :: s, b :: s' => by simp [eqbList, eqb_iff a b, eqbList_iff s s']
  | [], _ :: _ => by simp [eqbList]
  | _ :: _, [] => by simp [eqbList]

end

instance : DecidableEq Digest := fun a b => decidable_of_iff _ (eqb_iff a b)

def ofStr (s : Str) : Digest := .mk 0 s [] []

def ofBytes (bytes : List UInt8) : Digest := .mk 0 [] (bytes.map fun b => (b.toNat : ℤ)) []

def ofOption : Option Str → Digest
  | none => .mk 0 [] [] []
  | some s => .mk 1 s [] []

def ofType : EntryType → ℤ
  | .chunk => 1
  | .fileRecord => 2
  | .directoryIndex => 3
  | .deletionRecord => 4
  | .snapshot => 5
  | .void => 6
  | .fork => 7
  | .symlink => 8

def ofChild (c : ChildEntry Digest) : Digest :=
  .mk 0 c.name [ofType c.entryType, c.totalSize, c.createdAt, c.updatedAt, c.virtualTime, c.nodeId]
    [c.hash, ofOption c.contentType]

def ofFile (r : FileRecord Digest) : Digest :=
  .mk 0 r.path [r.totalSize, r.createdAt, r.updatedAt] ([ofOption r.contentType, ofBytes r.metadata, r.contentHash] ++ r.chunkHashes)

def ofNode : BTreeNode Digest → Digest
  | .leaf es => .mk 0 [] [] (es.map ofChild)
  | .internal ks cs => .mk 1 [] [] [.mk 0 [] [] (ks.map ofStr), .mk 0 [] [] cs]

def ofDir : DirData Digest → Digest
  | .flat es => .mk 0 [] [] (es.map ofChild)
  | .node n => .mk 1 [] [] [ofNode n]

def ofSymlink (r : SymlinkRecord) : Digest := .mk 0 r.path [r.createdAt, r.updatedAt] [ofStr r.target]

def ofPreimage : Preimage Digest → Digest
  | .text s => .mk 2 s [] []
  | .whole bytes => .mk 3 [] [] [ofBytes bytes]
  | .chunk bytes => .mk 4 [] [] [ofBytes bytes]
  | .fileContent r => .mk 5 [] [] [ofFile r]
  | .fileIdentity header chunks => .mk 6 header [] chunks
  | .dirContent d => .mk 7 [] [] [ofDir d]
  | .btree n => .mk 8 [] [] [ofNode n]
  | .symlinkContent r => .mk 9 [] [] [ofSymlink r]

lemma ofStr_injective : Function.Injective ofStr := fun a b h => by simpa [ofStr] using h

lemma ofBytes_injective : Function.Injective ofBytes := fun a b h => by
  have hinj : Function.Injective fun b : UInt8 => (b.toNat : ℤ) := fun a b h => UInt8.toNat_inj.mp (by simpa using h)
  exact map_injective_iff.mpr hinj (by simpa [ofBytes] using h)

lemma ofOption_injective : Function.Injective ofOption := fun a b h => by
  cases a <;> cases b <;> simp_all [ofOption]

lemma ofType_injective : Function.Injective ofType := fun a b h => by
  cases a <;> cases b <;> first | rfl | simp [ofType] at h

lemma ofChild_injective : Function.Injective ofChild := fun a b h => by
  simp only [ofChild, Digest.mk.injEq, List.cons.injEq, ofType_injective.eq_iff, ofOption_injective.eq_iff, Nat.cast_inj] at h
  cases a
  cases b
  simp_all

lemma ofFile_injective : Function.Injective ofFile := fun a b h => by
  simp only [ofFile, Digest.mk.injEq, cons_append, nil_append, List.cons.injEq, ofBytes_injective.eq_iff,
    ofOption_injective.eq_iff, Nat.cast_inj] at h
  cases a
  cases b
  simp_all

lemma ofNode_injective : Function.Injective ofNode := fun a b h => by
  cases a <;> cases b <;> simp_all [ofNode, (map_injective_iff.mpr ofChild_injective).eq_iff,
      (map_injective_iff.mpr ofStr_injective).eq_iff]

lemma ofDir_injective : Function.Injective ofDir := fun a b h => by
  cases a <;> cases b <;> simp_all [ofDir, (map_injective_iff.mpr ofChild_injective).eq_iff, ofNode_injective.eq_iff]

lemma ofSymlink_injective : Function.Injective ofSymlink := fun a b h => by
  simp only [ofSymlink, Digest.mk.injEq, List.cons.injEq, ofStr_injective.eq_iff] at h
  cases a
  cases b
  simp_all

lemma ofPreimage_injective : Function.Injective ofPreimage := fun a b h => by
  cases a <;> cases b <;> simp_all [ofPreimage, ofBytes_injective.eq_iff, ofFile_injective.eq_iff, ofDir_injective.eq_iff,
      ofNode_injective.eq_iff, ofSymlink_injective.eq_iff]

def hasher : Hasher Digest := ⟨ofPreimage, ofPreimage_injective, 32⟩

mutual

def code : Digest → List ℤ
  | .mk t x n s => (t : ℤ) :: (x.length : ℤ) :: (x.map fun c => (c.toNat : ℤ)) ++ (n.length : ℤ) :: n ++ (s.length : ℤ) :: codeList s

def codeList : List Digest → List ℤ
  | [] => []
  | a :: s => code a ++ codeList s

end

mutual

lemma code_append_inj : (a b : Digest) → (u v : List ℤ) → code a ++ u = code b ++ v → a = b ∧ u = v
  | .mk t x n s, .mk t' x' n' s', u, v, h => by
    simp only [code, cons_append, append_assoc, List.cons.injEq, Nat.cast_inj] at h
    obtain ⟨rfl, hx, htext⟩ := h
    obtain ⟨hchars, hnums⟩ := append_inj htext (by simpa using hx)
    have hinj : Function.Injective fun c : Char => (c.toNat : ℤ) := fun c d hcd => Char.toNat_inj.mp (by simpa using hcd)
    obtain rfl := map_injective_iff.mpr hinj hchars
    simp only [List.cons.injEq, Nat.cast_inj] at hnums
    obtain ⟨rfl, hsubs⟩ := append_inj hnums.2 hnums.1
    simp only [List.cons.injEq, Nat.cast_inj] at hsubs
    obtain ⟨rfl, huv⟩ := codeList_append_inj s s' u v hsubs.1 hsubs.2
    exact ⟨rfl, huv⟩

lemma codeList_append_inj : (s s' : List Digest) → (u v : List ℤ) → s.length = s'.length → codeList s ++ u = codeList s' ++ v → s = s' ∧ u = v
  | [], [], _, _, _, h => ⟨rfl, h⟩
  | a :: s, b :: s', u, v, hlen, h => by
    simp only [codeList, append_assoc] at h
    obtain ⟨rfl, hrest⟩ := code_append_inj a b _ _ h
    obtain ⟨rfl, huv⟩ := codeList_append_inj s s' u v (by simpa using hlen) hrest
    exact ⟨rfl, huv⟩

end

lemma code_injective : Function.Injective code := fun a b h => (code_append_inj a b [] [] (by simpa using h)).1

abbrev codeOrder : LinearOrder Digest := LinearOrder.lift' code code_injective

instance : LinearOrder Digest :=
  { codeOrder with
    toDecidableEq := instDecidableEq
    compare_eq_compareOfLessAndEq := fun a b => by
      refine (codeOrder.compare_eq_compareOfLessAndEq a b).trans ?_
      simp only [compareOfLessAndEq]
      congr }

end Digest

instance countableChar : Countable Char := Function.Injective.countable (f := Char.toNat) fun _ _ h => Char.ext (UInt32.toNat_inj.mp h)

instance countableByte : Countable UInt8 := Function.Injective.countable (f := UInt8.toNat) fun _ _ h => UInt8.toNat_inj.mp h

deriving instance Countable for EntryType
deriving instance Countable for ChildEntry
deriving instance Countable for FileRecord
deriving instance Countable for SymlinkRecord
deriving instance Countable for BTreeNode
deriving instance Countable for DirData
deriving instance Countable for Preimage

noncomputable def byteHasher : Hasher (List UInt8) where
  compute p := List.replicate ((exists_injective_nat (Preimage (List UInt8))).choose p) 0
  injective := by
    intro p q h
    have hnumber := congrArg List.length h
    rw [length_replicate, length_replicate] at hnumber
    exact (exists_injective_nat (Preimage (List UInt8))).choose_spec hnumber
  hashLength := 32

end AeorDb.Store
