import AeorDb.BTree.NodeStore

/-! Bulk construction of a B-tree from a list of entries. -/

namespace AeorDb.BTree

open Store Library SearchTree Grouping List ChildEntry

variable {H : Type}

lemma chain_of_groups {D : H → List (ChildEntry H) → Prop} (address : List (ChildEntry H) → H)
    (gs : List (List (ChildEntry H))) (hne : gs ≠ []) (hall : ∀ g ∈ gs, g ≠ [] ∧ D (address g) g)
    (hsorted : SortedList.Sorted name gs.flatten) :
    Chain name D (gs.tail.map headName) (gs.map address) gs.flatten := by
  induction gs with
  | nil => exact absurd rfl hne
  | cons g gs ih =>
    obtain ⟨hg, hgs⟩ := forall_mem_cons.mp hall
    cases gs with
    | nil => simpa using Chain.single hg.2 hg.1
    | cons g' gs =>
      obtain ⟨_, hrest, hlt⟩ := (SortedList.Sorted.append_iff g (g' :: gs).flatten).mp hsorted
      obtain ⟨c, cs, rfl⟩ := exists_cons_of_ne_nil (hgs g' (mem_cons_self ..)).1
      refine Chain.cons hg.2 hg.1 (fun x hx => hlt x hx c (by simp)) (fun x hx => ?_) (ih (by simp) hgs hrest)
      rcases mem_cons.mp (show x ∈ c :: (cs ++ gs.flatten) from hx) with rfl | hx'
      · exact le_rfl
      · exact ((pairwise_cons.mp hrest).1 x hx').le

lemma headName_mem {g : List (ChildEntry H)} (hg : g ≠ []) : ∃ c ∈ g, headName g = c.name := by
  obtain ⟨c, cs, rfl⟩ := exists_cons_of_ne_nil hg
  exact ⟨c, mem_cons_self .., rfl⟩

lemma internalGroup_zero (children : List H) (keys : List Str) (hlen : children.length = keys.length + 1)
    (hmax : children.length ≤ maxInternalKeys + 1) : internalGroup children keys 0 = .internal keys children := by
  have he : min (0 + (maxInternalKeys + 1)) children.length = children.length := by omega
  have hk : keys.take (children.length - 1) = keys := take_of_length_le (by omega)
  simp only [internalGroup, groupKeys, he, if_true, hk, take_length, drop_zero]

def bulkLimit : ℕ := maxLeafEntries * (maxInternalKeys + 1)

def ArityOk : BTreeNode H → Prop
  | .leaf _ => True
  | .internal ks cs => cs.length = ks.length + 1

variable {es : List (ChildEntry H)}

lemma leafAt_of_mem (hs : Hasher H) {e : Engine H} (henc : ∀ c ∈ es, c.Encodable) (g : List (ChildEntry H))
    (hg : g ∈ groups maxLeafEntries es) (hlive : Live hs e (.leaf g)) : LeafAt hs e (hs.btreeHash (.leaf g)) g := by
  have hlen : g.length ≤ 40 := length_of_mem_groups hg
  exact ⟨rfl, hlive, by omega, fun c hc => henc c (mem_of_mem_groups hg hc)⟩

section

variable {es : List (ChildEntry H)} (hlen : maxLeafEntries < es.length)

include hlen

lemma ne_nil_of_lt : es ≠ [] := by
  rintro rfl
  simp at hlen

lemma two_le_groups : 2 ≤ (groups maxLeafEntries es).length := by
  rw [length_groups]
  change 2 ≤ (es.length + 40 - 1) / 40
  have : 40 < es.length := hlen
  omega

lemma leaves_chain (hs : Hasher H) (e : Engine H) (hsorted : SortedList.Sorted name es)
    (henc : ∀ c ∈ es, c.Encodable) (hlive : ∀ g ∈ groups maxLeafEntries es, Live hs e (.leaf g)) :
    Chain name (Tree hs e 0) ((groups maxLeafEntries es).tail.map headName)
      (((groups maxLeafEntries es).map .leaf).map hs.btreeHash) es := by
  have hne := ne_nil_of_lt hlen
  have hflat : (groups maxLeafEntries es).flatten = es := flatten_groups (by decide) es hne
  have hsub : ∀ g ∈ groups maxLeafEntries es, SortedList.Sorted name g := fun g hg =>
    hsorted.sublist (hflat ▸ sublist_flatten_of_mem hg)
  have h := chain_of_groups (D := Tree hs e 0) (fun g => hs.btreeHash (.leaf g)) (groups maxLeafEntries es)
    (ne_nil_of_length_pos (by have := two_le_groups hlen; omega))
    (fun g hg => ⟨groups_ne_nil (by decide) es hne g hg, leafAt_of_mem hs henc g hg (hlive g hg), hsub g hg⟩)
    (by rwa [hflat])
  rw [hflat] at h
  rwa [map_map]

lemma splitKeys_fit (henc : ∀ c ∈ es, c.Encodable) : ∀ k ∈ (groups maxLeafEntries es).tail.map headName, utf8Len k ≤ u16Max := by
  refine forall_mem_map.mpr fun g hg => ?_
  have hg' := mem_of_mem_tail hg
  obtain ⟨c, hc, hname⟩ := headName_mem (groups_ne_nil (by decide) es (ne_nil_of_lt hlen) g hg')
  exact hname ▸ (henc c (mem_of_mem_groups hg' hc)).name_fits

end

variable [DecidableEq H] (hs : Hasher H)

lemma buildInternalLevel_single (fuel : ℕ) (e : Engine H) (children : List H) (keys : List Str)
    (hlen : children.length = keys.length + 1) (hmin : 2 ≤ children.length)
    (hmax : children.length ≤ maxInternalKeys + 1) (hkeys : ∀ k ∈ keys, utf8Len k ≤ u16Max) :
    buildInternalLevel hs (fuel + 1) children keys e =
      .ok (hs.btreeHash (.internal keys children)) (storeAll hs e [.internal keys children]) := by
  obtain ⟨c, c', cs, rfl⟩ : ∃ c c' cs, children = c :: c' :: cs := by
    match children with
    | c :: c' :: cs => exact ⟨c, c', cs, rfl⟩
    | [_] => simp at hmin
    | [] => simp at hmin
  have hstarts : starts (maxInternalKeys + 1) (c :: c' :: cs).length = [0] := starts_of_le (by simp) hmax
  have hser : Serializable (internalGroup (c :: c' :: cs) keys 0) := by
    rw [internalGroup_zero _ _ hlen hmax, Serializable, encoded_internal]
    exact serialize_internal _ _ hkeys
  simp only [buildInternalLevel, hstarts]
  refine Result.estate_bind_eq_ok.mpr ⟨_, _, (storeNodes_ok hs).mpr ⟨by simpa using hser, rfl, rfl⟩, ?_⟩
  simp [internalGroup_zero _ _ hlen hmax, encoded_internal, pure, EStateM.pure]

lemma btreeFromSorted_leaf (e : Engine H) (es : List (ChildEntry H)) (hlen : es.length ≤ maxLeafEntries)
    (henc : ∀ c ∈ es, c.Encodable) : btreeFromSorted hs es e = .ok (hs.btreeHash (.leaf es)) (storeAll hs e [.leaf es]) := by
  have hfits : Fits (.leaf es) := ⟨hlen.trans_lt (by decide), henc⟩
  by_cases hne : es = []
  · subst hne
    exact storeBtreeNode_fits hs e hfits
  · rw [btreeFromSorted, if_neg (by simpa using hne), groups_of_le hne hlen]
    exact Result.estate_bind_eq_ok.mpr ⟨_, _, storeNodes_fits hs e (by simpa using hfits), rfl⟩

lemma btreeFromSorted_internal (e : Engine H) (hlen : maxLeafEntries < es.length) (hmax : es.length ≤ bulkLimit)
    (henc : ∀ c ∈ es, c.Encodable) : btreeFromSorted hs es e =
      .ok (hs.btreeHash (.internal ((groups maxLeafEntries es).tail.map headName)
          (((groups maxLeafEntries es).map .leaf).map hs.btreeHash)))
        (storeAll hs e ((groups maxLeafEntries es).map .leaf ++
          [.internal ((groups maxLeafEntries es).tail.map headName)
            (((groups maxLeafEntries es).map .leaf).map hs.btreeHash)])) := by
  have htwo := two_le_groups hlen
  have hkeys := splitKeys_fit hlen henc
  have hcount : (groups maxLeafEntries es).length ≤ maxInternalKeys + 1 := by
    rw [length_groups]
    have : es.length ≤ 40 * 78 := hmax
    change (es.length + 40 - 1) / 40 ≤ 78
    omega
  have hfits : ∀ n ∈ (groups maxLeafEntries es).map BTreeNode.leaf, Fits n := forall_mem_map.mpr fun g hg =>
    ⟨(length_of_mem_groups hg).trans_lt (by decide), fun c hc => henc c (mem_of_mem_groups hg hc)⟩
  rw [btreeFromSorted, if_neg (by simpa using ne_nil_of_lt hlen), storeAll_append]
  refine Result.estate_bind_eq_ok.mpr ⟨_, _, storeNodes_fits hs e hfits, ?_⟩
  match hgs : groups maxLeafEntries es, htwo with
  | g :: g' :: gs, _ =>
    rw [hgs] at hcount hkeys
    exact buildInternalLevel_single hs _ _ _ _ (by simp) (by simp) (by simpa using hcount) hkeys

lemma btreeFromSorted_tree (e : Engine H) (es : List (ChildEntry H)) (hsorted : SortedList.Sorted name es)
    (hmax : es.length ≤ bulkLimit) (henc : ∀ c ∈ es, c.Encodable) :
    ∃ root, ∃ datas : List (BTreeNode H), btreeFromSorted hs es e = .ok root (storeAll hs e datas) ∧
      Tree hs (storeAll hs e datas) 1 root es ∧ ∀ d ∈ datas, ArityOk d := by
  by_cases hlen : es.length ≤ maxLeafEntries
  · refine ⟨_, _, btreeFromSorted_leaf hs e es hlen henc, Or.inl ⟨⟨rfl, ?_, hlen.trans_lt (by decide), henc⟩, hsorted⟩,
      by simp [ArityOk]⟩
    exact live_of_mem hs e (by simp)
  · have hlt : maxLeafEntries < es.length := not_le.mp hlen
    refine ⟨_, _, btreeFromSorted_internal hs e hlt hmax henc,
      Or.inr ⟨_, _, ⟨rfl, live_of_mem hs e (by simp), ?_⟩, ?_⟩, ?_⟩
    · exact splitKeys_fit hlt henc
    · exact leaves_chain hlt hs _ hsorted henc fun g hg => live_of_mem hs e (by simp [hg])
    · intro d hd
      rcases mem_append.mp hd with hd | hd
      · obtain ⟨g, _, rfl⟩ := mem_map.mp hd
        trivial
      · have := two_le_groups hlt
        rw [mem_singleton.mp hd, ArityOk]
        simp only [length_map, length_tail]
        omega

end AeorDb.BTree
