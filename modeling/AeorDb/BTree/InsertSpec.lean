import AeorDb.BTree.NodeStore
import AeorDb.BTree.Update

/-! Insertion into a stored B-tree adds the entry, or puts it in place of the one with its name. -/

namespace AeorDb.BTree

open Store Library SearchTree SortedList Result List ChildEntry

variable {H : Type} {hs : Hasher H} {e : Engine H}

structure Writable (c : ChildEntry H) : Prop where
  name_fits : utf8Len c.name ≤ u16Max
  contentType_fits : utf8Len (c.contentType.getD []) ≤ u16Max

namespace InsertResult

def keys : InsertResult H → List Str
  | done _ _ => []
  | split _ key _ => [key]

def children : InsertResult H → List H
  | done h _ => [h]
  | split left _ right => [left, right]

structure Means (hs : Hasher H) (e : Engine H) (n : ℕ) (r : InsertResult H) (es : List (ChildEntry H)) : Prop where
  chain : Chain name (Tree hs e n) r.keys r.children es
  keys_fit : ∀ k ∈ r.keys, utf8Len k ≤ u16Max
  hash_eq : ∀ h d, r = done h d → h = hs.btreeHash d

end InsertResult

section

variable {es : List (ChildEntry H)} {n : ℕ} {cs : List H} {ks : List Str}

lemma tree_leaf (h : Holds hs e (.leaf es)) (hsorted : SortedList.Sorted name es) :
    Tree hs e n (hs.btreeHash (.leaf es)) es := by
  cases n with
  | zero => exact ⟨⟨rfl, h⟩, hsorted⟩
  | succ n => exact Or.inl ⟨⟨rfl, h⟩, hsorted⟩

lemma Tree.leaf_inv {es es' : List (ChildEntry H)} (h : Tree hs e n (hs.btreeHash (.leaf es)) es') :
    es' = es ∧ Holds hs e (.leaf es) ∧ SortedList.Sorted name es := by
  have hleaf : LeafAt hs e (hs.btreeHash (.leaf es)) es' → SortedList.Sorted name es' →
      es' = es ∧ Holds hs e (.leaf es) ∧ SortedList.Sorted name es := by
    rintro ⟨heq, hl⟩ hsorted
    obtain rfl : es = es' := by simpa using btreeHash_injective hs heq
    exact ⟨rfl, hl, hsorted⟩
  cases n with
  | zero => exact hleaf h.1 h.2
  | succ n =>
    rcases h with ⟨hl, hsorted⟩ | ⟨ks, cs, ⟨heq, _⟩, _⟩
    · exact hleaf hl hsorted
    · cases btreeHash_injective hs heq

lemma Tree.internal_inv (h : Tree hs e n (hs.btreeHash (.internal ks cs)) es) :
    ∃ m, n = m + 1 ∧ Holds hs e (.internal ks cs) ∧ Chain name (Tree hs e m) ks cs es := by
  cases n with
  | zero =>
    obtain ⟨⟨heq, _⟩, _⟩ := h
    cases btreeHash_injective hs heq
  | succ n =>
    rcases h with ⟨⟨heq, _⟩, _⟩ | ⟨ks', cs', ⟨heq, hl⟩, hchain⟩
    · cases btreeHash_injective hs heq
    · cases btreeHash_injective hs heq
      exact ⟨n, rfl, hl, hchain⟩

lemma serialize_writable (h : ∀ c ∈ es, Writable c) : serialize (.leaf es) = .ok (.leaf (es.map ChildEntry.stored)) := by
  have hmap : serializeChildEntries es = .ok (es.map ChildEntry.stored) := by
    refine mapM_eq_ok.mpr (forall₂_map_right_iff.mpr (forall₂_same.mpr fun c hc => ?_))
    simp [ChildEntry.serialize, (h c hc).name_fits.not_gt, (h c hc).contentType_fits.not_gt]
  rw [serialize, hmap]
  rfl

lemma fits_stored (h : ∀ c ∈ es, Writable c) (hlen : es.length < 65536) : Fits (.leaf (es.map stored)) := by
  refine ⟨by simpa using hlen, fun c hc => ?_⟩
  obtain ⟨c, hmem, rfl⟩ := mem_map.mp hc
  exact c.encodable_stored (h c hmem).name_fits (h c hmem).contentType_fits

end

section

variable [DecidableEq H] {nodes : List (BTreeNode H)} {node : BTreeNode H}

lemma holds_storeAll (h : Holds hs e node) : Holds hs (storeAll hs e nodes) node :=
  ⟨(live_storeAll hs nodes e node).mpr (Or.inr h.1), h.2⟩

lemma tree_storeAll {n : ℕ} {root : H} {es : List (ChildEntry H)} (h : Tree hs e n root es) : Tree hs (storeAll hs e nodes) n root es :=
  h.mono fun _ => holds_storeAll

lemma holds_of_mem (hmem : node ∈ nodes) (hfit : Fits node) : Holds hs (storeAll hs e nodes) node :=
  ⟨live_of_mem hs e hmem, hfit⟩

lemma flushBatch_nodeWrites (nodes : NodeBatch H) : e.flushBatch (nodeWrites hs nodes) = storeAll hs e nodes := by
  rw [Engine.flushBatch, nodeWrites, foldl_map]
  rfl

def Yields (hs : Hasher H) (e : Engine H) (n : ℕ) (es : List (ChildEntry H)) (out : EngineResult (InsertResult H × NodeBatch H)) : Prop :=
  ∃ r nodes, out = .ok (r, nodes) ∧ r.Means hs (storeAll hs e nodes) n es

variable {es : List (ChildEntry H)} {n : ℕ} {cs : List H} {ks : List Str} {cs₁ cs₂ : List H} {ks₁ ks₂ : List Str}

lemma addNode_yields {node data : BTreeNode H} (hser : serialize node = .ok data)
    (htree : Tree hs (storeAll hs e [data]) n (hs.btreeHash data) es) (hne : es ≠ []) : Yields hs e n es (addNode hs node) := by
  refine ⟨.done (hs.btreeHash data) data, [data], ?_, .single htree hne, by simp [InsertResult.keys], ?_⟩
  · rw [addNode, hser]
    rfl
  · rintro h d ⟨⟩
    rfl

variable {key : Str}

lemma addHalves_yields {left right leftData rightData : BTreeNode H} {es₁ es₂ : List (ChildEntry H)}
    (hleft : serialize left = .ok leftData) (hright : serialize right = .ok rightData)
    (htree₁ : Tree hs (storeAll hs e [leftData, rightData]) n (hs.btreeHash leftData) es₁)
    (htree₂ : Tree hs (storeAll hs e [leftData, rightData]) n (hs.btreeHash rightData) es₂)
    (hne₁ : es₁ ≠ []) (hne₂ : es₂ ≠ []) (hlt : ∀ c ∈ es₁, c.name < key) (hle : ∀ c ∈ es₂, key ≤ c.name)
    (hkey : utf8Len key ≤ u16Max) : Yields hs e n (es₁ ++ es₂) (addHalves hs left key right) := by
  refine ⟨.split (hs.btreeHash leftData) key (hs.btreeHash rightData), [leftData, rightData], ?_, ?_, ?_, by simp⟩
  · rw [addHalves, hleft, hright]
    rfl
  · exact .cons htree₁ hne₁ hlt hle (.single htree₂ hne₂)
  · simpa [InsertResult.keys] using hkey

omit [DecidableEq H] in
lemma leafSplit_eq (h : 2 ≤ es.length) :
    ∃ left c right, es = left ++ c :: right ∧ left ≠ [] ∧ leafSplit es = (left, c.name, c :: right) := by
  have hmid : 0 < es.length / 2 ∧ es.length / 2 < es.length := by omega
  obtain ⟨c, right, hright⟩ : ∃ c right, es.drop (es.length / 2) = c :: right := exists_cons_of_ne_nil (by simpa using hmid.2)
  refine ⟨es.take (es.length / 2), c, right, by rw [← hright, take_append_drop], ?_, ?_⟩
  · intro hnil
    have hlen := congrArg List.length hnil
    simp only [length_take, length_nil] at hlen
    omega
  · simp [leafSplit, hright, headName]

lemma addLeaf_yields (n : ℕ) (hsorted : SortedList.Sorted name es) (hne : es ≠ [])
    (hw : ∀ c ∈ es, Writable c) (hlen : es.length ≤ 65536) : Yields hs e n (es.map stored) (addLeaf hs es) := by
  have hstored : ∀ {nodes} {part : List (ChildEntry H)}, part.Sublist es → part.length < 65536 →
      .leaf (part.map stored) ∈ nodes →
      Tree hs (storeAll hs e nodes) n (hs.btreeHash (.leaf (part.map stored))) (part.map stored) := by
    intro nodes part hsub hpart hmem
    have hwp : ∀ c ∈ part, Writable c := fun c hc => hw c (hsub.subset hc)
    exact tree_leaf (holds_of_mem hmem (fits_stored hwp hpart)) (pairwise_map.mpr (hsorted.sublist hsub))
  unfold addLeaf
  split_ifs with hfull
  · obtain ⟨left, c, right, rfl, hleft, heq⟩ := leafSplit_eq (le_trans (by decide) hfull)
    obtain ⟨_, hsr, hcross⟩ := (SortedList.Sorted.append_iff _ _).mp hsorted
    have hsub₁ : left.Sublist (left ++ c :: right) := sublist_append_left ..
    have hsub₂ : (c :: right).Sublist (left ++ c :: right) := sublist_append_right ..
    have hleft_pos := length_pos_of_ne_nil hleft
    rw [length_append, length_cons] at hlen
    rw [heq, map_append]
    apply addHalves_yields (serialize_writable fun x hx => hw x (hsub₁.subset hx))
      (serialize_writable fun x hx => hw x (hsub₂.subset hx))
    · exact hstored hsub₁ (by omega) (by simp)
    · exact hstored hsub₂ (by simp only [length_cons]; omega) (by simp)
    · simpa using hleft
    · simp
    · intro x hx
      obtain ⟨y, hy, rfl⟩ := mem_map.mp hx
      exact hcross y hy c (mem_cons_self ..)
    · intro x hx
      obtain ⟨y, hy, rfl⟩ := mem_map.mp hx
      rcases mem_cons.mp hy with rfl | hy
      · exact le_rfl
      · exact ((pairwise_cons.mp hsr).1 y hy).le
    · exact (hw c (hsub₂.subset (mem_cons_self ..))).name_fits
  · have hlt : es.length < 65536 := (not_le.mp hfull).trans (by decide)
    exact addNode_yields (serialize_writable hw) (hstored (.refl es) hlt (by simp)) (by simpa using hne)

lemma tree_of_chain {nodes : List (BTreeNode H)}
    (hchain : Chain name (Tree hs e n) ks cs es) (hfit : ∀ k ∈ ks, utf8Len k ≤ u16Max)
    (hmem : .internal ks cs ∈ nodes) : Tree hs (storeAll hs e nodes) (n + 1) (hs.btreeHash (.internal ks cs)) es :=
  (Or.inr ⟨ks, cs, ⟨rfl, (holds_of_mem hmem hfit)⟩, (hchain.mono fun _ _ _ => tree_storeAll)⟩)

section

variable (hchain : Chain name (Tree hs e n) ks cs es) (hfit : ∀ k ∈ ks, utf8Len k ≤ u16Max)
include hchain hfit

lemma addNode_internal_yields :
    Yields hs e (n + 1) es (addNode hs (.internal ks cs)) :=
  addNode_yields (serialize_internal ks cs hfit) (tree_of_chain hchain hfit (by simp)) hchain.ne_nil

lemma addHalves_internal_yields (hne : ks ≠ []) :
    Yields hs e (n + 1) es (addHalves hs (.internal (internalSplit ks cs).1.1 (internalSplit ks cs).1.2)
      (internalSplit ks cs).2.1 (.internal (internalSplit ks cs).2.2.1 (internalSplit ks cs).2.2.2)) := by
  have hmid : ks.length / 2 < ks.length := Nat.div_lt_self (length_pos_of_ne_nil hne) (by decide)
  have hks : ks = ks.take (ks.length / 2) ++ ks[ks.length / 2] :: ks.drop (ks.length / 2 + 1) := by
    rw [getElem_cons_drop, take_append_drop]
  have hlen : (ks.take (ks.length / 2)).length = ks.length / 2 := by
    rw [length_take]
    omega
  rw [hks] at hchain
  obtain ⟨es₁, es₂, rfl, h₁, h₂, hlt, hle⟩ := hchain.split
  rw [hlen] at h₁ h₂
  have hfit₁ : ∀ k ∈ ks.take (ks.length / 2), utf8Len k ≤ u16Max := fun k hk => hfit k (mem_of_mem_take hk)
  have hfit₂ : ∀ k ∈ ks.drop (ks.length / 2 + 1), utf8Len k ≤ u16Max := fun k hk => hfit k (mem_of_mem_drop hk)
  have hkey : (internalSplit ks cs).2.1 = ks[ks.length / 2] := by simp [internalSplit, hmid]
  rw [hkey]
  exact addHalves_yields (serialize_internal _ _ hfit₁) (serialize_internal _ _ hfit₂)
    (tree_of_chain h₁ hfit₁ (by simp [internalSplit])) (tree_of_chain h₂ hfit₂ (by simp [internalSplit])) h₁.ne_nil h₂.ne_nil hlt hle
    (hfit _ (getElem_mem hmid))

end

omit [DecidableEq H] in
lemma insertKey_focus {left right : H} (hlen : cs₁.length = ks₁.length)
    (hlt : ∀ k ∈ ks₁, k < key) (hgt : ∀ k ∈ ks₂, key < k) :
    insertKey (ks₁ ++ ks₂) (cs₁ ++ left :: cs₂) key right = (ks₁ ++ [key] ++ ks₂, cs₁ ++ [left, right] ++ cs₂) := by
  have hsearch : binarySearch (ks₁ ++ ks₂) key = .error ks₁.length := by
    simpa using @SortedList.binarySearch_missing Str Str _ id ks₁ ks₂ key hlt hgt
  have hkeys : (ks₁ ++ ks₂).insertIdx ks₁.length key = ks₁ ++ [key] ++ ks₂ := by
    simpa using insertIdx_length_append ks₁ ks₂ key
  have hchildren : (cs₁ ++ left :: cs₂).insertIdx (ks₁.length + 1) right = cs₁ ++ [left, right] ++ cs₂ := by
    have h := insertIdx_length_append (cs₁ ++ [left]) cs₂ right
    simpa [hlen] using h
  simp only [insertKey, hsearch, hkeys, hchildren]

lemma addInternal_yields {name : Str} {c : H}
    {es₁ em em' es₂ : List (ChildEntry H)} {r : InsertResult H} {D : H → List (ChildEntry H) → Prop}
    (hf : Focus ChildEntry.name D name ks₁ ks₂ cs₁ c cs₂ es₁ em es₂) (hD : ∀ a es, D a es → Tree hs e n a es) (hr : r.Means hs e n em')
    (hin : ∀ y ∈ em', (∀ k ∈ ks₁, k ≤ y.name) ∧ ∀ k ∈ ks₂, y.name < k) (hkeys : ∀ k ∈ ks₁ ++ ks₂, utf8Len k ≤ u16Max) :
    Yields hs e (n + 1) (es₁ ++ em' ++ es₂) (addInternal hs (ks₁ ++ ks₂) (cs₁ ++ c :: cs₂) cs₁.length r) := by
  have hchain := hf.replace (fun a _ es h => hD a es h) hr.chain hin
  have hfit : ∀ k ∈ ks₁ ++ r.keys ++ ks₂, utf8Len k ≤ u16Max := by
    intro k hk
    simp only [mem_append] at hk hkeys
    rcases hk with (hk | hk) | hk
    · exact hkeys k (Or.inl hk)
    · exact hr.keys_fit k hk
    · exact hkeys k (Or.inr hk)
  cases r with
  | done h d =>
    have hset : (cs₁ ++ c :: cs₂).set cs₁.length h = cs₁ ++ [h] ++ cs₂ := by simp
    have hk : ks₁ ++ ks₂ = ks₁ ++ InsertResult.keys (.done h d) ++ ks₂ := by simp [InsertResult.keys]
    rw [addInternal, hset, hk]
    exact addNode_internal_yields hchain hfit
  | split left key right =>
    have hset : (cs₁ ++ c :: cs₂).set cs₁.length left = cs₁ ++ left :: cs₂ := by simp
    obtain ⟨hlt, hgt⟩ : (∀ k ∈ ks₁, k < key) ∧ ∀ k ∈ ks₂, key < k := by
      cases hr.chain with
      | @cons _ _ _ _ el er _ hne hl hr' hrest =>
        obtain ⟨x, hx⟩ := exists_mem_of_ne_nil el hne
        obtain ⟨y, hy⟩ := exists_mem_of_ne_nil er hrest.ne_nil
        exact ⟨fun k hk => ((hin x (by simp [hx])).1 k hk).trans_lt (hl x hx),
          fun k hk => (hr' y hy).trans_lt ((hin y (by simp [hy])).2 k hk)⟩
    simp only [addInternal, hset, insertKey_focus hf.length_left hlt hgt]
    split_ifs with hfull
    · exact addHalves_internal_yields hchain hfit (by simp)
    · exact addNode_internal_yields hchain hfit

end

variable {es : List (ChildEntry H)} {node : BTreeNode H} {n : ℕ}

lemma Tree.deserialize_eq (h : Tree hs e n (hs.btreeHash node) es) : deserialize node = .ok node := by
  cases node with
  | leaf es =>
    obtain ⟨_, ⟨_, hlen, _⟩, _⟩ := h.leaf_inv
    have hmod : es.length % 65536 = es.length := Nat.mod_eq_of_lt hlen
    rcases es with _ | ⟨c, es⟩
    · rfl
    · simp only [deserialize, hmod]
      simp
  | internal ks cs =>
    obtain ⟨m, _, _, hchain⟩ := h.internal_inv
    simp [deserialize, hchain.length_eq, take_of_length_le]

lemma Tree.root_eq {root : H} (h : Tree hs e n root es) : ∃ node, root = hs.btreeHash node ∧ Holds hs e node := by
  cases n with
  | zero => exact ⟨_, h.1⟩
  | succ n =>
    rcases h with ⟨hl, _⟩ | ⟨ks, cs, hi, _⟩
    · exact ⟨_, hl⟩
    · exact ⟨_, hi⟩

lemma Tree.readNode_eq (h : Tree hs e n (hs.btreeHash node) es)
    (missing : String) : readNode e false (hs.btreeHash node) missing = .ok node := by
  obtain ⟨node', heq, hget, _⟩ := h.root_eq
  obtain rfl := btreeHash_injective hs heq
  rw [readNode, fetch_of_get false hget]
  exact h.deserialize_eq

lemma map_stored_updated (h : ∀ c ∈ es, c.Encodable) (c : ChildEntry H) :
    (updated name es c).map stored = updated name es c.stored := by
  have hself : ∀ p : ChildEntry H → Bool, (es.filter p).map stored = es.filter p := by
    intro p
    conv_rhs => rw [← map_id (es.filter p)]
    exact map_congr_left fun x hx => x.stored_eq_self (h x (mem_of_mem_filter hx)).contentType_ne
  rw [updated, map_append, map_cons, hself, hself]
  rfl

lemma writable_of_encodable {c : ChildEntry H} (h : c.Encodable) : Writable c := ⟨h.name_fits, h.contentType_fits⟩

variable [DecidableEq H] {c : ChildEntry H}

lemma insertNodeBatched_yields {fuel n : ℕ} (h : Tree hs e n (hs.btreeHash node) es) (hw : Writable c) (hn : n < fuel) :
    Yields hs e n (updated ChildEntry.name es c.stored) (insertNodeBatched hs e c fuel node) := by
  induction fuel generalizing n node es with
  | zero => omega
  | succ fuel ih =>
    cases node with
    | leaf es' =>
      obtain ⟨rfl, ⟨_, hlen, henc⟩, hsorted⟩ := h.leaf_inv
      have hupsert := upsert_eq_updated hsorted c
      rw [insertNodeBatched, hupsert, ← map_stored_updated henc]
      apply addLeaf_yields n (hsorted.updated c) (by simp [SortedList.updated])
      · intro x hx
        rcases mem_updated c x |>.mp hx with rfl | ⟨hx, _⟩
        · exact hw
        · exact writable_of_encodable (henc x hx)
      · rw [← hupsert]
        exact (length_upsert_le _ c).trans hlen
    | internal ks cs =>
      obtain ⟨m, rfl, ⟨_, hkeys⟩, hchain⟩ := h.internal_inv
      have hsorted := hchain.keys_sorted
      obtain ⟨ks₁, ks₂, cs₁, a, cs₂, es₁, em, es₂, rfl, rfl, rfl, hf⟩ := hchain.focus c.name
      have hidx : findChildIndex (ks₁ ++ ks₂) c.name = cs₁.length := by
        rw [findChildIndex, hf.childIndex_eq hsorted, hf.length_left]
      obtain ⟨child, rfl, _⟩ := Tree.root_eq hf.here
      obtain ⟨r, batch, hins, hr⟩ := ih hf.here (by omega)
      have hin : ∀ y ∈ updated ChildEntry.name em c.stored,
          (∀ k ∈ ks₁, k ≤ y.name) ∧ ∀ k ∈ ks₂, y.name < k := by
        intro y hy
        rcases mem_updated c.stored y |>.mp hy with rfl | ⟨hy, _⟩
        · exact ⟨hf.keys_le, hf.lt_keys⟩
        · exact hf.within y hy
      obtain ⟨r', nodes, hadd, hr'⟩ := addInternal_yields hf (fun a es h => tree_storeAll h) hr hin hkeys
      refine ⟨r', batch ++ nodes, ?_, ?_⟩
      · have hget : (cs₁ ++ hs.btreeHash child :: cs₂)[cs₁.length]? = some (hs.btreeHash child) := by simp
        simp only [insertNodeBatched, hidx, hget, Tree.readNode_eq hf.here, hins, hadd, bind, Except.bind]
      · rw [storeAll_append, updated_append es₁ em es₂ c.stored hf.left_lt hf.lt_right]
        exact hr'

omit [DecidableEq H] in
lemma Tree.height_le {root : H} (h : Tree hs e n root es) : ∃ m < e.log.length, m ≤ n ∧ Tree hs e m root es := by
  obtain ⟨m, hm, ht⟩ := h.height_lt
  rcases le_total m n with hle | hle
  · exact ⟨m, hm, hle, ht⟩
  · exact ⟨n, hle.trans_lt hm, le_rfl, h⟩

lemma newRoot_tree {r : InsertResult H} {batch : NodeBatch H} (hr : r.Means hs (storeAll hs e batch) n es) :
    ∃ data nodes, newRoot hs (r, batch) = .ok ((hs.btreeHash data, data), nodes) ∧
      Tree hs (storeAll hs e nodes) (n + 1) (hs.btreeHash data) es := by
  cases r with
  | done root data =>
    obtain rfl := hr.hash_eq root data rfl
    refine ⟨data, batch, rfl, ?_⟩
    cases hr.chain with
    | single hroot _ => exact hroot.le (by omega)
  | split left key right =>
    refine ⟨.internal [key] [left, right], batch ++ [.internal [key] [left, right]], ?_, ?_⟩
    · have hser : serialize (.internal [key] [left, right]) = .ok (.internal [key] [left, right]) :=
        serialize_internal _ _ hr.keys_fit
      rw [newRoot, hser]
      rfl
    · rw [storeAll_append]
      exact tree_of_chain hr.chain hr.keys_fit (mem_singleton.mpr rfl)

lemma insertNodeBatched_newRoot (h : Tree hs e n (hs.btreeHash node) es)
    (hw : Writable c) : ∃ result data nodes, insertNodeBatched hs e c (e.log.length + 1) node = .ok result ∧
      newRoot hs result = .ok ((hs.btreeHash data, data), nodes) ∧
      Tree hs (storeAll hs e nodes) (n + 1) (hs.btreeHash data) (updated name es c.stored) := by
  obtain ⟨m, hm, hmn, ht⟩ := h.height_le
  obtain ⟨r, batch, hins, hr⟩ := insertNodeBatched_yields ht hw (Nat.lt_succ_of_lt hm)
  obtain ⟨data, nodes, hroot, htree⟩ := newRoot_tree hr
  exact ⟨_, data, nodes, hins, hroot, htree.le (by omega)⟩

variable {e' : Engine H} {out : H × BTreeNode H}

lemma btreeInsertBatched_iff {rootData : BTreeNode H} {entry : ChildEntry H} :
    btreeInsertBatched hs rootData entry e = .ok out e' ↔ ∃ root result nodes, deserialize rootData = .ok root ∧
      insertNodeBatched hs e entry (e.log.length + 1) root = .ok result ∧ newRoot hs result = .ok (out, nodes) ∧ e' = storeAll hs e nodes := by
  constructor
  · intro h
    obtain ⟨⟨out', nodes⟩, t, hquery, hflush⟩ := estate_bind_eq_ok.mp h
    obtain ⟨hbatch, rfl⟩ := EngineM.query_eq_ok.mp hquery
    obtain ⟨root, hdeser, hinsert⟩ := bind_eq_ok.mp hbatch
    obtain ⟨result, hresult, hroot⟩ := bind_eq_ok.mp hinsert
    obtain ⟨_, t', hwrite, hend⟩ := estate_bind_eq_ok.mp hflush
    obtain ⟨rfl, rfl⟩ := estate_pure_eq_ok.mp hend
    refine ⟨root, result, nodes, hdeser, hresult, hroot, ?_⟩
    rw [EngineM.flush_eq_ok.mp hwrite, flushBatch_nodeWrites]
  · rintro ⟨root, result, nodes, hdeser, hresult, hroot, rfl⟩
    refine estate_bind_eq_ok.mpr ⟨(out, nodes), e, EngineM.query_eq_ok.mpr ⟨?_, rfl⟩, ?_⟩
    · exact bind_eq_ok.mpr ⟨root, hdeser, bind_eq_ok.mpr ⟨result, hresult, hroot⟩⟩
    · refine estate_bind_eq_ok.mpr ⟨(), storeAll hs e nodes, ?_, rfl⟩
      rw [EngineM.flush_eq_ok, flushBatch_nodeWrites]

theorem btreeInsertBatched_spec (h : Tree hs e n (hs.btreeHash node) es) (hw : Writable c) :
    ∃ data nodes, btreeInsertBatched hs node c e = .ok (hs.btreeHash data, data) (storeAll hs e nodes) ∧
      Tree hs (storeAll hs e nodes) (n + 1) (hs.btreeHash data) (updated name es c.stored) := by
  obtain ⟨result, data, nodes, hins, hroot, htree⟩ := insertNodeBatched_newRoot h hw
  exact ⟨data, nodes, btreeInsertBatched_iff.mpr ⟨node, result, nodes, h.deserialize_eq, hins, hroot, rfl⟩, htree⟩

section

omit [DecidableEq H]

lemma writable_of_serialize {data : BTreeNode H} (h : serialize (.leaf es) = .ok data) : ∀ x ∈ es, Writable x := fun x hx =>
  ⟨((serialize_leaf_ok h).2 x hx).1, ((serialize_leaf_ok h).2 x hx).2⟩

lemma writable_of_addLeaf {out : InsertResult H × NodeBatch H} (h : addLeaf hs es = .ok out) : ∀ x ∈ es, Writable x := by
  unfold addLeaf at h
  split_ifs at h with hfull
  · obtain ⟨l, hl, h⟩ := bind_eq_ok.mp h
    obtain ⟨r, hr, _⟩ := bind_eq_ok.mp h
    intro x hx
    rw [← take_append_drop (es.length / 2) es] at hx
    rcases mem_append.mp hx with hx | hx
    · exact writable_of_serialize hl x hx
    · exact writable_of_serialize hr x hx
  · obtain ⟨d, hd, _⟩ := bind_eq_ok.mp h
    exact writable_of_serialize hd

lemma writable_of_insertNodeBatched {fuel : ℕ} {out : InsertResult H × NodeBatch H}
    (h : insertNodeBatched hs e c fuel node = .ok out) : Writable c := by
  induction fuel generalizing node out with
  | zero => cases h
  | succ fuel ih =>
    cases node with
    | leaf es => exact writable_of_addLeaf h c (mem_upsert es c)
    | internal ks cs =>
      rw [insertNodeBatched] at h
      cases hc : cs[findChildIndex ks c.name]? with
      | none => simp [hc] at h
      | some a =>
        simp only [hc] at h
        obtain ⟨child, _, h⟩ := bind_eq_ok.mp h
        obtain ⟨out, hout, _⟩ := bind_eq_ok.mp h
        exact ih hout

end

lemma writable_of_btreeInsertBatched
    (h : btreeInsertBatched hs node c e = .ok out e') : Writable c := by
  obtain ⟨root, result, nodes, _, hins, _, _⟩ := btreeInsertBatched_iff.mp h
  exact writable_of_insertNodeBatched hins

end AeorDb.BTree
