import AeorDb.BTree.DirectInsert
import AeorDb.BTree.DeleteSpec

/-! Insertion and deletion keep every node of a stored B-tree within the limits. -/

namespace AeorDb.BTree

open Store Library Result List InsertResult

variable {H : Type} {hs : Hasher H} {e : Engine H}

namespace BTreeNode

def size : BTreeNode H → ℕ
  | .leaf es => es.length
  | .internal ks _ => ks.length

def capacity : BTreeNode H → ℕ
  | .leaf _ => maxLeafEntries
  | .internal _ _ => maxInternalKeys

def subtrees : BTreeNode H → List H
  | .leaf _ => []
  | .internal _ cs => cs

end BTreeNode

open BTreeNode

inductive Bounded (hs : Hasher H) (e : Engine H) : H → Prop where
  | node {node : BTreeNode H} : Live hs e node → size node ≤ capacity node → (∀ c ∈ subtrees node, Bounded hs e c) →
      Bounded hs e (hs.btreeHash node)

structure Small (hs : Hasher H) (e : Engine H) (node : BTreeNode H) : Prop where
  size_le : size node ≤ capacity node
  subtrees_bounded : ∀ c ∈ subtrees node, Bounded hs e c

lemma small_of_serialize {node data : BTreeNode H} (h : serialize node = .ok data) (hsmall : Small hs e node) : Small hs e data := by
  cases node with
  | leaf es =>
    obtain ⟨rfl, _⟩ := serialize_leaf_ok h
    refine ⟨?_, by simp [subtrees]⟩
    simpa [size, capacity] using hsmall.size_le
  | internal ks cs =>
    rw [← serialize_ok h, encoded_internal]
    exact hsmall

lemma small_of_deserialize {data node : BTreeNode H} (h : deserialize data = .ok node) (hsmall : Small hs e data) : Small hs e node := by
  cases data with
  | leaf es =>
    cases h
    refine ⟨?_, by simp [subtrees]⟩
    have hsize : es.length ≤ maxLeafEntries := hsmall.size_le
    simp only [size, capacity]
    split_ifs
    · exact Nat.zero_le _
    · exact hsize
  | internal ks cs =>
    simp only [deserialize] at h
    split_ifs at h
    cases h
    exact ⟨hsmall.size_le, fun c hc => hsmall.subtrees_bounded c (mem_of_mem_take hc)⟩

variable {node : BTreeNode H}

lemma Bounded.live_small (h : Bounded hs e (hs.btreeHash node)) : Live hs e node ∧ Small hs e node := by
  generalize ha : hs.btreeHash node = a at h
  cases h with
  | @node node' hlive hsize hsub =>
    obtain rfl := btreeHash_injective hs ha
    exact ⟨hlive, hsize, hsub⟩

lemma Bounded.readNode_small {a : H} {missing : String} (h : Bounded hs e a)
    (hread : readNode e false a missing = .ok node) : Small hs e node := by
  cases h with
  | @node data hlive hsize hsub =>
    rw [readNode, fetch_of_get false hlive] at hread
    exact small_of_deserialize hread ⟨hsize, hsub⟩

variable [DecidableEq H]

lemma Bounded.storeAll {a : H} (h : Bounded hs e a) (nodes : List (BTreeNode H)) : Bounded hs (storeAll hs e nodes) a := by
  induction h with
  | @node node hlive hsize _ ih => exact .node ((live_storeAll hs nodes e node).mpr (Or.inr hlive)) hsize ih

lemma bounded_of_small {node data : BTreeNode H} {nodes : List (BTreeNode H)} (h : serialize node = .ok data) (hsmall : Small hs e node)
    (hmem : data ∈ nodes) : Bounded hs (storeAll hs e nodes) (hs.btreeHash data) := by
  have hdata := small_of_serialize h hsmall
  exact .node (live_of_mem hs e hmem) hdata.size_le fun c hc => (hdata.subtrees_bounded c hc).storeAll nodes

def Keeps (hs : Hasher H) (e : Engine H) (out : EngineResult (InsertResult H × NodeBatch H)) : Prop :=
  ∀ r nodes, out = .ok (r, nodes) → ∀ a ∈ r.children, Bounded hs (storeAll hs e nodes) a

variable {es : List (ChildEntry H)} {cs : List H} {ks : List Str} {r : InsertResult H} {c : ChildEntry H}

lemma addNode_keeps (h : Small hs e node) : Keeps hs e (addNode hs node) := by
  intro r nodes hout a ha
  obtain ⟨data, hser, hout⟩ := bind_eq_ok.mp hout
  cases hout
  obtain rfl := mem_singleton.mp ha
  exact bounded_of_small hser h (mem_singleton.mpr rfl)

lemma addHalves_keeps {left right : BTreeNode H} {key : Str} (hl : Small hs e left) (hr : Small hs e right) :
    Keeps hs e (addHalves hs left key right) := by
  intro r nodes hout a ha
  obtain ⟨leftData, hleft, hout⟩ := bind_eq_ok.mp hout
  obtain ⟨rightData, hright, hout⟩ := bind_eq_ok.mp hout
  cases hout
  simp only [children, mem_cons, not_mem_nil, or_false] at ha
  rcases ha with rfl | rfl
  · exact bounded_of_small hleft hl (by simp)
  · exact bounded_of_small hright hr (by simp)

lemma addLeaf_keeps (h : es.length ≤ maxLeafEntries + 1) : Keeps hs e (addLeaf hs es) := by
  have hmax : maxLeafEntries = 40 := rfl
  rw [addLeaf]
  split_ifs with hfull
  · apply addHalves_keeps
    · refine ⟨?_, by simp [subtrees]⟩
      simp only [size, capacity, length_take]
      omega
    · refine ⟨?_, by simp [subtrees]⟩
      simp only [size, capacity, length_drop]
      omega
  · exact addNode_keeps ⟨(not_le.mp hfull).le, by simp [subtrees]⟩

lemma addInternal_keeps {i : ℕ} (h : Small hs e (.internal ks cs))
    (hr : ∀ a ∈ r.children, Bounded hs e a) : Keeps hs e (addInternal hs ks cs i r) := by
  have hmax : maxInternalKeys = 77 := rfl
  have hsize : ks.length ≤ maxInternalKeys := h.size_le
  have hset : ∀ x, Bounded hs e x → ∀ a ∈ cs.set i x, Bounded hs e a := by
    intro x hx a ha
    rcases mem_or_eq_of_mem_set ha with ha | rfl
    · exact h.subtrees_bounded a ha
    · exact hx
  cases r with
  | done x data => exact addNode_keeps ⟨hsize, hset x (hr x (by simp [children]))⟩
  | split left key right =>
    simp only [addInternal]
    obtain ⟨j, hins⟩ : ∃ j, insertKey ks (cs.set i left) key right = (ks.insertIdx j key, (cs.set i left).insertIdx (j + 1) right) :=
      ⟨_, rfl⟩
    have hlen := @List.length_insertIdx_le_succ _ ks key j
    have hall : ∀ a ∈ (cs.set i left).insertIdx (j + 1) right, Bounded hs e a := by
      intro a ha
      rcases eq_or_mem_of_mem_insertIdx ha with rfl | ha
      · exact hr a (by simp [children])
      · exact hset left (hr left (by simp [children])) a ha
    rw [hins]
    split_ifs with hfull
    · simp only at hfull
      apply addHalves_keeps
      · refine ⟨?_, fun a ha => hall a (mem_of_mem_take ha)⟩
        simp only [size, capacity, internalSplit, length_take]
        omega
      · refine ⟨?_, fun a ha => hall a (mem_of_mem_drop ha)⟩
        simp only [size, capacity, internalSplit, length_drop]
        omega
    · exact addNode_keeps ⟨(not_le.mp hfull).le, hall⟩

variable {fuel : ℕ} {name : Str} {root : H}

lemma insertNodeBatched_keeps (h : Small hs e node) :
    Keeps hs e (insertNodeBatched hs e c fuel node) := by
  induction fuel generalizing node with
  | zero =>
    intro r nodes hout
    cases hout
  | succ fuel ih =>
    cases node with
    | leaf es =>
      apply addLeaf_keeps
      exact (SortedList.length_upsert_le es c).trans (Nat.succ_le_succ h.size_le)
    | internal ks cs =>
      intro r nodes hout
      simp only [insertNodeBatched] at hout
      cases hc : cs[findChildIndex ks c.name]? with
      | none => simp [hc] at hout
      | some a =>
        rw [hc] at hout
        obtain ⟨child, hread, hout⟩ := bind_eq_ok.mp hout
        obtain ⟨⟨result, batch⟩, hins, hout⟩ := bind_eq_ok.mp hout
        obtain ⟨⟨result', added⟩, hadd, hout⟩ := bind_eq_ok.mp hout
        cases hout
        have hchild := (h.subtrees_bounded a (mem_of_getElem? hc)).readNode_small hread
        have hsmall : Small hs (storeAll hs e batch) (.internal ks cs) :=
          ⟨h.size_le, fun c hc => (h.subtrees_bounded c hc).storeAll batch⟩
        rw [storeAll_append]
        exact addInternal_keeps hsmall (ih hchild result batch hins) result' added hadd

lemma newRoot_bounded {batch nodes : NodeBatch H} {root : H × BTreeNode H}
    (h : ∀ a ∈ r.children, Bounded hs (storeAll hs e batch) a) (hroot : newRoot hs (r, batch) = .ok (root, nodes)) :
    Bounded hs (storeAll hs e nodes) root.1 := by
  cases r with
  | done x data =>
    cases hroot
    exact h _ (by simp [children])
  | split left key right =>
    obtain ⟨data, hser, hroot⟩ := bind_eq_ok.mp hroot
    cases hroot
    rw [storeAll_append]
    exact bounded_of_small hser ⟨by simp [size, capacity, maxInternalKeys], h⟩ (by simp)

variable {e' : Engine H}

lemma btreeInsertWithData_bounded {data : BTreeNode H} {out : H × BTreeNode H} (h : Small hs e data)
    (hout : btreeInsertWithData hs data c e = .ok out e') : Bounded hs e' out.1 := by
  obtain ⟨root, ⟨result, batch⟩, nodes, hdeser, hins, hroot, rfl⟩ := btreeInsertWithData_iff.mp hout
  exact newRoot_bounded (insertNodeBatched_keeps (small_of_deserialize hdeser h) result batch hins) hroot

def Remains (hs : Hasher H) (e : Engine H) (r : Option H) (e' : Engine H) : Prop :=
  ∃ nodes, e' = storeAll hs e nodes ∧ ∀ a ∈ r, Bounded hs e' a

variable {r : Option H}

lemma storeBtreeNode_remains (h : Small hs e node)
    (hout : (some <$> storeBtreeNode hs node) e = .ok r e') : Remains hs e r e' := by
  obtain ⟨x, t, hstore, hr⟩ := estate_bind_eq_ok.mp hout
  obtain ⟨rfl, rfl⟩ := estate_pure_eq_ok.mp hr
  obtain ⟨data, hser, rfl, rfl⟩ := storeBtreeNode_iff.mp hstore
  refine ⟨[data], rfl, ?_⟩
  rintro _ ⟨⟩
  exact bounded_of_small hser h (mem_singleton.mpr rfl)

lemma Remains.after (nodes : List (BTreeNode H)) (h : Remains hs (storeAll hs e nodes) r e') : Remains hs e r e' := by
  obtain ⟨nodes', rfl, h⟩ := h
  exact ⟨nodes ++ nodes', (storeAll_append hs e nodes nodes').symm, h⟩

omit [DecidableEq H] in
lemma length_removeKey_le (ks : List Str) (i : ℕ) : (removeKey ks i).length ≤ ks.length := by
  unfold removeKey
  split_ifs
  · exact length_eraseIdx_le ks i
  · exact le_rfl
  · exact length_eraseIdx_le ks (i - 1)

omit [DecidableEq H] in
lemma remove_small (name : Str) (h : Small hs e (.leaf es)) :
    Small hs e (.leaf (SortedList.remove ChildEntry.name es name)) :=
  ⟨(SortedList.length_remove_le es name).trans h.size_le, by simp [subtrees]⟩

lemma remains_dropped (hks : ks.length ≤ maxInternalKeys) : (∀ a ∈ cs, Bounded hs e a) → (match cs with
      | [] => pure none
      | [c] => pure (some c)
      | cs => some <$> storeBtreeNode hs (.internal ks cs) : EngineM H (Option H)) e = .ok r e' → Remains hs e r e' := by
  intro hcs hout
  have hsmall : Small hs e (.internal ks cs) := ⟨hks, hcs⟩
  rcases cs with _ | ⟨c, _ | ⟨c', cs⟩⟩
  · obtain ⟨rfl, rfl⟩ := estate_pure_eq_ok.mp hout
    exact ⟨[], rfl, by simp⟩
  · obtain ⟨rfl, rfl⟩ := estate_pure_eq_ok.mp hout
    exact ⟨[], rfl, by simpa using hcs⟩
  · exact storeBtreeNode_remains hsmall hout

lemma deleteFrom_remains (h : Bounded hs e root)
    (hout : deleteFrom hs name fuel root e = .ok r e') : Remains hs e r e' := by
  induction fuel generalizing root r e' with
  | zero => cases hout
  | succ fuel ih =>
    obtain ⟨node, t, hquery, hrest⟩ := estate_bind_eq_ok.mp hout
    obtain ⟨hread, rfl⟩ := EngineM.query_eq_ok.mp hquery
    have hsmall := h.readNode_small hread
    cases node with
    | leaf es =>
      simp only at hrest
      split_ifs at hrest
      · obtain ⟨rfl, rfl⟩ := estate_pure_eq_ok.mp hrest
        exact ⟨[], rfl, by simp⟩
      · exact storeBtreeNode_remains (remove_small name hsmall) hrest
    | internal ks cs =>
      simp only at hrest
      cases hc : cs[findChildIndex ks name]? with
      | none =>
        rw [hc] at hrest
        cases hrest
      | some c =>
        rw [hc] at hrest
        obtain ⟨child, t', hdelete, hend⟩ := estate_bind_eq_ok.mp hrest
        obtain ⟨nodes, rfl, hchild⟩ := ih (hsmall.subtrees_bounded c (mem_of_getElem? hc)) hdelete
        apply Remains.after nodes
        have hcs : ∀ a ∈ cs, Bounded hs (storeAll hs t nodes) a := fun a ha => (hsmall.subtrees_bounded a ha).storeAll nodes
        cases child with
        | some c' =>
          have hset : Small hs (storeAll hs t nodes) (.internal ks (cs.set (findChildIndex ks name) c')) := by
            refine ⟨hsmall.size_le, fun a ha => ?_⟩
            rcases mem_or_eq_of_mem_set ha with ha | rfl
            · exact hcs a ha
            · exact hchild a rfl
          exact storeBtreeNode_remains hset hend
        | none =>
          have herase : ∀ a ∈ cs.eraseIdx (findChildIndex ks name), Bounded hs (storeAll hs t nodes) a := fun a ha =>
            hcs a (mem_of_mem_eraseIdx ha)
          exact remains_dropped ((length_removeKey_le ks _).trans hsmall.size_le) herase hend

lemma btreeDelete_bounded (h : Bounded hs e root)
    (hout : btreeDelete hs root name e = .ok r e') : ∀ a ∈ r, Bounded hs e' a := by
  obtain ⟨fuel, t, hquery, hdelete⟩ := estate_bind_eq_ok.mp hout
  obtain ⟨_, rfl⟩ := EngineM.query_eq_ok.mp hquery
  obtain ⟨_, _, hr⟩ := deleteFrom_remains h hdelete
  exact hr

end AeorDb.BTree
