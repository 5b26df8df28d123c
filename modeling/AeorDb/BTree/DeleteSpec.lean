import AeorDb.BTree.InsertSpec

/-! Deletion from a stored B-tree takes the entry out and keeps the rest. -/

namespace AeorDb.BTree

open Store Library SearchTree List Result

variable {H : Type} {hs : Hasher H} {e : Engine H} {name : Str}

def without (es : List (ChildEntry H)) (name : Str) : List (ChildEntry H) := es.filter (·.name ≠ name)

lemma remove_eq_without {es : List (ChildEntry H)} (h : SortedList.Sorted ChildEntry.name es) (name : Str) :
    SortedList.remove ChildEntry.name es name = without es name :=
  SortedList.remove_eq_filter h name _ (by simp)

lemma without_focus {es₁ em es₂ : List (ChildEntry H)} (hl : ∀ c ∈ es₁, c.name < name) (hr : ∀ c ∈ es₂, name < c.name) :
    without (es₁ ++ em ++ es₂) name = es₁ ++ without em name ++ es₂ := by
  have h₁ : es₁.filter (·.name ≠ name) = es₁ := filter_eq_self.mpr fun c hc => by simpa using (hl c hc).ne
  have h₂ : es₂.filter (·.name ≠ name) = es₂ := filter_eq_self.mpr fun c hc => by simpa using (hr c hc).ne'
  rw [without, filter_append, filter_append, h₁, h₂, without]

lemma removeKey_right (ks₁ ks : List Str) (k : Str) : removeKey (ks₁ ++ k :: ks) ks₁.length = ks₁ ++ ks := by
  rw [removeKey, if_pos (by simp), eraseIdx_append_of_length_le le_rfl, Nat.sub_self, eraseIdx_cons_zero]

lemma removeKey_left {ks : List Str} (h : ks ≠ []) : removeKey ks ks.length = ks.dropLast := by
  rw [removeKey, if_neg (lt_irrefl _), if_neg h, eraseIdx_length_sub_one]

variable [DecidableEq H]

def Leaves (hs : Hasher H) (e : Engine H) (n : ℕ) (es : List (ChildEntry H)) (out : EStateM.Result EngineError (Engine H) (Option H)) : Prop :=
  ∃ result nodes, out = .ok result (storeAll hs e nodes) ∧
    match result with
    | none => es = []
    | some root => es ≠ [] ∧ Tree hs (storeAll hs e nodes) n root es

variable {es : List (ChildEntry H)} {n : ℕ} {ks : List Str}

lemma leaves_store {node : BTreeNode H} (hfit : Fits node) (hne : es ≠ [])
    (htree : Tree hs (storeAll hs e [node]) n (hs.btreeHash node) es) : Leaves hs e n es ((some <$> storeBtreeNode hs node) e) :=
  ⟨some (hs.btreeHash node), [node], estate_bind_of_ok (storeBtreeNode_fits hs e hfit), hne, htree⟩

lemma Leaves.after {n : ℕ} {nodes : List (BTreeNode H)} {out : EStateM.Result EngineError (Engine H) (Option H)}
    (h : Leaves hs (storeAll hs e nodes) n es out) : Leaves hs e n es out := by
  obtain ⟨result, nodes', rfl, h⟩ := h
  exact ⟨result, nodes ++ nodes', by rw [storeAll_append], by rwa [storeAll_append]⟩

lemma leaves_leaf (h : Tree hs e n (hs.btreeHash (.leaf es)) es) :
    Leaves hs e n (without es name) ((if without es name = [] then pure none else some <$> storeBtreeNode hs (.leaf (without es name))) e) := by
  obtain ⟨_, ⟨_, hlen, henc⟩, hsorted⟩ := h.leaf_inv
  have hsub : (without es name).Sublist es := filter_sublist
  have hfit : Fits (.leaf (without es name)) := ⟨hsub.length_le.trans_lt hlen, fun c hc => henc c (hsub.subset hc)⟩
  split_ifs with hnil
  · exact ⟨none, [], rfl, hnil⟩
  · exact leaves_store hfit hnil (tree_leaf (holds_of_mem (by simp) hfit) (hsorted.sublist hsub))

lemma leaves_dropped {cs : List H} (hkeys : ∀ k ∈ ks, utf8Len k ≤ u16Max) :
    Chain ChildEntry.name (Tree hs e n) ks cs es → Leaves hs e (n + 1) es ((match cs with
      | [] => pure none
      | [c] => pure (some c)
      | cs => some <$> storeBtreeNode hs (.internal ks cs) : EngineM H (Option H)) e) := by
  intro hchain
  have hstore : Leaves hs e (n + 1) es ((some <$> storeBtreeNode hs (.internal ks cs)) e) := by
    have hfit : Fits (.internal ks cs) := hkeys
    exact leaves_store hfit hchain.ne_nil (tree_of_chain hchain hkeys (by simp))
  rcases cs with _ | ⟨c, _ | ⟨c', cs⟩⟩
  · have hlen := hchain.length_eq
    simp at hlen
  · cases hchain with
    | single hc hne => exact ⟨_, [], rfl, hne, Denotes.le hc (by omega)⟩
    | cons _ _ _ _ hrest => cases hrest
  · exact hstore

omit [DecidableEq H] in
lemma Focus.dropped {D : H → List (ChildEntry H) → Prop} {ks₁ ks₂ : List Str} {cs₁ cs₂ : List H} {c : H} {es₁ em es₂ : List (ChildEntry H)}
    (hf : Focus ChildEntry.name D name ks₁ ks₂ cs₁ c cs₂ es₁ em es₂) : (cs₁ ++ cs₂ = [] ∧ es₁ ++ es₂ = []) ∨
      Chain ChildEntry.name D (removeKey (ks₁ ++ ks₂) cs₁.length) (cs₁ ++ cs₂) (es₁ ++ es₂) := by
  rw [hf.length_left]
  rcases ks₂ with _ | ⟨k, ks⟩
  · obtain ⟨rfl, rfl⟩ := hf.right_nil rfl
    by_cases hnil : ks₁ = []
    · have hcs : cs₁ = [] := eq_nil_of_length_eq_zero (by rw [hf.length_left, hnil]; rfl)
      exact Or.inl ⟨by simp [hcs], by simp [hf.left_nil hnil]⟩
    · right
      simpa [removeKey_left hnil] using hf.drop_left rfl hnil
  · right
    rw [removeKey_right]
    exact hf.drop_right k ks rfl

lemma mem_of_mem_removeKey {i : ℕ} {k : Str} (h : k ∈ removeKey ks i) : k ∈ ks := by
  unfold removeKey at h
  split_ifs at h with h₁ h₂
  · exact mem_of_mem_eraseIdx h
  · exact h
  · exact mem_of_mem_eraseIdx h

lemma deleteFrom_leaves {fuel n : ℕ} {root : H} (h : Tree hs e n root es) (hn : n < fuel) :
    Leaves hs e n (without es name) (deleteFrom hs name fuel root e) := by
  induction fuel generalizing n root es with
  | zero => omega
  | succ fuel ih =>
    obtain ⟨node, rfl, _⟩ := h.root_eq
    have hread : EngineM.query (fun e => readNode e false (hs.btreeHash node) "B-tree root not found") e = .ok node e :=
      EngineM.query_eq_ok.mpr ⟨h.readNode_eq _, rfl⟩
    rw [deleteFrom, estate_bind_of_ok hread]
    cases node with
    | leaf es' =>
      obtain ⟨rfl, _, hsorted⟩ := h.leaf_inv
      simp only [remove_eq_without hsorted]
      exact leaves_leaf h
    | internal ks cs =>
      obtain ⟨m, rfl, ⟨_, hkeys⟩, hchain⟩ := h.internal_inv
      have hsorted := hchain.keys_sorted
      obtain ⟨ks₁, ks₂, cs₁, c, cs₂, es₁, em, es₂, rfl, rfl, rfl, hf⟩ := hchain.focus name
      have hidx : findChildIndex (ks₁ ++ ks₂) name = cs₁.length := by
        rw [findChildIndex, hf.childIndex_eq hsorted, hf.length_left]
      have hget : (cs₁ ++ c :: cs₂)[cs₁.length]? = some c := by simp
      obtain ⟨result, nodes, hdelete, hresult⟩ := ih hf.here (by omega)
      rw [without_focus hf.left_lt hf.lt_right]
      simp only [hidx, hget]
      rw [estate_bind_of_ok hdelete]
      apply Leaves.after
      cases result with
      | some c' =>
        obtain ⟨hne, htree⟩ := hresult
        have hin : ∀ y ∈ without em name, (∀ k ∈ ks₁, k ≤ y.name) ∧ ∀ k ∈ ks₂, y.name < k := fun y hy =>
          hf.within y (mem_of_mem_filter hy)
        have hset : (cs₁ ++ c :: cs₂).set cs₁.length c' = cs₁ ++ [c'] ++ cs₂ := by simp
        have hchain' := hf.replace (fun a _ es h => tree_storeAll h) (Chain.single htree hne) hin
        rw [append_nil] at hchain'
        simp only [hset]
        exact leaves_store hkeys hchain'.ne_nil (tree_of_chain hchain' hkeys (by simp))
      | none =>
        have herase : (cs₁ ++ c :: cs₂).eraseIdx cs₁.length = cs₁ ++ cs₂ := by
          rw [eraseIdx_append_of_length_le le_rfl, Nat.sub_self, eraseIdx_cons_zero]
        have hnil : without em name = [] := hresult
        simp only [hnil, append_nil, herase]
        rcases Focus.dropped hf with ⟨hcs, hes⟩ | hdrop
        · rw [hcs, hes]
          exact ⟨none, [], rfl, rfl⟩
        · have hdrop' : Chain ChildEntry.name (Tree hs (storeAll hs e nodes) m) _ _ _ := hdrop.mono fun _ _ _ => tree_storeAll
          exact leaves_dropped (fun k hk => hkeys k (mem_of_mem_removeKey hk)) hdrop'

lemma btreeDelete_leaves {root : H} (h : Tree hs e n root es) (name : Str) :
    Leaves hs e n (without es name) (btreeDelete hs root name e) := by
  obtain ⟨m, hm, hmn, ht⟩ := h.height_le
  obtain ⟨result, nodes, hdelete, hresult⟩ : Leaves hs e m (without es name) (btreeDelete hs root name e) := by
    have hfuel : EngineM.query (fun e : Engine H => .ok e.log.length) e = .ok e.log.length e := EngineM.query_eq_ok.mpr ⟨rfl, rfl⟩
    rw [btreeDelete, estate_bind_of_ok hfuel]
    exact deleteFrom_leaves ht hm
  refine ⟨result, nodes, hdelete, ?_⟩
  cases result with
  | none => exact hresult
  | some root => exact ⟨hresult.1, Denotes.le hresult.2 hmn⟩

end AeorDb.BTree
