import AeorDb.Dir.Frames
import AeorDb.BTree.NodeStore

/-! Properties of every stored directory entry, kept by everything that rewrites directories. -/

namespace AeorDb.Dir

open Store BTree Library Trace Result List EngineM

variable {H : Type} {hs : Hasher H}

def nodeEntries : BTreeNode H → List (ChildEntry H)
  | .leaf es => es
  | .internal _ _ => []

def entriesOf : Value H → List (ChildEntry H)
  | .dir (.flat es) => es
  | .dir (.node n) => nodeEntries n
  | _ => []

structure EntryInvariant (hs : Hasher H) (Q : ChildEntry H → Prop) (G : H → Value H → Prop) : Prop where
  stored : ∀ c, Q c → Q c.stored
  flat : ∀ es, (∀ c ∈ es, Q c) → G (hs.directoryContentHash (.flat es)) (.dir (.flat es))
  node : ∀ n, (∀ c ∈ nodeEntries n, Q c) → G (hs.btreeHash n) (.dir (.node n))
  entries : ∀ k v, G k v → ∀ c ∈ entriesOf v, Q c

variable {Q : ChildEntry H → Prop} {G : H → Value H → Prop} {e : Engine H}

section

lemma entries_deserialize {n node : BTreeNode H} (h : deserialize n = .ok node) (hn : ∀ c ∈ nodeEntries n, Q c) :
    ∀ c ∈ nodeEntries node, Q c := by
  cases n with
  | leaf es =>
    cases h
    intro c hc
    change c ∈ if es.length % 65536 = 0 then [] else es at hc
    split_ifs at hc
    · cases hc
    · exact hn c hc
  | internal ks cs =>
    rw [deserialize] at h
    split_ifs at h
    cases h
    simp [nodeEntries]

variable (hI : EntryInvariant hs Q G) (he : e.Sound G)

include hI he

variable {h : H} {path : Str}

lemma entries_readNode {missing : String} {node : BTreeNode H} (hr : readNode e false h missing = .ok node) :
    ∀ c ∈ nodeEntries node, Q c := by
  unfold readNode fetch at hr
  cases hget : e.get h with
  | none => simp [hget] at hr
  | some v =>
    simp only [hget, Bool.false_eq_true, if_false] at hr
    unfold nodeOfValue at hr
    split at hr
    · exact entries_deserialize hr (hI.entries h _ (he h _ hget))
    · cases hr
    · cases hr

variable {es : List (ChildEntry H)} {k : H}

lemma entries_listFrom {fuel : ℕ} (hl : listFrom e false fuel h = .ok es) : ∀ c ∈ es, Q c := by
  induction fuel generalizing h es with
  | zero => cases hl
  | succ fuel ih =>
    obtain ⟨node, hnode, hl⟩ := bind_eq_ok.mp hl
    have hentries := entries_readNode hI he hnode
    cases node with
    | leaf es' =>
      cases hl
      exact hentries
    | internal ks cs =>
      obtain ⟨ess, hess, rfl⟩ := map_eq_ok.mp hl
      intro c hc
      obtain ⟨es', hes', hc⟩ := mem_flatten.mp hc
      obtain ⟨h', _, hh'⟩ := mapM_ok_mem_right hess es' hes'
      exact ih hh' c hc

variable {v : Value H}

lemma entries_childrenOf (hv : ∀ c ∈ entriesOf v, Q c) (hl : childrenOf e v = .ok es) : ∀ c ∈ es, Q c := by
  unfold childrenOf at hl
  split at hl
  · cases hl
    exact hv
  · obtain ⟨node, hnode, hl⟩ := bind_eq_ok.mp hl
    have hentries := entries_deserialize hnode hv
    cases node with
    | leaf es' =>
      cases hl
      exact hentries
    | internal ks cs =>
      obtain ⟨ess, hess, rfl⟩ := map_eq_ok.mp hl
      intro c hc
      obtain ⟨es', hes', hc⟩ := mem_flatten.mp hc
      obtain ⟨h', _, hh'⟩ := mapM_ok_mem_right hess es' hes'
      exact entries_listFrom hI he hh' c hc
  · cases hl

lemma entries_get (hget : e.get k = some v) : ∀ c ∈ entriesOf v, Q c := hI.entries k v (he k v hget)

lemma entries_readDirectoryData (h : readDirectoryData e k = some v) : ∀ c ∈ entriesOf v, Q c := by
  unfold readDirectoryData at h
  split at h
  · exact entries_get hI he h
  · exact entries_get hI he h

variable [DecidableEq H]

lemma entries_recover (h : recoverDirectoryDataIfStale e path k = .ok (some v)) : ∀ c ∈ entriesOf v, Q c := by
  unfold recoverDirectoryDataIfStale at h
  split at h
  · obtain ⟨o, _, h⟩ := bind_eq_ok.mp h
    split at h
    · cases h
    · split_ifs at h
      · cases h
      · exact entries_get hI he (Except.ok.inj h)
  · cases h

lemma entries_existingData (h : existingData hs e path = .ok (some v)) : ∀ c ∈ entriesOf v, Q c := by
  obtain ⟨o, ho, h⟩ := bind_eq_ok.mp h
  cases o with
  | some w =>
    cases h
    exact entries_recover hI he ho
  | none => exact entries_readDirectoryData hI he (Except.ok.inj h)

end

section

variable (hI : EntryInvariant hs Q G)

include hI

lemma entries_serialize {node data : BTreeNode H} (h : BTree.serialize node = .ok data) (hn : ∀ c ∈ nodeEntries node, Q c) :
    ∀ c ∈ nodeEntries data, Q c := by
  cases node with
  | leaf es =>
    obtain ⟨rfl, _⟩ := serialize_leaf_ok h
    intro c hc
    obtain ⟨x, hx, rfl⟩ := mem_map.mp hc
    exact hI.stored x (hn x hx)
  | internal ks cs =>
    rw [BTree.serialize] at h
    split at h
    · cases h
    · cases h
      simp [nodeEntries]

variable {out : InsertResult H × NodeBatch H} {node : BTreeNode H}

lemma entries_addNode (h : addNode hs node = .ok out) (hn : ∀ c ∈ nodeEntries node, Q c) :
    ∀ n ∈ out.2, ∀ c ∈ nodeEntries n, Q c := by
  obtain ⟨data, hdata, h⟩ := bind_eq_ok.mp h
  cases h
  simpa using entries_serialize hI hdata hn

lemma entries_addHalves {left right : BTreeNode H} {key : Str} (h : addHalves hs left key right = .ok out)
    (hl : ∀ c ∈ nodeEntries left, Q c) (hr : ∀ c ∈ nodeEntries right, Q c) : ∀ n ∈ out.2, ∀ c ∈ nodeEntries n, Q c := by
  obtain ⟨ldata, hldata, h⟩ := bind_eq_ok.mp h
  obtain ⟨rdata, hrdata, h⟩ := bind_eq_ok.mp h
  cases h
  simpa using ⟨entries_serialize hI hldata hl, entries_serialize hI hrdata hr⟩

lemma entries_addLeaf {es : List (ChildEntry H)} (h : addLeaf hs es = .ok out) (hes : ∀ c ∈ es, Q c) :
    ∀ n ∈ out.2, ∀ c ∈ nodeEntries n, Q c := by
  unfold addLeaf at h
  split_ifs at h
  · exact entries_addHalves hI h (fun c hc => hes c (mem_of_mem_take hc)) fun c hc => hes c (mem_of_mem_drop hc)
  · exact entries_addNode hI h hes

lemma entries_addInternal {ks : List Str} {cs : List H} {i : ℕ} {r : InsertResult H}
    (h : addInternal hs ks cs i r = .ok out) : ∀ n ∈ out.2, ∀ c ∈ nodeEntries n, Q c := by
  cases r with
  | done h' data => exact entries_addNode hI h (by simp [nodeEntries])
  | split left key right =>
    rw [addInternal] at h
    dsimp only at h
    split_ifs at h
    · exact entries_addHalves hI h (by simp [nodeEntries]) (by simp [nodeEntries])
    · exact entries_addNode hI h (by simp [nodeEntries])

lemma entries_insertNodeBatched (he : e.Sound G) {c : ChildEntry H} (hc : Q c) {fuel : ℕ}
    (h : insertNodeBatched hs e c fuel node = .ok out) (hn : ∀ x ∈ nodeEntries node, Q x) : ∀ n ∈ out.2, ∀ x ∈ nodeEntries n, Q x := by
  induction fuel generalizing node out with
  | zero => cases h
  | succ fuel ih =>
    cases node with
    | leaf es =>
      refine entries_addLeaf hI h fun x hx => ?_
      rcases SortedList.eq_or_mem_of_mem_upsert hx with rfl | hx
      · exact hc
      · exact hn x hx
    | internal ks cs =>
      rw [insertNodeBatched] at h
      dsimp only at h
      split at h
      · cases h
      · obtain ⟨child, hchild, h₁⟩ := bind_eq_ok.mp h
        obtain ⟨out₁, hout₁, h₂⟩ := bind_eq_ok.mp h₁
        obtain ⟨out₂, hout₂, h₃⟩ := bind_eq_ok.mp h₂
        cases h₃
        intro n hmem
        rcases mem_append.mp hmem with hmem | hmem
        · exact ih hout₁ (entries_readNode hI he hchild) n hmem
        · exact entries_addInternal hI hout₂ n hmem

lemma entries_newRoot {root : (H × BTreeNode H) × NodeBatch H} (h : newRoot hs out = .ok root)
    (hout : ∀ n ∈ out.2, ∀ c ∈ nodeEntries n, Q c) : ∀ n ∈ root.2, ∀ c ∈ nodeEntries n, Q c := by
  obtain ⟨r, batch⟩ := out
  cases r with
  | done h' data =>
    cases h
    exact hout
  | split left key right =>
    obtain ⟨data, hdata, h⟩ := bind_eq_ok.mp h
    cases h
    intro n hn
    rcases mem_append.mp hn with hn | hn
    · exact hout n hn
    · rw [mem_singleton.mp hn]
      exact entries_serialize hI hdata (by simp [nodeEntries])

end

variable [DecidableEq H] (hI : EntryInvariant hs Q G)

include hI

variable {c : ChildEntry H}

lemma maintains_btreeInsertBatched {n : BTreeNode H} (hn : ∀ x ∈ nodeEntries n, Q x) (hc : Q c) :
    Maintains (Engine.Sound G) (btreeInsertBatched hs n c) fun _ => True := by
  refine .bind (R := fun out => ∀ n ∈ out.2, ∀ x ∈ nodeEntries n, Q x) (maintains_query ?_) fun out hout => ?_
  · intro e he out h
    obtain ⟨root, hroot, h₁⟩ := bind_eq_ok.mp h
    obtain ⟨ins, hins, h₂⟩ := bind_eq_ok.mp h₁
    exact entries_newRoot hI h₂ (entries_insertNodeBatched hI he hc hins (entries_deserialize hroot hn))
  · refine .bind (maintains_flush fun w hw => ?_) fun _ _ => .pure trivial
    obtain ⟨data, hdata, rfl⟩ := mem_map.mp hw
    exact hI.node data (hout data hdata)

lemma maintains_storeBtreeNode {node : BTreeNode H} (hn : ∀ x ∈ nodeEntries node, Q x) :
    Maintains (Engine.Sound G) (storeBtreeNode hs node) fun _ => True := by
  refine fun e he => ⟨?_, fun _ _ _ => trivial⟩
  unfold storeBtreeNode
  cases hser : BTree.serialize node with
  | error err => exact he
  | ok data => exact (maintains_store _ (hI.node data (entries_serialize hI hser hn)) e he).1

lemma maintains_storeNodes {nodes : List (BTreeNode H)} (hn : ∀ node ∈ nodes, ∀ x ∈ nodeEntries node, Q x) :
    Maintains (Engine.Sound G) (storeNodes hs nodes) fun _ => True := by
  induction nodes with
  | nil => exact .pure trivial
  | cons node nodes ih =>
    obtain ⟨hnode, hnodes⟩ := forall_mem_cons.mp hn
    exact .bind (maintains_storeBtreeNode hI hnode) fun _ _ => .bind (ih hnodes) fun _ _ => .pure trivial

lemma maintains_buildInternalLevel (fuel : ℕ) (children : List H) (keys : List Str) :
    Maintains (Engine.Sound G) (buildInternalLevel hs fuel children keys) fun _ => True := by
  induction fuel generalizing children keys with
  | zero => exact .throw _
  | succ fuel ih =>
    unfold buildInternalLevel
    split
    · exact .pure trivial
    · refine .bind (maintains_storeNodes hI fun node hnode => ?_) fun newChildren _ => ?_
      · obtain ⟨i, _, rfl⟩ := mem_map.mp hnode
        simp [internalGroup, nodeEntries]
      · split
        · exact .pure trivial
        · exact ih _ _

variable {es : List (ChildEntry H)}

lemma maintains_btreeFromEntries (hes : ∀ c ∈ es, Q c) : Maintains (Engine.Sound G) (btreeFromEntries hs es) fun _ => True := by
  refine .ite (fun _ => maintains_storeBtreeNode hI (by simp [nodeEntries])) fun _ => ?_
  refine .bind (maintains_storeNodes hI fun node hnode => ?_) fun leafHashes _ => ?_
  · obtain ⟨g, hg, rfl⟩ := mem_map.mp hnode
    intro c hc
    exact hes c ((mem_insertionSort fun a b => a.name ≤ b.name).mp (Grouping.mem_of_mem_groups hg hc))
  · split
    · exact .pure trivial
    · exact maintains_buildInternalLevel hI _ _ _

def GoodBatch (G : H → Value H → Prop) (batch : WriteBatch H) : Prop := ∀ w ∈ batch, G w.2.1 w.2.2

omit [DecidableEq H] in
lemma good_writeFlat {r : Rewritten H} (h : writeFlat hs es = .ok r) (hes : ∀ c ∈ es, Q c) : GoodBatch G r.batch := by
  obtain ⟨es', hser, h⟩ := bind_eq_ok.mp h
  cases h
  intro w hw
  rw [mem_singleton.mp hw]
  refine hI.flat es' fun c hc => ?_
  obtain ⟨x, hx, hxc⟩ := mapM_ok_mem_right hser c hc
  rw [(x.serialize_ok c hxc).2.2]
  exact hI.stored x (hes x hx)

lemma maintains_convertToBtree (hes : ∀ c ∈ es, Q c) : Maintains (Engine.Sound G) (convertToBtree hs es) fun r => GoodBatch G r.batch := by
  refine .bind (maintains_btreeFromEntries hI hes) fun root _ => .bind (R := fun _ => True) (maintains_query ?_) fun v _ => ?_
  · exact fun _ _ _ _ => trivial
  · split
    · exact .pure (by simp [GoodBatch])
    · exact .throw _

omit [DecidableEq H] hI in
lemma mem_upsertChild {c x : ChildEntry H} (h : x ∈ upsertChild es c) : x = c ∨ x ∈ es := by
  induction es with
  | nil => exact Or.inl (mem_singleton.mp h)
  | cons y es ih =>
    unfold upsertChild at h
    split_ifs at h
    · exact (mem_cons.mp h).imp_right (mem_cons_of_mem y)
    · rcases mem_cons.mp h with rfl | h
      · exact Or.inr (mem_cons_self ..)
      · exact (ih h).imp_right (mem_cons_of_mem y)

lemma maintains_rewriteWith {existing : Option (Value H)}
    (hv : ∀ v, existing = some v → ∀ x ∈ entriesOf v, Q x) (hc : Q c) :
    Maintains (Engine.Sound G) (rewriteWith hs existing c) fun r => GoodBatch G r.batch := by
  unfold rewriteWith
  split
  · next n => exact .bind (maintains_btreeInsertBatched hI (hv _ rfl) hc) fun _ _ => .pure (by simp [GoodBatch])
  · next v _ =>
    refine .bind (R := fun es => ∀ x ∈ es, Q x) (maintains_attempt fun es hes => ?_) fun es hes => ?_
    · unfold flatChildren at hes
      split at hes
      · cases hes
        exact hv _ rfl
      · cases hes
    · have hup : ∀ x ∈ upsertChild es c, Q x := fun x hx => by
        rcases mem_upsertChild hx with rfl | hx
        · exact hc
        · exact hes x hx
      exact .ite (fun _ => maintains_convertToBtree hI hup) fun _ =>
        maintains_attempt fun r hr => good_writeFlat hI hr hup
  · exact maintains_attempt fun r hr => good_writeFlat hI hr (by simpa using hc)

end AeorDb.Dir
