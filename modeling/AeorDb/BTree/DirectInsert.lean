import AeorDb.BTree.InsertSpec
import AeorDb.Store.Digest

/-! Insertion that writes its nodes one by one instead of in a batch. -/

namespace AeorDb.BTree

open Store Library Result EngineM Digest Except

variable {H : Type} (hs : Hasher H) [DecidableEq H]

def writeNode (node : BTreeNode H) : EngineM H (InsertResult H) := do
  let data ← attempt (serialize node)
  let hash ← storeBtreeNode hs node
  pure (.done hash data)

def writeHalves (left : BTreeNode H) (key : Str) (right : BTreeNode H) : EngineM H (InsertResult H) := do
  let leftHash ← storeBtreeNode hs left
  let rightHash ← storeBtreeNode hs right
  pure (.split leftHash key rightHash)

def writeLeaf (es : List (ChildEntry H)) : EngineM H (InsertResult H) :=
  if maxLeafEntries ≤ es.length then
    let (left, key, right) := leafSplit es
    writeHalves hs (.leaf left) key (.leaf right)
  else writeNode hs (.leaf es)

def writeInternal (ks : List Str) (cs : List H) (i : ℕ) : InsertResult H → EngineM H (InsertResult H)
  | .done h _ => writeNode hs (.internal ks (cs.set i h))
  | .split left key right =>
    let (ks, cs) := insertKey ks (cs.set i left) key right
    if maxInternalKeys ≤ ks.length then
      let (l, key, r) := internalSplit ks cs
      writeHalves hs (.internal l.1 l.2) key (.internal r.1 r.2)
    else writeNode hs (.internal ks cs)

def insertNode (entry : ChildEntry H) : ℕ → BTreeNode H → EngineM H (InsertResult H)
  | 0, _ => throw outOfFuel
  | _ + 1, .leaf es => writeLeaf hs (SortedList.upsert ChildEntry.name es entry)
  | fuel + 1, .internal ks cs =>
    let i := findChildIndex ks entry.name
    match cs[i]? with
    | none => throw (.ioError "index out of bounds")
    | some c => do
      let child ← query fun e => readNode e false c "B-tree child not found"
      let result ← insertNode entry fuel child
      writeInternal hs ks cs i result

def btreeInsertWithData (rootData : BTreeNode H) (entry : ChildEntry H) : EngineM H (H × BTreeNode H) := do
  let root ← attempt (deserialize rootData)
  let fuel ← query fun e => .ok (e.log.length + 1)
  match ← insertNode hs entry fuel root with
  | .done hash data => pure (hash, data)
  | .split left key right => do
    let data ← attempt (serialize (.internal [key] [left, right]))
    let hash ← storeBtreeNode hs (.internal [key] [left, right])
    pure (hash, data)

def rootData (e : Engine H) (root : H) : EngineResult (BTreeNode H) :=
  match e.get root with
  | none => .error (.notFound "B-tree root not found")
  | some (.dir (.node data)) => .ok data
  | some value => nodeOfValue value

def btreeInsert (root : H) (entry : ChildEntry H) : EngineM H H := do
  let data ← query (rootData · root)
  let (hash, _) ← btreeInsertWithData hs data entry
  pure hash

section

variable {hs}

def Writes (hs : Hasher H) (write : EngineM H (InsertResult H)) (out : Engine H → EngineResult (InsertResult H × NodeBatch H)) : Prop :=
  ∀ e e' r, write e = .ok r e' ↔ ∃ nodes, out e = .ok (r, nodes) ∧ e' = storeAll hs e nodes

variable {e e' : Engine H} {node : BTreeNode H} {out : H × BTreeNode H}

lemma storeBtreeNode_iff {h : H} :
    storeBtreeNode hs node e = .ok h e' ↔ ∃ data, serialize node = .ok data ∧ h = hs.btreeHash data ∧ e' = storeData hs e data := by
  rw [storeBtreeNode_ok, Serializable]
  constructor
  · rintro ⟨hser, hh, he⟩
    exact ⟨_, hser, hh, he⟩
  · rintro ⟨data, hser, hh, he⟩
    rw [serialize_ok hser]
    exact ⟨hser, hh, he⟩

lemma writeNode_writes (node : BTreeNode H) : Writes hs (writeNode hs node) fun _ => addNode hs node := by
  intro e e' r
  rw [writeNode, estate_bind_eq_ok]
  constructor
  · rintro ⟨data, t, hdata, h⟩
    obtain ⟨hser, rfl⟩ := query_eq_ok.mp hdata
    obtain ⟨hash, t', hstore, h⟩ := estate_bind_eq_ok.mp h
    obtain ⟨data', hser', rfl, rfl⟩ := storeBtreeNode_iff.mp hstore
    obtain rfl : data = data' := ok.inj (hser.symm.trans hser')
    obtain ⟨rfl, rfl⟩ := estate_pure_eq_ok.mp h
    exact ⟨[data], by rw [addNode, hser]; rfl, rfl⟩
  · rintro ⟨nodes, h, rfl⟩
    obtain ⟨data, hser, h⟩ := bind_eq_ok.mp h
    cases h
    refine ⟨data, e, query_eq_ok.mpr ⟨hser, rfl⟩, ?_⟩
    exact estate_bind_eq_ok.mpr ⟨_, _, storeBtreeNode_iff.mpr ⟨data, hser, rfl, rfl⟩, rfl⟩

lemma writeHalves_writes (left : BTreeNode H) (key : Str) (right : BTreeNode H) :
    Writes hs (writeHalves hs left key right) fun _ => addHalves hs left key right := by
  intro e e' r
  rw [writeHalves, estate_bind_eq_ok]
  constructor
  · rintro ⟨l, t, hleft, h⟩
    obtain ⟨r', t', hright, h⟩ := estate_bind_eq_ok.mp h
    obtain ⟨leftData, hleftSer, rfl, rfl⟩ := storeBtreeNode_iff.mp hleft
    obtain ⟨rightData, hrightSer, rfl, rfl⟩ := storeBtreeNode_iff.mp hright
    obtain ⟨rfl, rfl⟩ := estate_pure_eq_ok.mp h
    exact ⟨[leftData, rightData], by rw [addHalves, hleftSer, hrightSer]; rfl, rfl⟩
  · rintro ⟨nodes, h, rfl⟩
    obtain ⟨leftData, hleftSer, h⟩ := bind_eq_ok.mp h
    obtain ⟨rightData, hrightSer, h⟩ := bind_eq_ok.mp h
    cases h
    refine ⟨_, _, storeBtreeNode_iff.mpr ⟨leftData, hleftSer, rfl, rfl⟩, ?_⟩
    exact estate_bind_eq_ok.mpr ⟨_, _, storeBtreeNode_iff.mpr ⟨rightData, hrightSer, rfl, rfl⟩, rfl⟩

lemma writeLeaf_writes (es : List (ChildEntry H)) : Writes hs (writeLeaf hs es) fun _ => addLeaf hs es := by
  rw [writeLeaf, addLeaf]
  split_ifs
  · apply writeHalves_writes
  · apply writeNode_writes

lemma writeInternal_writes (ks : List Str) (cs : List H) (i : ℕ) (r : InsertResult H) :
    Writes hs (writeInternal hs ks cs i r) fun _ => addInternal hs ks cs i r := by
  cases r with
  | done h data => exact writeNode_writes _
  | split left key right =>
    simp only [writeInternal, addInternal]
    split_ifs
    · apply writeHalves_writes
    · apply writeNode_writes

lemma insertNode_writes (entry : ChildEntry H) (fuel : ℕ) (node : BTreeNode H) :
    Writes hs (insertNode hs entry fuel node) fun e => insertNodeBatched hs e entry fuel node := by
  induction fuel generalizing node with
  | zero =>
    intro e e' r
    simp [insertNode, insertNodeBatched, throw, throwThe, MonadExceptOf.throw, EStateM.throw]
  | succ fuel ih =>
    cases node with
    | leaf es => exact writeLeaf_writes _
    | internal ks cs =>
      intro e e' r
      cases hc : cs[findChildIndex ks entry.name]? with
      | none => simp [insertNode, insertNodeBatched, throw, throwThe, MonadExceptOf.throw, EStateM.throw, hc]
      | some c =>
        simp only [insertNode, insertNodeBatched, hc]
        constructor
        · intro h
          obtain ⟨child, t, hchild, hrest⟩ := estate_bind_eq_ok.mp h
          obtain ⟨hread, rfl⟩ := query_eq_ok.mp hchild
          obtain ⟨result, t', hinsert, hwrite⟩ := estate_bind_eq_ok.mp hrest
          obtain ⟨batch, hbatch, rfl⟩ := (ih child t t' result).mp hinsert
          obtain ⟨nodes, hnodes, rfl⟩ := (writeInternal_writes ks cs _ result _ _ _).mp hwrite
          refine ⟨batch ++ nodes, ?_, (storeAll_append hs t batch nodes).symm⟩
          simp only [hread, hbatch, hnodes, bind, Except.bind]
        · rintro ⟨all, h, rfl⟩
          obtain ⟨child, hread, h⟩ := bind_eq_ok.mp h
          obtain ⟨⟨result, batch⟩, hbatch, h⟩ := bind_eq_ok.mp h
          obtain ⟨⟨result', nodes⟩, hnodes, h⟩ := bind_eq_ok.mp h
          cases h
          refine estate_bind_eq_ok.mpr ⟨child, e, query_eq_ok.mpr ⟨hread, rfl⟩, ?_⟩
          refine estate_bind_eq_ok.mpr ⟨result, _, (ih child e _ result).mpr ⟨batch, hbatch, rfl⟩, ?_⟩
          exact (writeInternal_writes ks cs _ result _ _ _).mpr ⟨nodes, hnodes, storeAll_append hs e batch nodes⟩

lemma btreeInsertWithData_iff {rootData : BTreeNode H} {entry : ChildEntry H} :
    btreeInsertWithData hs rootData entry e = .ok out e' ↔ ∃ root result nodes, deserialize rootData = .ok root ∧
      insertNodeBatched hs e entry (e.log.length + 1) root = .ok result ∧ newRoot hs result = .ok (out, nodes) ∧ e' = storeAll hs e nodes := by
  constructor
  · intro h
    obtain ⟨root, t, hroot, hrest⟩ := estate_bind_eq_ok.mp h
    obtain ⟨hdeser, rfl⟩ := query_eq_ok.mp hroot
    obtain ⟨fuel, t', hquery, hrun⟩ := estate_bind_eq_ok.mp hrest
    obtain ⟨hfuel, rfl⟩ := query_eq_ok.mp hquery
    obtain rfl : t'.log.length + 1 = fuel := ok.inj hfuel
    obtain ⟨result, t, hinsert, hend⟩ := estate_bind_eq_ok.mp hrun
    obtain ⟨batch, hbatch, rfl⟩ := (insertNode_writes entry _ root _ _ _).mp hinsert
    cases result with
    | done hash data =>
      obtain ⟨rfl, rfl⟩ := estate_pure_eq_ok.mp hend
      exact ⟨root, _, batch, hdeser, hbatch, rfl, rfl⟩
    | split left key right =>
      obtain ⟨data, t, hdata, hnew⟩ := estate_bind_eq_ok.mp hend
      obtain ⟨hser, rfl⟩ := query_eq_ok.mp hdata
      obtain ⟨hash, t'', hstore, hout⟩ := estate_bind_eq_ok.mp hnew
      obtain ⟨data', hser', rfl, rfl⟩ := storeBtreeNode_iff.mp hstore
      obtain rfl : data = data' := ok.inj (hser.symm.trans hser')
      obtain ⟨rfl, rfl⟩ := estate_pure_eq_ok.mp hout
      refine ⟨root, _, batch ++ [data], hdeser, hbatch, ?_, (storeAll_append hs t' batch [data]).symm⟩
      simp only [newRoot, hser, bind, Except.bind]
  · rintro ⟨root, ⟨result, batch⟩, nodes, hdeser, hbatch, hroot, rfl⟩
    refine estate_bind_eq_ok.mpr ⟨root, e, query_eq_ok.mpr ⟨hdeser, rfl⟩, ?_⟩
    refine estate_bind_eq_ok.mpr ⟨e.log.length + 1, e, query_eq_ok.mpr ⟨rfl, rfl⟩, ?_⟩
    refine estate_bind_eq_ok.mpr ⟨result, _, (insertNode_writes entry _ root _ _ _).mpr ⟨batch, hbatch, rfl⟩, ?_⟩
    cases result with
    | done hash data =>
      cases hroot
      rfl
    | split left key right =>
      obtain ⟨data, hser, h⟩ := bind_eq_ok.mp hroot
      cases h
      refine estate_bind_eq_ok.mpr ⟨data, _, query_eq_ok.mpr ⟨hser, rfl⟩, ?_⟩
      refine estate_bind_eq_ok.mpr ⟨_, _, storeBtreeNode_iff.mpr ⟨data, hser, rfl, rfl⟩, ?_⟩
      rw [storeAll_append]
      rfl

variable {c : ChildEntry H}

lemma btreeInsertWithData_spec {e : Engine H} {n : ℕ} {es : List (ChildEntry H)}
    (h : Tree hs e n (hs.btreeHash node) es) (hw : Writable c) :
    ∃ data nodes, btreeInsertWithData hs node c e = .ok (hs.btreeHash data, data) (storeAll hs e nodes) ∧
      Tree hs (storeAll hs e nodes) (n + 1) (hs.btreeHash data) (SortedList.updated ChildEntry.name es c.stored) := by
  obtain ⟨result, data, nodes, hins, hroot, htree⟩ := insertNodeBatched_newRoot h hw
  exact ⟨data, nodes, btreeInsertWithData_iff.mpr ⟨node, result, nodes, h.deserialize_eq, hins, hroot, rfl⟩, htree⟩

lemma btreeInsertWithData_nil (hs : Hasher H) (e : Engine H) (hw : Writable c) :
    ∃ data nodes, btreeInsertWithData hs (.leaf []) c e = .ok (hs.btreeHash data, data) (storeAll hs e nodes) ∧
      Tree hs (storeAll hs e nodes) 1 (hs.btreeHash data) [c.stored] := by
  have hyields : Yields hs e 0 [c.stored] (addLeaf hs [c]) := by
    have hone : ∀ x ∈ [c], Writable x := fun x hx => by rwa [List.mem_singleton.mp hx]
    exact addLeaf_yields 0 (List.pairwise_singleton _ c) (by simp) hone (by simp)
  obtain ⟨r, batch, hins, hr⟩ := hyields
  obtain ⟨data, nodes, hroot, htree⟩ := newRoot_tree hr
  exact ⟨data, nodes, btreeInsertWithData_iff.mpr ⟨.leaf [], _, nodes, rfl, hins, hroot, rfl⟩, htree⟩

lemma btreeInsert_iff {root : H} {out : H} {data : BTreeNode H} (h : e.get root = some (.dir (.node data))) :
    btreeInsert hs root c e = .ok out e' ↔ ∃ data', btreeInsertWithData hs data c e = .ok (out, data') e' := by
  have hread : query (rootData · root) e = .ok data e := by
    refine query_eq_ok.mpr ⟨?_, rfl⟩
    simp only [rootData, h]
  rw [btreeInsert, estate_bind_of_ok hread, estate_bind_eq_ok]
  constructor
  · rintro ⟨⟨hash, data'⟩, t, hins, hend⟩
    obtain ⟨rfl, rfl⟩ := estate_pure_eq_ok.mp hend
    exact ⟨data', hins⟩
  · rintro ⟨data', hins⟩
    exact ⟨_, _, hins, rfl⟩

lemma writable_of_btreeInsertWithData
    (h : btreeInsertWithData hs node c e = .ok out e') : Writable c := by
  obtain ⟨root, result, nodes, _, hins, _, _⟩ := btreeInsertWithData_iff.mp h
  exact writable_of_insertNodeBatched hins

end

def insertEach (insert : BTreeNode H → ChildEntry H → EngineM H (H × BTreeNode H)) :
    H × BTreeNode H → List (ChildEntry H) → EngineM H (H × BTreeNode H)
  | root, [] => pure root
  | root, c :: cs => do
    let root ← insert root.2 c
    insertEach insert root cs

variable {hs} {e e' : Engine H} {root out : H × BTreeNode H} {cs : List (ChildEntry H)}

omit [DecidableEq H] in
lemma insertEach_cons_eq_ok {insert : BTreeNode H → ChildEntry H → EngineM H (H × BTreeNode H)} {c : ChildEntry H} :
    insertEach insert root (c :: cs) e = .ok out e' ↔
      ∃ next t, insert root.2 c e = .ok next t ∧ insertEach insert next cs t = .ok out e' :=
  estate_bind_eq_ok

lemma insertEach_batched_iff : insertEach (btreeInsertBatched hs) root cs e = .ok out e' ↔
    insertEach (btreeInsertWithData hs) root cs e = .ok out e' := by
  induction cs generalizing root e with
  | nil => rfl
  | cons c cs ih => simp only [insertEach_cons_eq_ok, btreeInsertBatched_iff, btreeInsertWithData_iff, ih]

lemma insertEach_tree {n : ℕ} {node : BTreeNode H} {es : List (ChildEntry H)} (h : Tree hs e n (hs.btreeHash node) es)
    (hw : ∀ c ∈ cs, Writable c) : ∃ data e', insertEach (btreeInsertWithData hs) (hs.btreeHash node, node) cs e = .ok (hs.btreeHash data, data) e' ∧
      Tree hs e' (n + cs.length) (hs.btreeHash data) (cs.foldl (fun es c => SortedList.updated ChildEntry.name es c.stored) es) := by
  induction cs generalizing e n node es with
  | nil => exact ⟨node, e, rfl, h⟩
  | cons c cs ih =>
    obtain ⟨hc, hcs⟩ := List.forall_mem_cons.mp hw
    obtain ⟨data, nodes, hins, htree⟩ := btreeInsertWithData_spec h hc
    obtain ⟨data', e', hrest, htree'⟩ := ih htree hcs
    refine ⟨data', e', insertEach_cons_eq_ok.mpr ⟨_, _, hins, hrest⟩, ?_⟩
    rw [List.length_cons, Nat.add_comm cs.length, ← Nat.add_assoc]
    exact htree'

/-- From a stored tree, batched and direct insertions succeed together, with the same root and the same engine, so with the same nodes under
the root. They do succeed for entries that can be written. -/
theorem insertEach_batched_eq_direct {n : ℕ} {node : BTreeNode H} {es : List (ChildEntry H)} (h : Tree hs e n (hs.btreeHash node) es)
    (cs : List (ChildEntry H)) :
    (∀ out e', insertEach (btreeInsertBatched hs) (hs.btreeHash node, node) cs e = .ok out e' ↔
      insertEach (btreeInsertWithData hs) (hs.btreeHash node, node) cs e = .ok out e') ∧
    ((∀ c ∈ cs, Writable c) → ∃ data e', insertEach (btreeInsertBatched hs) (hs.btreeHash node, node) cs e = .ok (hs.btreeHash data, data) e' ∧
      Tree hs e' (n + cs.length) (hs.btreeHash data) (cs.foldl (fun es c => SortedList.updated ChildEntry.name es c.stored) es)) := by
  refine ⟨fun out e' => insertEach_batched_iff, fun hw => ?_⟩
  obtain ⟨data, e', hrun, htree⟩ := insertEach_tree h hw
  exact ⟨data, e', insertEach_batched_iff.mpr hrun, htree⟩

theorem insertEach_batched_eq_direct_emptyLeaf : ∃ e : Engine Digest, ∃ c : ChildEntry Digest,
    (∀ out e', insertEach (btreeInsertBatched hasher) (hasher.btreeHash (.leaf []), .leaf []) [c, c] e = .ok out e' ↔
      insertEach (btreeInsertWithData hasher) (hasher.btreeHash (.leaf []), .leaf []) [c, c] e = .ok out e') ∧
    ∃ data e', insertEach (btreeInsertBatched hasher) (hasher.btreeHash (.leaf []), .leaf []) [c, c] e =
      .ok (hasher.btreeHash data, data) e' ∧ Tree hasher e' 2 (hasher.btreeHash data) [c.stored] := by
  let e := storeAll hasher (Engine.empty fun _ => 0) [.leaf []]
  let c : ChildEntry Digest := ⟨.fileRecord, hasher.btreeHash (.leaf []), 0, 0, 0, ['a'], none, 0, 0⟩
  have htree : Tree hasher e 0 (hasher.btreeHash (.leaf [])) [] := tree_leaf (holds_of_mem (by simp) ⟨by decide, by simp⟩) .nil
  obtain ⟨hsame, hruns⟩ := insertEach_batched_eq_direct htree [c, c]
  obtain ⟨data, e', hrun, hend⟩ := hruns fun x hx => by
    obtain rfl : x = c := by simpa using hx
    exact ⟨by decide, by decide⟩
  exact ⟨e, c, hsame, data, e', hrun, hend⟩

end AeorDb.BTree
