import AeorDb.BTree.Stored

/-! Writing nodes: what a sequence of node stores leaves in the engine. -/

namespace AeorDb.BTree

open Store Library List Result

variable {H : Type} (hs : Hasher H)

def encoded (node : BTreeNode H) : BTreeNode H :=
  match serialize node with
  | .ok data => data
  | .error _ => node

def Serializable (node : BTreeNode H) : Prop := serialize node = .ok (encoded node)

def Live (e : Engine H) (data : BTreeNode H) : Prop := e.get (hs.btreeHash data) = some (.dir (.node data))

lemma serialize_ok {node data : BTreeNode H} (h : serialize node = .ok data) : encoded node = data := by
  simp [encoded, h]

lemma serialize_internal (ks : List Str) (cs : List H) (h : ∀ k ∈ ks, utf8Len k ≤ u16Max) :
    serialize (.internal ks cs) = .ok (.internal ks cs) := by
  have hnone : ks.find? (u16Max < utf8Len ·) = none := find?_eq_none.mpr fun k hk => by simpa using h k hk
  simp [serialize, hnone]

lemma encoded_internal (ks : List Str) (cs : List H) : encoded (.internal ks cs) = .internal ks cs := by
  cases h : ks.find? (u16Max < utf8Len ·) with
  | none => simp [encoded, serialize, h]
  | some k => simp [encoded, serialize, h]

lemma serializeChildEntries_of_encodable (es : List (ChildEntry H)) (h : ∀ c ∈ es, c.Encodable) : serializeChildEntries es = .ok es := by
  refine Result.mapM_eq_ok.mpr (forall₂_same.mpr fun c hc => ?_)
  exact c.serialize_of_encodable (h c hc)

variable {node : BTreeNode H}

lemma serialize_of_fits (h : Fits node) : serialize node = .ok node := by
  cases node with
  | leaf es => simp [serialize, serializeChildEntries_of_encodable es h.2, Except.map]
  | internal ks cs => exact serialize_internal ks cs h

lemma serialize_leaf_ok {es : List (ChildEntry H)} {data : BTreeNode H} (h : serialize (.leaf es) = .ok data) :
    data = .leaf (es.map ChildEntry.stored) ∧
      ∀ c ∈ es, utf8Len c.name ≤ u16Max ∧ utf8Len (c.contentType.getD []) ≤ u16Max := by
  obtain ⟨cs, hcs, rfl⟩ := Result.map_eq_ok.mp h
  refine ⟨?_, fun c hc => ?_⟩
  · rw [mapM_ok_eq_map (fun c d hd => (c.serialize_ok d hd).2.2) hcs]
  · obtain ⟨d, _, hd⟩ := mapM_ok_mem hcs c hc
    exact ⟨(c.serialize_ok d hd).1, (c.serialize_ok d hd).2.1⟩

lemma encoded_of_fits (h : Fits node) : encoded node = node := serialize_ok (serialize_of_fits h)

lemma serializable_of_fits (h : Fits node) : Serializable node := by
  rw [Serializable, encoded_of_fits h, serialize_of_fits h]

variable [DecidableEq H]

def storeData (e : Engine H) (data : BTreeNode H) : Engine H :=
  e.storeEntry .directoryIndex (hs.btreeHash data) (.dir (.node data))

def storeAll (e : Engine H) (datas : List (BTreeNode H)) : Engine H := datas.foldl (storeData hs) e

variable {e e' : Engine H} {nodes : List (BTreeNode H)}

lemma storeBtreeNode_ok {h : H} : storeBtreeNode hs node e = .ok h e' ↔
      Serializable node ∧ h = hs.btreeHash (encoded node) ∧ e' = storeData hs e (encoded node) := by
  unfold storeBtreeNode Serializable
  cases hser : serialize node with
  | error err => simp
  | ok data =>
    rw [serialize_ok hser]
    simp [storeData, eq_comm]

lemma storeNodes_ok {hashes : List H} : storeNodes hs nodes e = .ok hashes e' ↔
      (∀ n ∈ nodes, Serializable n) ∧ hashes = nodes.map (fun n => hs.btreeHash (encoded n)) ∧
        e' = storeAll hs e (nodes.map encoded) := by
  induction nodes generalizing e e' hashes with
  | nil => simp [storeNodes, storeAll, estate_pure_eq_ok, eq_comm]
  | cons node nodes ih =>
    simp only [storeNodes, estate_bind_eq_ok, estate_pure_eq_ok, storeBtreeNode_ok, ih]
    constructor
    · rintro ⟨_, _, ⟨hser, rfl, rfl⟩, _, _, ⟨hall, rfl, rfl⟩, rfl, rfl⟩
      exact ⟨forall_mem_cons.mpr ⟨hser, hall⟩, rfl, rfl⟩
    · rintro ⟨hall, rfl, rfl⟩
      obtain ⟨hser, hall⟩ := forall_mem_cons.mp hall
      exact ⟨_, _, ⟨hser, rfl, rfl⟩, _, _, ⟨hall, rfl, rfl⟩, rfl, rfl⟩

lemma storeBtreeNode_fits (e : Engine H) (h : Fits node) :
    storeBtreeNode hs node e = .ok (hs.btreeHash node) (storeData hs e node) := by
  refine (storeBtreeNode_ok hs).mpr ⟨serializable_of_fits h, ?_, ?_⟩ <;> rw [encoded_of_fits h]

lemma storeNodes_fits (e : Engine H) (h : ∀ n ∈ nodes, Fits n) :
    storeNodes hs nodes e = .ok (nodes.map hs.btreeHash) (storeAll hs e nodes) := by
  have henc : nodes.map encoded = nodes := by
    conv_rhs => rw [← map_id nodes]
    exact map_congr_left fun n hn => encoded_of_fits (h n hn)
  refine (storeNodes_ok hs).mpr ⟨fun n hn => serializable_of_fits (h n hn), ?_, by rw [henc]⟩
  exact map_congr_left fun n hn => by rw [encoded_of_fits (h n hn)]

lemma live_storeData (e : Engine H) (data data' : BTreeNode H) : Live hs (storeData hs e data) data' ↔ data' = data ∨ Live hs e data' := by
  unfold Live storeData
  rw [Engine.get_storeEntry]
  by_cases h : data' = data
  · simp [h]
  · simp [h, (btreeHash_injective hs).ne h]

lemma live_storeAll (datas : List (BTreeNode H)) (e : Engine H) (data : BTreeNode H) :
    Live hs (storeAll hs e datas) data ↔ data ∈ datas ∨ Live hs e data := by
  induction datas generalizing e with
  | nil => simp [storeAll]
  | cons d datas ih =>
    rw [storeAll, foldl_cons, ← storeAll, ih, live_storeData, mem_cons]
    tauto

lemma live_of_mem {datas : List (BTreeNode H)} (e : Engine H) {data : BTreeNode H} (h : data ∈ datas) :
    Live hs (storeAll hs e datas) data :=
  (live_storeAll hs datas e data).mpr (Or.inl h)

lemma values_storeAll (datas : List (BTreeNode H)) (e : Engine H) : (storeAll hs e datas).log.map LogEntry.value =
      e.log.map LogEntry.value ++ datas.map fun d => .dir (.node d) := by
  induction datas generalizing e with
  | nil => simp [storeAll]
  | cons d datas ih =>
    rw [storeAll, foldl_cons, ← storeAll, ih]
    simp [storeData, Engine.storeEntry]

lemma storeAll_append (e : Engine H) (datas datas' : List (BTreeNode H)) :
    storeAll hs e (datas ++ datas') = storeAll hs (storeAll hs e datas) datas' :=
  List.foldl_append

end AeorDb.BTree
