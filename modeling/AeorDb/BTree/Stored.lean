import AeorDb.BTree.Operations
import AeorDb.Library.Result

/-! Stored B-trees as search trees: what listing and looking up a well-formed tree return. -/

namespace AeorDb.BTree

open Store Library SearchTree List

variable {H : Type} (hs : Hasher H) (e e' : Engine H)

def Fits : BTreeNode H → Prop
  | .leaf es => es.length < 65536 ∧ ∀ c ∈ es, c.Encodable
  | .internal ks _ => ∀ k ∈ ks, utf8Len k ≤ u16Max

def Holds (node : BTreeNode H) : Prop := e.get (hs.btreeHash node) = some (.dir (.node node)) ∧ Fits node

def LeafAt (a : H) (es : List (ChildEntry H)) : Prop := a = hs.btreeHash (.leaf es) ∧ Holds hs e (.leaf es)

def InternalAt (a : H) (ks : List Str) (cs : List H) : Prop :=
  a = hs.btreeHash (.internal ks cs) ∧ Holds hs e (.internal ks cs)

def Tree (n : ℕ) (root : H) (es : List (ChildEntry H)) : Prop :=
  Denotes ChildEntry.name (LeafAt hs e) (InternalAt hs e) n root es

lemma btreeHash_injective : Function.Injective hs.btreeHash := by
  intro a b h
  simpa using hs.injective h

lemma functional : Functional (LeafAt hs e) (InternalAt hs e) where
  leaf_eq := by
    rintro a es es' ⟨rfl, _⟩ ⟨h, _⟩
    simpa using btreeHash_injective hs h
  internal_eq := by
    rintro a ks cs ks' cs' ⟨rfl, _⟩ ⟨h, _⟩
    simpa using btreeHash_injective hs h
  disjoint := by
    rintro a es ks cs ⟨rfl, _⟩ ⟨h, _⟩
    simpa using btreeHash_injective hs h

variable {hs e e'} {es : List (ChildEntry H)} {root : H} {n : ℕ} {a : H} {v : Value H} {cs : List H} {ks : List Str}

lemma Tree.mono (hh : ∀ node, Holds hs e node → Holds hs e' node) (h : Tree hs e n root es) : Tree hs e' n root es :=
  Denotes.mono (fun _ _ hl => ⟨hl.1, hh _ hl.2⟩) (fun _ _ _ hi => ⟨hi.1, hh _ hi.2⟩) n root es h

lemma Tree.sorted {n : ℕ} (h : Tree hs e n root es) : SortedList.Sorted ChildEntry.name es :=
  Denotes.sorted n root es h

lemma get_mem_keys (h : e.get a = some v) : a ∈ e.log.map LogEntry.key := by
  obtain ⟨r, hr, _⟩ := Option.map_eq_some_iff.mp h
  exact mem_map.mpr ⟨r, e.getEntry_mem_log a r hr, e.getEntry_key a r hr⟩

lemma Tree.height_lt (h : Tree hs e n root es) : ∃ m < e.log.length, Tree hs e m root es := by
  classical
  obtain ⟨m, hm, ht⟩ := Denotes.height_lt_card (functional hs e) (e.log.map LogEntry.key).toFinset (by
    rintro a (⟨es, rfl, h, _⟩ | ⟨ks, cs, rfl, h, _⟩) <;> exact mem_toFinset.mpr (get_mem_keys h)) h
  refine ⟨m, hm.trans_le ?_, ht⟩
  exact (toFinset_card_le _).trans (by simp)

lemma fetch_of_get (includeDeleted : Bool) (h : e.get a = some v) : fetch e includeDeleted a = some v := by
  cases includeDeleted with
  | false => exact h
  | true =>
    obtain ⟨r, hr, hv⟩ := Option.map_eq_some_iff.mp h
    obtain ⟨i, hi, hr⟩ := Option.bind_eq_some_iff.mp hr
    split at hr
    · cases hr
    · simp [fetch, Engine.getRaw, hi, hr, hv]

lemma readNode_leaf (includeDeleted : Bool) (missing : String) (h : LeafAt hs e a es) :
    readNode e includeDeleted a missing = .ok (.leaf es) := by
  obtain ⟨rfl, hget, hfit⟩ := h
  rw [readNode, fetch_of_get includeDeleted hget]
  rcases es with _ | ⟨c, es⟩
  · rfl
  · have hlen : (c :: es).length % 65536 ≠ 0 := by
      rw [Nat.mod_eq_of_lt hfit.1]
      simp
    simp only [nodeOfValue, deserialize, if_neg hlen]

lemma readNode_internal (includeDeleted : Bool) (missing : String)
    (h : InternalAt hs e a ks cs) (hlen : cs.length = ks.length + 1) : readNode e includeDeleted a missing = .ok (.internal ks cs) := by
  obtain ⟨rfl, hget, _⟩ := h
  rw [readNode, fetch_of_get includeDeleted hget]
  simp [nodeOfValue, deserialize, hlen, take_of_length_le]

lemma mapM_chain {D : H → List (ChildEntry H) → Prop} {f : H → EngineResult (List (ChildEntry H))}
 (hf : ∀ c es, D c es → f c = .ok es) (h : Chain ChildEntry.name D ks cs es) : (cs.mapM f).map List.flatten = .ok es := by
  obtain ⟨parts, hp, rfl⟩ := h.parts
  exact Result.map_eq_ok.mpr ⟨parts, Result.mapM_eq_ok.mpr (hp.imp hf), rfl⟩

lemma listFrom_eq {n fuel : ℕ} (includeDeleted : Bool) (h : Tree hs e n root es)
    (hn : n < fuel) : listFrom e includeDeleted fuel root = .ok es := by
  induction fuel generalizing n root es with
  | zero => omega
  | succ fuel ih =>
    have hleaf : LeafAt hs e root es → listFrom e includeDeleted (fuel + 1) root = .ok es := fun hl => by
      rw [listFrom, readNode_leaf includeDeleted _ hl]
      rfl
    cases n with
    | zero => exact hleaf h.1
    | succ n =>
      rcases h with ⟨hl, _⟩ | ⟨ks, cs, hi, hchain⟩
      · exact hleaf hl
      · rw [listFrom, readNode_internal includeDeleted _ hi hchain.length_eq]
        exact mapM_chain (fun c es hc => ih hc (by omega)) hchain

lemma find?_focus {es₁ em es₂ : List (ChildEntry H)} {name : Str} (hl : ∀ c ∈ es₁, c.name < name)
    (hr : ∀ c ∈ es₂, name < c.name) : (es₁ ++ em ++ es₂).find? (·.name = name) = em.find? (·.name = name) := by
  have h₁ : es₁.find? (·.name = name) = none := find?_eq_none.mpr fun c hc => by simpa using (hl c hc).ne
  have h₂ : es₂.find? (·.name = name) = none := find?_eq_none.mpr fun c hc => by simpa using (hr c hc).ne'
  simp [find?_append, h₁, h₂]

lemma lookupFrom_eq {n fuel : ℕ} (includeDeleted : Bool) (name : Str) (h : Tree hs e n root es) (hn : n < fuel) :
    lookupFrom e includeDeleted name fuel root = .ok (es.find? (·.name = name)) := by
  induction fuel generalizing n root es with
  | zero => omega
  | succ fuel ih =>
    have hleaf : LeafAt hs e root es →
        lookupFrom e includeDeleted name (fuel + 1) root = .ok (es.find? (·.name = name)) := fun hl => by
      rw [lookupFrom, readNode_leaf includeDeleted _ hl,
        ← SortedList.find_eq_find? h.sorted name (·.name = name) (by simp)]
      rfl
    cases n with
    | zero => exact hleaf h.1
    | succ n =>
      rcases h with ⟨hl, _⟩ | ⟨ks, cs, hi, hchain⟩
      · exact hleaf hl
      · rw [lookupFrom, readNode_internal includeDeleted _ hi hchain.length_eq]
        have hsorted := hchain.keys_sorted
        obtain ⟨ks₁, ks₂, cs₁, c, cs₂, es₁, em, es₂, rfl, rfl, rfl, hf⟩ := hchain.focus name
        have hidx : (cs₁ ++ c :: cs₂)[findChildIndex (ks₁ ++ ks₂) name]? = some c := by
          rw [findChildIndex, hf.childIndex_eq hsorted, ← hf.length_left]
          simp
        simp only [bind, Except.bind, hidx]
        rw [find?_focus hf.left_lt hf.lt_right]
        exact ih hf.here (by omega)

theorem btreeList_eq (includeDeleted : Bool) (h : Tree hs e n root es) : btreeList e root includeDeleted = .ok es := by
  obtain ⟨m, hm, ht⟩ := h.height_lt
  exact listFrom_eq includeDeleted ht hm

theorem btreeLookup_eq (includeDeleted : Bool) (name : Str)
    (h : Tree hs e n root es) : btreeLookup e root name includeDeleted = .ok (es.find? (·.name = name)) := by
  obtain ⟨m, hm, ht⟩ := h.height_lt
  exact lookupFrom_eq includeDeleted name ht hm

end AeorDb.BTree
