import AeorDb.BTree.BulkLimit
import AeorDb.BTree.InsertSpec
import AeorDb.Dir.Frames

/-! Stored directories, and what rewriting one of them stores. -/

namespace AeorDb.Dir

open Store BTree Library Trace ChildEntry List

variable {H : Type} {hs : Hasher H} {e e' : Engine H}

inductive DirAt (hs : Hasher H) (e : Engine H) : H → List (ChildEntry H) → Prop where
  | flat {es : List (ChildEntry H)} : e.get (hs.directoryContentHash (.flat es)) = some (.dir (.flat es)) →
      (es.map name).Nodup → (∀ c ∈ es, c.Encodable) → DirAt hs e (hs.directoryContentHash (.flat es)) es
  | tree {n : ℕ} {root : H} {es : List (ChildEntry H)} : Tree hs e n root es → DirAt hs e root es

structure ContentGrows (hs : Hasher H) (e e' : Engine H) : Prop where
  flat : ∀ es, e.get (hs.directoryContentHash (.flat es)) = some (.dir (.flat es)) →
    e'.get (hs.directoryContentHash (.flat es)) = some (.dir (.flat es))
  node : ∀ n, Live hs e n → Live hs e' n

section

lemma ContentGrows.refl : ContentGrows hs e e := ⟨fun _ h => h, fun _ h => h⟩

lemma ContentGrows.trans {e'' : Engine H} (h : ContentGrows hs e e') (h' : ContentGrows hs e' e'') : ContentGrows hs e e'' :=
  ⟨fun es hes => h'.flat es (h.flat es hes), fun n hn => h'.node n (h.node n hn)⟩

variable {es : List (ChildEntry H)} {h : H}

lemma DirAt.mono (hg : ContentGrows hs e e') (hd : DirAt hs e h es) : DirAt hs e' h es := by
  cases hd with
  | flat hlive hnd henc => exact .flat (hg.flat es hlive) hnd henc
  | tree ht => exact .tree (ht.mono fun node hh => ⟨hg.node node hh.1, hh.2⟩)

lemma btreeListFromNode_eq {n : ℕ} {node : BTreeNode H} (h : Tree hs e n (hs.btreeHash node) es)
    (includeDeleted : Bool) : btreeListFromNode e node includeDeleted = .ok es := by
  rw [btreeListFromNode, h.deserialize_eq]
  cases node with
  | leaf es' => rw [h.leaf_inv.1]; rfl
  | internal ks cs =>
    obtain ⟨m, _, _, hchain⟩ := h.internal_inv
    exact mapM_chain (fun c es hc => btreeList_eq includeDeleted hc) hchain

lemma DirAt.read {h : H} (hd : DirAt hs e h es) : (e.get h = some (.dir (.flat es)) ∧ h = hs.directoryContentHash (.flat es)) ∨
      ∃ n node, e.get h = some (.dir (.node node)) ∧ h = hs.btreeHash node ∧ Tree hs e n h es := by
  cases hd with
  | flat hlive _ _ => exact Or.inl ⟨hlive, rfl⟩
  | @tree n root es ht =>
    obtain ⟨node, rfl, hlive, _⟩ := ht.root_eq
    exact Or.inr ⟨n, node, hlive, rfl, ht⟩

lemma DirAt.childrenOf_eq (hd : DirAt hs e h es) : ∃ v, e.get h = some v ∧ childrenOf e v = .ok es := by
  rcases hd.read with ⟨hget, _⟩ | ⟨n, node, hget, rfl, ht⟩
  · exact ⟨_, hget, rfl⟩
  · exact ⟨_, hget, btreeListFromNode_eq ht false⟩

lemma DirAt.det {es es' : List (ChildEntry H)} (hd : DirAt hs e h es) (hd' : DirAt hs e h es') : es = es' := by
  obtain ⟨v, hv, hc⟩ := hd.childrenOf_eq
  obtain ⟨v', hv', hc'⟩ := hd'.childrenOf_eq
  obtain rfl : v = v' := Option.some.inj (hv.symm.trans hv')
  exact Except.ok.inj (hc.symm.trans hc')

end

def Upserted (es : List (ChildEntry H)) (c : ChildEntry H) (es' : List (ChildEntry H)) : Prop :=
  ∀ x, x ∈ es' ↔ x = c ∨ x ∈ es ∧ x.name ≠ c.name

section

variable {es es' : List (ChildEntry H)} {c : ChildEntry H}

lemma upsertChild_upserted (hnd : (es.map name).Nodup) (c : ChildEntry H) : Upserted es c (upsertChild es c) := by
  intro x
  induction es with
  | nil => simp [upsertChild]
  | cons y es ih =>
    rw [map_cons, nodup_cons] at hnd
    have hy : ∀ z ∈ es, z.name ≠ y.name := fun z hz heq => hnd.1 (heq ▸ mem_map_of_mem hz)
    unfold upsertChild
    split_ifs with hname
    · simp only [mem_cons]
      constructor
      · rintro (rfl | hx)
        · exact Or.inl rfl
        · exact Or.inr ⟨Or.inr hx, hname ▸ hy x hx⟩
      · rintro (rfl | ⟨rfl | hx, hne⟩)
        · exact Or.inl rfl
        · exact absurd hname hne
        · exact Or.inr hx
    · simp only [mem_cons, ih hnd.2]
      constructor
      · rintro (rfl | rfl | ⟨hx, hne⟩)
        · exact Or.inr ⟨Or.inl rfl, hname⟩
        · exact Or.inl rfl
        · exact Or.inr ⟨Or.inr hx, hne⟩
      · rintro (rfl | ⟨rfl | hx, hne⟩)
        · exact Or.inr (Or.inl rfl)
        · exact Or.inl rfl
        · exact Or.inr (Or.inr ⟨hx, hne⟩)

lemma names_upsertChild (es : List (ChildEntry H)) (c : ChildEntry H) : (upsertChild es c).map name =
      if c.name ∈ es.map name then es.map name else es.map name ++ [c.name] := by
  induction es with
  | nil => simp [upsertChild]
  | cons y es ih =>
    by_cases hname : y.name = c.name
    · rw [upsertChild, if_pos hname, if_pos (by simp [hname]), map_cons, map_cons, hname]
    · have hne : c.name ≠ y.name := Ne.symm hname
      rw [upsertChild, if_neg hname, map_cons, ih]
      simp only [map_cons, mem_cons, hne, false_or]
      split_ifs <;> rfl

lemma nodup_upsertChild (hnd : (es.map name).Nodup) (c : ChildEntry H) : ((upsertChild es c).map name).Nodup := by
  rw [names_upsertChild]
  split_ifs with hmem
  · exact hnd
  · exact nodup_append.mpr ⟨hnd, nodup_singleton _, by simpa using hmem⟩

lemma length_upsertChild_le (es : List (ChildEntry H)) (c : ChildEntry H) : (upsertChild es c).length ≤ es.length + 1 := by
  have h := congrArg List.length (names_upsertChild es c)
  split_ifs at h <;> simp at h <;> omega

lemma map_stored_upsertChild (es : List (ChildEntry H)) (c : ChildEntry H) :
    (upsertChild es c).map stored = upsertChild (es.map stored) c.stored := by
  induction es with
  | nil => rfl
  | cons y es ih =>
    by_cases h : y.name = c.name
    · rw [map_cons, upsertChild, upsertChild, if_pos h, if_pos (by exact h), map_cons]
    · rw [map_cons, upsertChild, upsertChild, if_neg h, if_neg (by exact h), map_cons, ih]

lemma map_stored_encodable (h : ∀ c ∈ es, c.Encodable) : es.map stored = es := by
  conv_rhs => rw [← map_id es]
  exact map_congr_left fun x hx => x.stored_eq_self (h x hx).contentType_ne

end

def Rewritten.Holds (hs : Hasher H) (e : Engine H) (r : Rewritten H) (es : List (ChildEntry H)) : Prop :=
  ∀ e', ContentGrows hs e e' → (∀ w ∈ r.batch, e'.get w.2.1 = some w.2.2) → DirAt hs e' r.contentKey es

variable [DecidableEq H] {es : List (ChildEntry H)} {c : ChildEntry H} {r : Rewritten H}

inductive ContentOnly (hs : Hasher H) : Action H → Prop where
  | flat (es : List (ChildEntry H)) :
      ContentOnly hs (.store .directoryIndex (hs.directoryContentHash (.flat es)) (.dir (.flat es)))
  | node (n : BTreeNode H) : ContentOnly hs (.store .directoryIndex (hs.btreeHash n) (.dir (.node n)))

structure KeepsContent (hs : Hasher H) (P : Action H → Prop) : Prop where
  flat : ∀ es t v, P (.store t (hs.directoryContentHash (.flat es)) v) → v = .dir (.flat es)
  node : ∀ n t v, P (.store t (hs.btreeHash n) v) → v = .dir (.node n)
  mark : ∀ k, P (.markDeleted k) → ∃ s, k = hs.compute (.text s)

lemma KeepsContent.grows {P : Action H → Prop} (hk : KeepsContent hs P) (hran : Ran Engine.act P e e') : ContentGrows hs e e' := by
  refine ⟨fun es hes => ?_, fun n hn => ?_⟩
  · refine Engine.get_keep_of_ran hran (hk.flat es) (fun hm => ?_) hes
    obtain ⟨s, hs'⟩ := hk.mark _ hm
    simp [Hasher.directoryContentHash] at hs'
  · refine Engine.get_keep_of_ran hran (hk.node n) (fun hm => ?_) hn
    obtain ⟨s, hs'⟩ := hk.mark _ hm
    simp [Hasher.btreeHash] at hs'

omit [DecidableEq H] in
lemma keepsContent_contentOnly : KeepsContent hs (ContentOnly hs) := by
  refine ⟨fun es t v h => ?_, fun n t v h => ?_, fun k h => ?_⟩
  · generalize hk : hs.directoryContentHash (.flat es) = k at h
    cases h with
    | flat es' =>
      obtain rfl : es = es' := by simpa [Hasher.directoryContentHash] using hk
      rfl
    | node n => simp [Hasher.directoryContentHash, Hasher.btreeHash] at hk
  · generalize hk : hs.btreeHash n = k at h
    cases h with
    | flat es => simp [Hasher.directoryContentHash, Hasher.btreeHash] at hk
    | node n' =>
      obtain rfl : n = n' := btreeHash_injective hs hk
      rfl
  · cases h

lemma head_of_contentOnly (hran : Ran Engine.act (ContentOnly hs) e e') : e'.head = e.head := by
  refine hran.invariant (I := fun s => s.head = e.head) ?_ rfl
  intro s a ha hI
  cases ha with
  | flat es => exact hI
  | node n => exact hI

variable {children : List (ChildEntry H)}

omit [DecidableEq H] in
lemma writeFlat_spec (h : writeFlat hs children = .ok r) (hnd : (children.map name).Nodup) : r.Holds hs e (children.map stored) := by
  obtain ⟨es, hser, h⟩ := Result.bind_eq_ok.mp h
  cases h
  intro e' _ hbatch
  have hstored : serialize (.leaf children) = .ok (.leaf es) := by
    rw [BTree.serialize, hser]
    rfl
  obtain ⟨heq, hfit⟩ := serialize_leaf_ok hstored
  cases heq
  refine .flat (hbatch _ (mem_singleton.mpr rfl)) (by simpa [map_map, Function.comp_def] using hnd) ?_
  intro x hx
  obtain ⟨y, hy, rfl⟩ := mem_map.mp hx
  exact y.encodable_stored (hfit y hy).1 (hfit y hy).2

lemma btreeFromEntries_tree (e : Engine H) (hnd : (children.map name).Nodup) (hlen : children.length ≤ bulkLimit)
    (hw : ∀ x ∈ children, Writable x) :
    ∃ root datas es', btreeFromEntries hs children e = .ok root (storeAll hs e datas) ∧ es'.Perm (children.map stored) ∧
      Tree hs (storeAll hs e datas) 1 root es' := by
  have hperm := perm_insertionSort (fun a b : ChildEntry H => a.name ≤ b.name) (children.map stored)
  have hnd' : ((children.map stored).map name).Nodup := by
    simpa [map_map, Function.comp_def] using hnd
  have henc : ∀ c ∈ (children.map stored).insertionSort fun a b => a.name ≤ b.name, c.Encodable := by
    intro c hc
    obtain ⟨x, hx, rfl⟩ := mem_map.mp (hperm.mem_iff.mp hc)
    exact x.encodable_stored (hw x hx).1 (hw x hx).2
  obtain ⟨root, datas, hbuild, htree, _⟩ := btreeFromSorted_tree hs e _ (sorted_insertionSort hnd')
    (by rw [hperm.length_eq, length_map]; exact hlen) henc
  rw [← btreeFromEntries_stored]
  exact ⟨root, datas, _, hbuild, hperm, htree⟩

lemma btreeFromEntries_spec {root : H} (h : btreeFromEntries hs children e = .ok root e')
    (hnd : (children.map name).Nodup) (hlen : children.length ≤ bulkLimit) :
    ∃ es', es'.Perm (children.map stored) ∧ Tree hs e' 1 root es' := by
  have hw (x : ChildEntry H) (hx : x ∈ children) : Writable x := by
    obtain ⟨hname, htype⟩ := btreeFromSorted_fits hs h x ((mem_insertionSort _).mpr hx)
    exact ⟨hname, htype⟩
  obtain ⟨root', datas, es', hbuild, hperm, htree⟩ := btreeFromEntries_tree e hnd hlen hw
  obtain ⟨rfl, rfl⟩ : root = root' ∧ e' = storeAll hs e datas := by
    simpa using h.symm.trans hbuild
  exact ⟨es', hperm, htree⟩

lemma convertToBtree_spec (h : convertToBtree hs children e = .ok r e')
    (hnd : (children.map name).Nodup) (hlen : children.length ≤ bulkLimit) : ∃ es', es'.Perm (children.map stored) ∧ r.Holds hs e' es' := by
  obtain ⟨root, e₁, hbuild, hread⟩ := Result.estate_bind_eq_ok.mp h
  obtain ⟨v, e₂, hq, hout⟩ := Result.estate_bind_eq_ok.mp hread
  obtain ⟨hv, heq⟩ := EngineM.query_eq_ok.mp hq
  subst heq
  obtain ⟨es', hperm, htree⟩ := btreeFromEntries_spec hbuild hnd hlen
  obtain ⟨hkey, rfl⟩ : r.contentKey = root ∧ e₂ = e' := by
    split at hout
    · cases hout
      exact ⟨rfl, rfl⟩
    · cases hout
  exact ⟨es', hperm, fun e' hg _ => hkey ▸ (DirAt.tree htree).mono hg⟩

lemma rewriteWith_spec {h : H} {v : Value H} (hr : rewriteWith hs (some v) c e = .ok r e') (hd : DirAt hs e h es)
    (hv : e.get h = some v) (hroom : ∀ fs, v = .dir (.flat fs) → es.length < bulkLimit) :
    ∃ es', Upserted es c.stored es' ∧ r.Holds hs e' es' := by
  cases hd with
  | flat hlive hnd henc =>
    obtain rfl : v = .dir (.flat es) := Option.some.inj (hv.symm.trans hlive)
    have hnd' := nodup_upsertChild hnd c
    have hstored : (upsertChild es c).map stored = upsertChild es c.stored := by
      rw [map_stored_upsertChild, map_stored_encodable henc]
    have hup := upsertChild_upserted hnd c.stored
    obtain ⟨children, e₁, hq, hout⟩ := Result.estate_bind_eq_ok.mp hr
    obtain ⟨hchildren, rfl⟩ := EngineM.query_eq_ok.mp hq
    cases hchildren
    split_ifs at hout with hfull
    · have hlen : (upsertChild es c).length ≤ bulkLimit :=
        (length_upsertChild_le es c).trans (hroom es rfl)
      obtain ⟨es', hperm, hholds⟩ := convertToBtree_spec hout hnd' hlen
      refine ⟨es', fun x => ?_, hholds⟩
      rw [hperm.mem_iff, hstored]
      exact hup x
    · obtain ⟨hflat, rfl⟩ := EngineM.query_eq_ok.mp hout
      exact ⟨_, hup, hstored ▸ writeFlat_spec hflat hnd'⟩
  | @tree n _ _ ht =>
    obtain ⟨node, rfl, hlive, _⟩ := ht.root_eq
    obtain rfl : v = .dir (.node node) := Option.some.inj (hv.symm.trans hlive)
    obtain ⟨⟨root, data⟩, e₁, hins, hout⟩ := Result.estate_bind_eq_ok.mp hr
    have hw := writable_of_btreeInsertBatched hins
    obtain ⟨data', nodes, hspec, htree⟩ := btreeInsertBatched_spec ht hw
    rw [hspec] at hins
    cases hins
    cases hout
    exact ⟨_, fun x => SortedList.mem_updated c.stored x, fun e' hg _ => (DirAt.tree htree).mono hg⟩

lemma rewriteWith_new_spec (hr : rewriteWith hs none c e = .ok r e') : e' = e ∧ r.Holds hs e' [c.stored] := by
  change EngineM.attempt (writeFlat hs [c]) e = .ok r e' at hr
  obtain ⟨hflat, rfl⟩ := EngineM.query_eq_ok.mp hr
  exact ⟨rfl, writeFlat_spec hflat (by simp)⟩

end AeorDb.Dir
