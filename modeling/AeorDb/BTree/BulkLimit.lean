import AeorDb.BTree.Bulk
import AeorDb.Store.Digest

/-! Bulk construction beyond one internal node: the second group of children gets one key too many. -/

namespace AeorDb.BTree

open Store Library ChildEntry Grouping List

variable {H : Type} (hs : Hasher H)

inductive Broken (e : Engine H) : H → Prop where
  | arity {ks : List Str} {cs : List H} : Live hs e (.internal ks cs) → cs.length ≤ ks.length →
      Broken e (hs.btreeHash (.internal ks cs))
  | child {ks : List Str} {cs : List H} {c : H} : Live hs e (.internal ks cs) → cs.length ≤ ks.length + 1 → c ∈ cs →
      Broken e c → Broken e (hs.btreeHash (.internal ks cs))

variable {e e' : Engine H} {h : H} {root : H} {es : List (ChildEntry H)} {entries : List (ChildEntry H)}

lemma Broken.mono (hlive : ∀ d, Live hs e d → Live hs e' d) (hb : Broken hs e h) : Broken hs e' h := by
  induction hb with
  | arity hl hlen => exact .arity (hlive _ hl) hlen
  | child hl hlen hc _ ih => exact .child (hlive _ hl) hlen hc ih

lemma readNode_of_live {ks : List Str} {cs : List H} (includeDeleted : Bool) (missing : String)
    (h : Live hs e (.internal ks cs)) (hlen : cs.length ≤ ks.length + 1) :
    readNode e includeDeleted (hs.btreeHash (.internal ks cs)) missing =
      if cs.length ≤ ks.length then .error (.corruptEntry 0 "Internal node data too short for child hash")
      else .ok (.internal ks cs) := by
  rw [readNode, fetch_of_get includeDeleted h]
  by_cases hle : cs.length ≤ ks.length
  · simp [nodeOfValue, deserialize, hle]
  · simp [nodeOfValue, deserialize, hle, take_of_length_le hlen]

lemma listFrom_broken (hb : Broken hs e h) (includeDeleted : Bool) (fuel : ℕ)
    (es : List (ChildEntry H)) : listFrom e includeDeleted fuel h ≠ .ok es := by
  induction hb generalizing fuel es with
  | arity hl hlen =>
    cases fuel with
    | zero => simp [listFrom]
    | succ fuel =>
      rw [listFrom, readNode_of_live hs includeDeleted _ hl (by omega), if_pos hlen]
      simp [bind, Except.bind]
  | @child ks cs c hl hlen hc _ ih =>
    cases fuel with
    | zero => simp [listFrom]
    | succ fuel =>
      rw [listFrom, readNode_of_live hs includeDeleted _ hl hlen]
      by_cases hle : cs.length ≤ ks.length
      · simp [hle, bind, Except.bind]
      · rw [if_neg hle]
        intro h
        obtain ⟨parts, hparts, _⟩ := Result.map_eq_ok.mp h
        obtain ⟨part, _, hpart⟩ := Result.mapM_ok_mem hparts c hc
        exact ih fuel part hpart

lemma internalGroup_eq (children : List H) (keys : List Str) (hlen : children.length = keys.length + 1) (i : ℕ) (hi : i < children.length) :
    ∃ ks, internalGroup children keys i = .internal ks ((children.drop i).take (maxInternalKeys + 1)) ∧
      ((children.drop i).take (maxInternalKeys + 1)).length ≤ ks.length + 1 ∧
      (0 < i → ((children.drop i).take (maxInternalKeys + 1)).length = ks.length) := by
  have hslice : (children.take (min (i + (maxInternalKeys + 1)) children.length)).drop i =
      (children.drop i).take (maxInternalKeys + 1) := by
    rw [drop_take, take_eq_take_iff, length_drop]
    omega
  refine ⟨groupKeys keys i (min (i + (maxInternalKeys + 1)) children.length), by rw [internalGroup, hslice], ?_, ?_⟩
  · by_cases h0 : i = 0 <;> simp [groupKeys, h0] <;> omega
  · intro h0
    simp [groupKeys, h0.ne']
    omega

def levelNodes (children : List H) (keys : List Str) : List (BTreeNode H) :=
  (starts (maxInternalKeys + 1) children.length).map (internalGroup children keys)

lemma encoded_levelNodes (children : List H) (keys : List Str) : (levelNodes children keys).map encoded = levelNodes children keys := by
  rw [levelNodes, map_map]
  exact map_congr_left fun i _ => encoded_internal _ _

lemma mem_starts_lt {size length i : ℕ} (hs : 0 < size) (hi : i ∈ starts size length) : i < length := by
  obtain ⟨j, hj, rfl⟩ := mem_starts.mp hi
  rw [Nat.lt_div_iff_mul_lt hs] at hj
  omega

variable {children : List H} {keys : List Str}

section

variable (hlen : children.length = keys.length + 1)
include hlen

lemma levelNodes_covers {c : H} (hc : c ∈ children) :
    ∃ ks cs, .internal ks cs ∈ levelNodes children keys ∧ c ∈ cs ∧ cs.length ≤ ks.length + 1 := by
  have hflat := flatten_groups (by decide : 0 < maxInternalKeys + 1) children (ne_nil_of_mem hc)
  rw [← hflat] at hc
  obtain ⟨g, hg, hcg⟩ := mem_flatten.mp hc
  obtain ⟨i, hi, rfl⟩ := mem_map.mp hg
  obtain ⟨ks, heq, harity, _⟩ := internalGroup_eq children keys hlen i (mem_starts_lt (by decide) hi)
  exact ⟨ks, _, mem_map.mpr ⟨i, hi, heq⟩, hcg, harity⟩

lemma levelNodes_overflow (hmax : maxInternalKeys + 1 < children.length) :
    ∃ ks cs, .internal ks cs ∈ levelNodes children keys ∧ cs.length ≤ ks.length := by
  obtain ⟨ks, heq, _, harity⟩ := internalGroup_eq children keys hlen (maxInternalKeys + 1) hmax
  refine ⟨ks, _, mem_map.mpr ⟨maxInternalKeys + 1, mem_starts.mpr ⟨1, ?_, by simp⟩, heq⟩,
    (harity (by decide)).le⟩
  change 78 < children.length at hmax
  change 1 < (children.length + 78 - 1) / 78
  omega

lemma levelNodes_length : (levelNodes children keys).length =
      (upperKeys keys (starts (maxInternalKeys + 1) children.length)).length + 1 := by
  have hlt : ∀ i ∈ starts (maxInternalKeys + 1) children.length, i < children.length :=
    fun i hi => mem_starts_lt (by decide) hi
  obtain ⟨m, hm⟩ : ∃ m, (children.length + (maxInternalKeys + 1) - 1) / (maxInternalKeys + 1) = m + 1 := by
    refine Nat.exists_eq_succ_of_ne_zero ?_
    change (children.length + 78 - 1) / 78 ≠ 0
    omega
  rw [levelNodes]
  simp only [starts, hm, range_succ_eq_map, map_cons, map_map] at hlt ⊢
  rw [upperKeys, filterMap_cons_none (by simp), filterMap_length_eq_length.mpr]
  · simp
  · intro i hi
    have hi' := hlt i (mem_cons_of_mem _ hi)
    obtain ⟨j, _, rfl⟩ := mem_map.mp hi
    have hpos : 0 < (j + 1) * (maxInternalKeys + 1) := by positivity
    simp only [Function.comp_apply, Nat.succ_eq_add_one] at hi' ⊢
    rw [if_pos ⟨hpos, by omega⟩, getElem?_eq_getElem (by omega)]
    rfl

end

variable [DecidableEq H]

lemma buildInternalLevel_step {fuel : ℕ}
    (hone : children.length ≠ 1) (h : buildInternalLevel hs (fuel + 1) children keys e = .ok root e') :
    ((levelNodes children keys).map hs.btreeHash = [root] ∧ e' = storeAll hs e (levelNodes children keys)) ∨
      buildInternalLevel hs fuel ((levelNodes children keys).map hs.btreeHash)
        (upperKeys keys (starts (maxInternalKeys + 1) children.length))
        (storeAll hs e (levelNodes children keys)) = .ok root e' := by
  unfold buildInternalLevel at h
  split at h
  · exact absurd rfl hone
  · obtain ⟨next, e₁, hstore, h⟩ := Result.estate_bind_eq_ok.mp h
    obtain ⟨_, hnext, he₁⟩ := (storeNodes_ok hs).mp hstore
    rw [← levelNodes, encoded_levelNodes] at he₁
    have hmap : next = (levelNodes children keys).map hs.btreeHash := by
      rw [hnext, ← levelNodes]
      conv_rhs => rw [← encoded_levelNodes, map_map]
      rfl
    rw [← hmap, ← he₁]
    split at h
    · obtain ⟨rfl, rfl⟩ := Result.estate_pure_eq_ok.mp h
      exact Or.inl ⟨rfl, rfl⟩
    · exact Or.inr h

lemma buildInternalLevel_broken (fuel : ℕ) {root c : H}
    (hlen : children.length = keys.length + 1) (h : buildInternalLevel hs fuel children keys e = .ok root e')
    (hc : c ∈ children) (hb : Broken hs e c) : Broken hs e' root := by
  induction fuel generalizing children keys e c with
  | zero => cases h
  | succ fuel ih =>
    by_cases hone : children.length = 1
    · obtain ⟨d, rfl⟩ := length_eq_one_iff.mp hone
      obtain ⟨rfl, rfl⟩ := Result.estate_pure_eq_ok.mp h
      rwa [← mem_singleton.mp hc]
    · obtain ⟨ks, cs, hmem, hcs, harity⟩ := levelNodes_covers hlen hc
      have hnode : Broken hs (storeAll hs e (levelNodes children keys)) (hs.btreeHash (.internal ks cs)) :=
        .child (live_of_mem hs e hmem) harity hcs (hb.mono hs fun d hd => (live_storeAll hs _ e d).mpr (Or.inr hd))
      have hnext : hs.btreeHash (.internal ks cs) ∈ (levelNodes children keys).map hs.btreeHash := mem_map.mpr ⟨_, hmem, rfl⟩
      rcases buildInternalLevel_step hs hone h with ⟨heq, rfl⟩ | h'
      · rw [heq, mem_singleton] at hnext
        rwa [← hnext]
      · exact ih (by rw [length_map, levelNodes_length hlen]) h' hnext hnode

lemma buildInternalLevel_overflow (fuel : ℕ)
    (hlen : children.length = keys.length + 1) (hmax : maxInternalKeys + 1 < children.length)
    (h : buildInternalLevel hs fuel children keys e = .ok root e') : Broken hs e' root := by
  cases fuel with
  | zero => cases h
  | succ fuel =>
    obtain ⟨ks, cs, hmem, harity⟩ := levelNodes_overflow hlen hmax
    have hnode : Broken hs (storeAll hs e (levelNodes children keys)) (hs.btreeHash (.internal ks cs)) :=
      .arity (live_of_mem hs e hmem) harity
    have hnext : hs.btreeHash (.internal ks cs) ∈ (levelNodes children keys).map hs.btreeHash := mem_map.mpr ⟨_, hmem, rfl⟩
    rcases buildInternalLevel_step hs (by change 78 < children.length at hmax; omega) h with ⟨heq, rfl⟩ | h'
    · rw [heq, mem_singleton] at hnext
      rwa [← hnext]
    · exact buildInternalLevel_broken hs fuel (by rw [length_map, levelNodes_length hlen]) h' hnext hnode

lemma btreeFromSorted_broken (hmax : bulkLimit < es.length)
    (h : btreeFromSorted hs es e = .ok root e') : Broken hs e' root := by
  have hmax' : 3120 < es.length := hmax
  have hne : es ≠ [] := by
    rintro rfl
    simp at hmax'
  have hcount : 78 < (groups maxLeafEntries es).length := by
    rw [length_groups]
    change 78 < (es.length + 40 - 1) / 40
    omega
  rw [btreeFromSorted, if_neg (by simpa using hne)] at h
  obtain ⟨hashes, e₁, hstore, h⟩ := Result.estate_bind_eq_ok.mp h
  have hlen : hashes.length = (groups maxLeafEntries es).length := by
    rw [((storeNodes_ok hs).mp hstore).2.1, length_map, length_map]
  rcases hashes with _ | ⟨a, _ | ⟨b, rest⟩⟩
  · simp at hlen
    omega
  · simp at hlen
    omega
  · refine buildInternalLevel_overflow hs _ ?_ (hlen ▸ hcount) h
    rw [hlen, length_map, length_tail]
    omega

def BulkCorrect (e : Engine H) (entries : List (ChildEntry H)) : Prop :=
  ∃ root e', btreeFromEntries hs entries e = .ok root e' ∧
    (∀ ks cs, .dir (.node (.internal ks cs)) ∈ (e'.log.map LogEntry.value).drop e.log.length → cs.length = ks.length + 1) ∧
    (∀ includeDeleted, ∃ listed, btreeList e' root includeDeleted = .ok listed ∧ listed.Perm entries ∧
      listed.Pairwise fun a b => a.name < b.name) ∧
    ∀ name includeDeleted, btreeLookup e' root name includeDeleted = .ok (entries.find? (·.name = name))

instance : IsTrans (ChildEntry H) fun a b => a.name ≤ b.name := ⟨fun _ _ _ => le_trans⟩

instance : Std.Total fun a b : ChildEntry H => a.name ≤ b.name := ⟨fun a b => le_total a.name b.name⟩

omit [DecidableEq H] in
lemma sorted_insertionSort (hnd : (entries.map name).Nodup) :
    SortedList.Sorted name (entries.insertionSort fun a b => a.name ≤ b.name) :=
  SortedList.sorted_of_le (pairwise_insertionSort _ entries)
    (((perm_insertionSort _ entries).map name).nodup_iff.mpr hnd)

lemma bulkCorrect_of_encodable (e : Engine H) (hnd : (entries.map name).Nodup)
    (hmax : entries.length ≤ bulkLimit) (henc : ∀ c ∈ entries, c.Encodable) : BulkCorrect hs e entries := by
  have hperm := perm_insertionSort (fun a b : ChildEntry H => a.name ≤ b.name) entries
  have hsorted := sorted_insertionSort hnd
  obtain ⟨root, datas, hbuild, htree, harity⟩ := btreeFromSorted_tree hs e _ hsorted (hperm.length_eq ▸ hmax)
    fun c hc => henc c (hperm.mem_iff.mp hc)
  refine ⟨root, _, hbuild, ?_, fun b => ⟨_, btreeList_eq b htree, hperm, hsorted⟩, fun name b => ?_⟩
  · intro ks cs hmem
    rw [values_storeAll, drop_left' (by simp)] at hmem
    obtain ⟨d, hd, heq⟩ := mem_map.mp hmem
    simp only [Value.dir.injEq, DirData.node.injEq] at heq
    subst heq
    exact harity _ hd
  · rw [btreeLookup_eq b name htree]
    congr 1
    exact SortedList.find?_perm hperm hsorted.nodup_keys name _ (by simp)

omit [DecidableEq H] in
lemma serialize_leaf_stored (g : List (ChildEntry H)) : serialize (.leaf (g.map stored)) = serialize (.leaf g) := by
  simp only [serialize, serializeChildEntries, mapM_map]
  congr 2
  funext c
  exact c.serialize_stored

lemma storeNodes_congr {α : Type} (f g : α → BTreeNode H) (l : List α) (h : ∀ a ∈ l, serialize (f a) = serialize (g a)) :
    storeNodes hs (l.map f) = storeNodes hs (l.map g) := by
  induction l with
  | nil => rfl
  | cons a l ih =>
    obtain ⟨ha, hl⟩ := forall_mem_cons.mp h
    have hnode : storeBtreeNode hs (f a) = storeBtreeNode hs (g a) := by
      funext e
      simp only [storeBtreeNode, ha]
    simp only [map_cons, storeNodes, hnode, ih hl]

lemma btreeFromEntries_stored (entries : List (ChildEntry H)) : btreeFromEntries hs (entries.map stored) = btreeFromEntries hs entries := by
  have hsort := map_insertionSort (fun a b : ChildEntry H => a.name ≤ b.name)
    (fun a b : ChildEntry H => a.name ≤ b.name) stored entries (fun a _ b _ => by simp)
  rw [btreeFromEntries, ← hsort, btreeFromEntries]
  generalize entries.insertionSort (fun a b => a.name ≤ b.name) = es
  have hkeys : ∀ gs : List (List (ChildEntry H)), (gs.map (List.map stored)).tail.map headName =
      gs.tail.map headName := by
    intro gs
    rw [← map_tail, map_map]
    refine map_congr_left fun g _ => ?_
    rcases g with _ | ⟨c, g⟩ <;> rfl
  have hnodes := storeNodes_congr hs (fun g => .leaf (g.map stored)) BTreeNode.leaf
    (groups maxLeafEntries es) fun g _ => serialize_leaf_stored g
  simp only [btreeFromSorted, isEmpty_map, groups_map, hkeys, map_map]
  rw [← hnodes]
  rfl

lemma btreeFromSorted_fits (h : btreeFromSorted hs es e = .ok root e') :
    ∀ c ∈ es, utf8Len c.name ≤ u16Max ∧ utf8Len (c.contentType.getD []) ≤ u16Max := by
  intro c hc
  have hne : es ≠ [] := ne_nil_of_mem hc
  rw [btreeFromSorted, if_neg (by simpa using hne)] at h
  obtain ⟨hashes, e₁, hstore, _⟩ := Result.estate_bind_eq_ok.mp h
  obtain ⟨hser, _, _⟩ := (storeNodes_ok hs).mp hstore
  rw [← flatten_groups (by decide : 0 < maxLeafEntries) es hne] at hc
  obtain ⟨g, hg, hcg⟩ := mem_flatten.mp hc
  exact (serialize_leaf_ok (hser _ (mem_map.mpr ⟨g, hg, rfl⟩))).2 c hcg

theorem btreeFromEntries_correct_iff (e : Engine H) (entries : List (ChildEntry H))
    (hnd : (entries.map ChildEntry.name).Nodup) :
    BulkCorrect hs e entries ↔ entries.length ≤ bulkLimit ∧ ∀ c ∈ entries, c.Encodable := by
  refine ⟨fun h => ?_, fun h => bulkCorrect_of_encodable hs e hnd h.1 h.2⟩
  obtain ⟨root, e', hbuild, _, hlist, _⟩ := id h
  obtain ⟨listed, hlisted, hperm, _⟩ := hlist false
  have hlen : (entries.insertionSort fun a b => a.name ≤ b.name).length = entries.length := (perm_insertionSort _ entries).length_eq
  have hmax : entries.length ≤ bulkLimit := by
    by_contra hgt
    exact listFrom_broken hs (btreeFromSorted_broken hs (hlen ▸ not_le.mp hgt) hbuild) false _ listed hlisted
  have hfit : ∀ c ∈ entries, utf8Len c.name ≤ u16Max ∧ utf8Len (c.contentType.getD []) ≤ u16Max := fun c hc =>
    btreeFromSorted_fits hs hbuild c ((mem_insertionSort _).mpr hc)
  -- the same root lists the encoded entries
  have hstored : BulkCorrect hs e (entries.map stored) := by
    refine bulkCorrect_of_encodable hs e (by simpa [Function.comp_def] using hnd) (by simpa using hmax) ?_
    exact forall_mem_map.mpr fun c hc => c.encodable_stored (hfit c hc).1 (hfit c hc).2
  obtain ⟨root', e'', hbuild', _, hlist', _⟩ := hstored
  obtain ⟨listed', hlisted', hperm', _⟩ := hlist' false
  rw [btreeFromEntries_stored, hbuild] at hbuild'
  cases hbuild'
  rw [hlisted] at hlisted'
  cases hlisted'
  refine ⟨hmax, fun c hc => ⟨(hfit c hc).1, (hfit c hc).2, ?_⟩⟩
  obtain ⟨d, _, rfl⟩ := mem_map.mp (hperm'.mem_iff.mp (hperm.mem_iff.mpr hc))
  exact d.stored_contentType_ne

def sampleEntry (name : Str) : ChildEntry Digest :=
  ⟨.fileRecord, .mk 0 [] [] [], 0, 0, 0, name, none, 0, 0⟩

theorem btreeFromEntries_correct_two :
    BulkCorrect Digest.hasher (Engine.empty fun _ => 0) [sampleEntry ['b'], sampleEntry ['a']] :=
  (btreeFromEntries_correct_iff Digest.hasher _ _ (by decide)).mpr ⟨by decide, by decide⟩

def tooMany : List (ChildEntry Digest) :=
  (List.range (bulkLimit + 1)).map fun i => sampleEntry (List.replicate i 'a')

lemma tooMany_names : (tooMany.map name).Nodup := by
  rw [tooMany, map_map]
  refine List.Nodup.map (fun i j h => ?_) nodup_range
  simpa [sampleEntry] using congrArg List.length h

theorem btreeFromEntries_overflow :
    (tooMany.map ChildEntry.name).Nodup ∧ (∀ c ∈ tooMany, c.Encodable) ∧
      ¬ BulkCorrect Digest.hasher (Engine.empty fun _ => 0) tooMany := by
  refine ⟨tooMany_names, ?_, fun h => ?_⟩
  · refine forall_mem_map.mpr fun i hi => ⟨?_, by simp [sampleEntry, utf8Len, u16Max], by simp [sampleEntry]⟩
    have hi' : i < 3121 := mem_range.mp hi
    have hlen : utf8Len (List.replicate i 'a') = i := by simp [utf8Len, show Char.utf8Size 'a' = 1 by decide]
    change utf8Len (List.replicate i 'a') ≤ 65535
    omega
  · obtain ⟨root, e', hbuild, _, hlist, _⟩ := h
    obtain ⟨listed, hlisted, _⟩ := hlist false
    refine listFrom_broken Digest.hasher (btreeFromSorted_broken Digest.hasher ?_ hbuild) false _ listed hlisted
    rw [length_insertionSort, tooMany, length_map, length_range]
    exact Nat.lt_succ_self _

end AeorDb.BTree
