import AeorDb.BTree.Sizes

/-! B-tree updates as updates of a map from names to entries. -/

namespace AeorDb.BTree

open Store Library SearchTree Digest List Function Result

variable {H : Type}

abbrev EntryMap (H : Type) := Str → Option (ChildEntry H)

inductive TreeOp (H : Type) where
  | insert (entry : ChildEntry H)
  | delete (name : Str)

namespace TreeOp

def run (hs : Hasher H) [DecidableEq H] : TreeOp H → Option H → EngineM H (Option H)
  | .insert c, none => do
    let (root, _) ← btreeInsertWithData hs (.leaf []) c
    pure (some root)
  | .insert c, some root => some <$> btreeInsert hs root c
  | .delete _, none => pure none
  | .delete name, some root => btreeDelete hs root name

def effect : TreeOp H → EntryMap H → EntryMap H
  | .insert c, m => Function.update m c.name (some c)
  | .delete name, m => Function.update m name none

end TreeOp

def runOps (hs : Hasher H) [DecidableEq H] (ops : List (TreeOp H)) (root : Option H) : EngineM H (Option H) :=
  ops.foldlM (fun root op => op.run hs root) root

def WellFormed (hs : Hasher H) (e : Engine H) (root : H) : Prop := (∃ n es, Tree hs e n root es) ∧ Bounded hs e root

def Reads (es : List (ChildEntry H)) (m : EntryMap H) : Prop := ∀ name c, m name = some c ↔ c ∈ es ∧ c.name = name

structure Stores (hs : Hasher H) (e : Engine H) (root : H) (m : EntryMap H) : Prop where
  wellFormed : WellFormed hs e root
  listed : ∃ es, (∀ includeDeleted, btreeList e root includeDeleted = .ok es) ∧ SortedList.Sorted ChildEntry.name es ∧ Reads es m
  lookup_eq : ∀ name includeDeleted, btreeLookup e root name includeDeleted = .ok (m name)

def Implements (hs : Hasher H) (e : Engine H) : Option H → EntryMap H → Prop
  | none, m => m = fun _ => none
  | some root, m => Stores hs e root m

lemma Reads.updated {es : List (ChildEntry H)} {m : EntryMap H} (h : Reads es m) (c : ChildEntry H) :
    Reads (SortedList.updated ChildEntry.name es c) (Function.update m c.name (some c)) := by
  intro name x
  rw [SortedList.mem_updated]
  by_cases hname : name = c.name
  · subst hname
    rw [update_self]
    constructor
    · rintro ⟨⟩
      exact ⟨Or.inl rfl, rfl⟩
    · rintro ⟨rfl | ⟨_, hne⟩, heq⟩
      · rfl
      · exact absurd heq hne
  · rw [update_of_ne hname, h]
    constructor
    · rintro ⟨hx, rfl⟩
      exact ⟨Or.inr ⟨hx, hname⟩, rfl⟩
    · rintro ⟨rfl | ⟨hx, _⟩, rfl⟩
      · exact absurd rfl hname
      · exact ⟨hx, rfl⟩

lemma Reads.without {es : List (ChildEntry H)} {m : EntryMap H} (h : Reads es m) (name : Str) :
    Reads (without es name) (Function.update m name none) := by
  intro name' x
  rw [BTree.without, mem_filter, decide_eq_true_eq]
  by_cases hname : name' = name
  · subst hname
    rw [update_self]
    constructor
    · rintro ⟨⟩
    · rintro ⟨⟨_, hne⟩, heq⟩
      exact absurd heq hne
  · rw [update_of_ne hname, h]
    constructor
    · rintro ⟨hx, rfl⟩
      exact ⟨⟨hx, hname⟩, rfl⟩
    · rintro ⟨⟨hx, _⟩, rfl⟩
      exact ⟨hx, rfl⟩

variable {m : EntryMap H}

lemma Reads.eq_none (h : Reads [] m) : m = fun _ => none := by
  funext name
  cases hm : m name with
  | none => rfl
  | some c => exact absurd ((h name c).mp hm).1 not_mem_nil

lemma Reads.find? {es : List (ChildEntry H)} (h : Reads es m) (hsorted : SortedList.Sorted ChildEntry.name es) (name : Str) :
    es.find? (·.name = name) = m name := by
  apply Option.ext
  intro c
  rw [SortedList.find?_eq_some_iff hsorted.nodup_keys name _ (by simp)]
  exact (h name c).symm

section

variable {hs : Hasher H} {e : Engine H} {root : H} {m : EntryMap H}

lemma stores_of_tree {n : ℕ} {es : List (ChildEntry H)} (h : Tree hs e n root es) (hb : Bounded hs e root) (hr : Reads es m) :
    Stores hs e root m := by
  refine ⟨⟨⟨n, es, h⟩, hb⟩, ⟨es, fun b => btreeList_eq b h, h.sorted, hr⟩, fun name b => ?_⟩
  rw [btreeLookup_eq b name h, hr.find? h.sorted]

lemma Stores.tree (h : Stores hs e root m) : ∃ n es, Tree hs e n root es ∧ Reads es m := by
  obtain ⟨n, es, ht⟩ := h.wellFormed.1
  obtain ⟨es', hlist, _, hr⟩ := h.listed
  obtain rfl : es = es' := Except.ok.inj ((btreeList_eq false ht).symm.trans (hlist false))
  exact ⟨n, es, ht, hr⟩

lemma WellFormed.stores (h : WellFormed hs e root) : ∃ m, Stores hs e root m := by
  obtain ⟨⟨n, es, ht⟩, hb⟩ := h
  refine ⟨fun name => es.find? (·.name = name), stores_of_tree ht hb fun name c => ?_⟩
  exact SortedList.find?_eq_some_iff ht.sorted.nodup_keys name (·.name = name) (by simp) c

end

section

variable [DecidableEq H] {hs : Hasher H} {e e' : Engine H} {root root' : Option H} {c : ChildEntry H}

lemma insert_run (h : Implements hs e root m) (hw : Writable c) :
    ∃ root' e', (TreeOp.insert c).run hs root e = .ok (some root') e' ∧ Stores hs e' root' (Function.update m c.name (some c.stored)) := by
  cases root with
  | none =>
    obtain ⟨data, nodes, hins, htree⟩ := btreeInsertWithData_nil hs e hw
    have hsmall : Small hs e (.leaf []) := ⟨Nat.zero_le _, by simp [BTreeNode.subtrees]⟩
    refine ⟨_, _, estate_bind_of_ok hins, stores_of_tree htree (btreeInsertWithData_bounded hsmall hins) ?_⟩
    have hnil : Reads [] m := by simp [Reads, show m = fun _ => none from h]
    exact hnil.updated c.stored
  | some root =>
    obtain ⟨n, es, ht, hr⟩ := Stores.tree h
    obtain ⟨node, rfl, hlive, _⟩ := ht.root_eq
    obtain ⟨data, nodes, hins, htree⟩ := btreeInsertWithData_spec ht hw
    have hbounded := btreeInsertWithData_bounded h.wellFormed.2.live_small.2 hins
    refine ⟨_, _, ?_, stores_of_tree htree hbounded (hr.updated c.stored)⟩
    exact estate_bind_of_ok ((btreeInsert_iff hlive).mpr ⟨data, hins⟩)

lemma writable_of_insert_run (h : Implements hs e root m) (hrun : (TreeOp.insert c).run hs root e = .ok root' e') :
    Writable c := by
  cases root with
  | none =>
    obtain ⟨out, t, hins, _⟩ := Result.estate_bind_eq_ok.mp hrun
    exact writable_of_btreeInsertWithData hins
  | some root =>
    obtain ⟨out, t, hins, _⟩ := Result.estate_bind_eq_ok.mp hrun
    obtain ⟨n, es, ht, _⟩ := Stores.tree h
    obtain ⟨node, rfl, hlive, _⟩ := ht.root_eq
    obtain ⟨data, hins⟩ := (btreeInsert_iff hlive).mp hins
    exact writable_of_btreeInsertWithData hins

lemma delete_run (h : Implements hs e root m) (name : Str) :
    ∃ root' e', (TreeOp.delete name).run hs root e = .ok root' e' ∧ Implements hs e' root' ((TreeOp.delete name).effect m) := by
  cases root with
  | none =>
    obtain rfl : m = fun _ => none := h
    exact ⟨none, e, rfl, update_eq_self name _⟩
  | some root =>
    obtain ⟨n, es, ht, hr⟩ := Stores.tree h
    obtain ⟨result, nodes, hdelete, hresult⟩ := btreeDelete_leaves ht name
    refine ⟨result, _, hdelete, ?_⟩
    cases result with
    | none =>
      have hnil : without es name = [] := hresult
      have hreads := hr.without name
      rw [hnil] at hreads
      exact hreads.eq_none
    | some root' => exact stores_of_tree hresult.2 (btreeDelete_bounded h.wellFormed.2 hdelete root' rfl) (hr.without name)

def TreeOp.Faithful : TreeOp H → Prop
  | .insert c => c.Encodable
  | .delete _ => True

lemma step_iff (h : Implements hs e root m) (op : TreeOp H) :
    (∃ root' e', op.run hs root e = .ok root' e' ∧ Implements hs e' root' (op.effect m)) ↔ op.Faithful := by
  cases op with
  | delete name => exact iff_of_true (delete_run h name) trivial
  | insert c =>
    constructor
    · rintro ⟨root', e', hrun, himp⟩
      have hw := writable_of_insert_run h hrun
      obtain ⟨root'', e'', hrun', hstores⟩ := insert_run h hw
      cases hrun.symm.trans hrun'
      have hread := (hstores.lookup_eq c.name false).symm.trans (himp.lookup_eq c.name false)
      rw [TreeOp.effect, update_self, update_self] at hread
      have heq : c.stored = c := Option.some.inj (Except.ok.inj hread)
      rw [TreeOp.Faithful, ← heq]
      exact c.encodable_stored hw.name_fits hw.contentType_fits
    · intro henc
      obtain ⟨root', e', hrun, hstores⟩ := insert_run h (writable_of_encodable henc)
      refine ⟨some root', e', hrun, ?_⟩
      rwa [c.stored_eq_self henc.contentType_ne] at hstores

end

variable [DecidableEq H] {hs : Hasher H}

lemma runOps_cons (op : TreeOp H) (ops : List (TreeOp H)) (root : Option H) :
    runOps hs (op :: ops) root = op.run hs root >>= runOps hs ops := foldlM_cons

def FollowsMap (hs : Hasher H) (e : Engine H) (root : Option H) (m : EntryMap H) (ops : List (TreeOp H)) : Prop :=
  ∀ done, done <+: ops → ∃ root' e', runOps hs done root e = .ok root' e' ∧
    Implements hs e' root' (done.foldl (fun m op => op.effect m) m)

lemma followsMap_cons {e e' : Engine H} {root root' : Option H} (h : Implements hs e root m) {op : TreeOp H}
    (hrun : op.run hs root e = .ok root' e') (ops : List (TreeOp H)) :
    FollowsMap hs e root m (op :: ops) ↔ FollowsMap hs e' root' (op.effect m) ops := by
  have hcons : ∀ done, runOps hs (op :: done) root e = runOps hs done root' e' := by
    intro done
    rw [runOps_cons, estate_bind_of_ok hrun]
  constructor
  · intro hfollow done hdone
    obtain ⟨r, t, hr, himp⟩ := hfollow (op :: done) (cons_prefix_cons.mpr ⟨rfl, hdone⟩)
    exact ⟨r, t, (hcons done).symm.trans hr, himp⟩
  · intro hfollow done hdone
    cases done with
    | nil => exact ⟨root, e, rfl, h⟩
    | cons op' done =>
      obtain ⟨rfl, hrest⟩ := cons_prefix_cons.mp hdone
      obtain ⟨r, t, hr, himp⟩ := hfollow done hrest
      exact ⟨r, t, (hcons done).trans hr, himp⟩

lemma followsMap_iff {e : Engine H} {root : Option H} (h : Implements hs e root m) (ops : List (TreeOp H)) :
    FollowsMap hs e root m ops ↔ ∀ op ∈ ops, op.Faithful := by
  induction ops generalizing e root m with
  | nil =>
    refine iff_of_true ?_ (by simp)
    intro done hdone
    obtain rfl := prefix_nil.mp hdone
    exact ⟨root, e, rfl, h⟩
  | cons op ops ih =>
    rw [forall_mem_cons, ← step_iff h op]
    constructor
    · intro hfollow
      obtain ⟨root', e', hrun, himp⟩ := hfollow [op] (cons_prefix_cons.mpr ⟨rfl, List.nil_prefix⟩)
      have hrun' : op.run hs root e = .ok root' e' := by
        obtain ⟨r, t, hop, hnil⟩ := Result.estate_bind_eq_ok.mp hrun
        obtain ⟨rfl, rfl⟩ := Result.estate_pure_eq_ok.mp hnil
        exact hop
      exact ⟨⟨root', e', hrun', himp⟩, (ih himp).mp ((followsMap_cons h hrun' ops).mp hfollow)⟩
    · rintro ⟨⟨root', e', hrun, himp⟩, hrest⟩
      exact (followsMap_cons h hrun ops).mpr ((ih himp).mpr hrest)

def blankTyped : ChildEntry Digest :=
  ⟨.fileRecord, hasher.btreeHash (.leaf []), 0, 0, 0, ['a'], some [], 0, 0⟩

def readAfter (ops : List (TreeOp Digest)) (name : Str) : Option (Option (ChildEntry Digest)) :=
  match runOps hasher ops none (Engine.empty fun _ => 0) with
  | .ok (some root) e => (btreeLookup e root name false).toOption
  | _ => none

end AeorDb.BTree
