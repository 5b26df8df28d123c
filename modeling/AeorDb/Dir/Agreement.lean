import AeorDb.Dir.Content

/-! States in which the path keys of directories agree with the tree below HEAD. -/

namespace AeorDb.Dir

open Store BTree Library Trace Engine

variable {H : Type} {hs : Hasher H} {e e' : Engine H}

def Clean (segments : List Str) : Prop := ∀ s ∈ segments, CleanName s

instance : DecidablePred Clean := fun segments => inferInstanceAs (Decidable (∀ s ∈ segments, CleanName s))

inductive Keyed (hs : Hasher H) (e : Engine H) (segments : List Str) : H → Prop where
  | link {h : H} : e.get (hs.directoryPathHash (pathOf segments)) = some (.link h) → Keyed hs e segments h
  | inline : e.get (hs.directoryPathHash (pathOf segments)) = some (.dir (.flat [])) →
      e.get (hs.directoryContentHash (.flat [])) = some (.dir (.flat [])) → Keyed hs e segments (hs.directoryContentHash (.flat []))

/-- Every live path key stands for a stored directory, the path keys of its subdirectories stand for
what its entries say, and HEAD is what the root's path key says. System directories are not in the tree. -/
structure Consistent (hs : Hasher H) (e : Engine H) : Prop where
  dirs : ∀ segments, Clean segments → e.hasEntry (hs.directoryPathHash (pathOf segments)) = true →
    ∃ h es, Keyed hs e segments h ∧ DirAt hs e h es
  sub : ∀ segments h es c, Clean segments → Keyed hs e segments h → DirAt hs e h es → c ∈ es →
    c.entryType = .directoryIndex → CleanName c.name ∧ Keyed hs e (segments ++ [c.name]) c.hash
  root : ∀ h, e.head = some h → Keyed hs e [] h
  hidden : ∀ h es c, Keyed hs e [] h → DirAt hs e h es → c ∈ es → c.entryType = .directoryIndex →
    isSystemPath (pathOf [c.name]) = false

section

variable {segments : List Str}

lemma Keyed.hasEntry {h : H} (hk : Keyed hs e segments h) : e.hasEntry (hs.directoryPathHash (pathOf segments)) = true := by
  rw [hasEntry_iff]
  cases hk with
  | link hget => exact ⟨_, hget⟩
  | inline hget _ => exact ⟨_, hget⟩

lemma Keyed.det {h h' : H} (hk : Keyed hs e segments h) (hk' : Keyed hs e segments h') : h = h' := by
  cases hk with
  | link hget =>
    cases hk' with
    | link hget' => simpa using hget.symm.trans hget'
    | inline hget' _ => simp [hget] at hget'
  | inline hget _ =>
    cases hk' with
    | link hget' => simp [hget] at hget'
    | inline _ _ => rfl

lemma Keyed.transfer {h : H} (hk : Keyed hs e segments h) (hg : ContentGrows hs e e')
    (hkey : e'.get (hs.directoryPathHash (pathOf segments)) = e.get (hs.directoryPathHash (pathOf segments))) : Keyed hs e' segments h := by
  cases hk with
  | link hget => exact .link (by rwa [hkey])
  | inline hget hcontent => exact .inline (by rwa [hkey]) (hg.flat [] hcontent)

lemma directoryPathHash_inj {p q : Str} : hs.directoryPathHash p = hs.directoryPathHash q ↔ p = q := by
  simp [Hasher.directoryPathHash]

lemma clean_append {s : Str} : Clean (segments ++ [s]) ↔ Clean segments ∧ CleanName s := by
  simp [Clean, or_imp, forall_and]

end

section

variable {h : H} {segments rest : List Str}

lemma DirAt.walk_cons {es : List (ChildEntry H)} (hd : DirAt hs e h es) (s : Str) (rest : List Str) : walk e h (s :: rest) =
      match es.find? (·.name = s) with
      | none => .ok none
      | some c => if c.entryType = .directoryIndex then walk e c.hash rest else .ok none := by
  obtain ⟨v, hget, hchildren⟩ := hd.childrenOf_eq
  by_cases hv : v = .dir (.flat [])
  · subst hv
    cases hchildren
    simp [walk, hget]
  · have hstep : walk e h (s :: rest) = (do
        let children ← childrenOf e v
        match children.find? (·.name = s) with
        | none => .ok none
        | some c => if c.entryType = .directoryIndex then walk e c.hash rest else .ok none) := by
      rw [walk, hget]
      split
      · next heq => cases heq
      · next heq => exact absurd (Option.some.inj heq) hv
      · next heq => cases heq; rfl
    rw [hstep, hchildren]
    rfl

variable (hc : Consistent hs e)

include hc

lemma Consistent.dirAt {segments : List Str} (hs' : Clean segments) (hk : Keyed hs e segments h) : ∃ es, DirAt hs e h es := by
  obtain ⟨h', es, hk', hd⟩ := hc.dirs segments hs' hk.hasEntry
  exact ⟨es, hk.det hk' ▸ hd⟩

lemma Consistent.walk_keyed (hs' : Clean segments) (hk : Keyed hs e segments h) :
    ∃ o, walk e h rest = .ok o ∧ ∀ t, o = some t → Keyed hs e (segments ++ rest) t := by
  induction rest generalizing segments h with
  | nil => exact ⟨some h, rfl, by rintro t ⟨⟩; simpa using hk⟩
  | cons s rest ih =>
    obtain ⟨es, hd⟩ := hc.dirAt hs' hk
    rw [hd.walk_cons]
    cases hfind : es.find? (·.name = s) with
    | none => exact ⟨none, rfl, by simp⟩
    | some c =>
      have hname : c.name = s := by simpa using List.find?_some hfind
      by_cases hdir : c.entryType = .directoryIndex
      · obtain ⟨hclean, hsub⟩ := hc.sub segments h es c hs' hk hd (List.mem_of_find?_eq_some hfind) hdir
        rw [hname] at hclean hsub
        obtain ⟨o, hwalk, ho⟩ := ih (clean_append.mpr ⟨hs', hclean⟩) hsub
        exact ⟨o, by simp [hdir, hwalk], by simpa using ho⟩
      · exact ⟨none, by simp [hdir], by simp⟩

lemma Consistent.walk_grows (hg : ContentGrows hs e e') (hs' : Clean segments)
    (hk : Keyed hs e segments h) : walk e' h rest = walk e h rest := by
  induction rest generalizing segments h with
  | nil => rfl
  | cons s rest ih =>
    obtain ⟨es, hd⟩ := hc.dirAt hs' hk
    rw [hd.walk_cons, (hd.mono hg).walk_cons]
    cases hfind : es.find? (·.name = s) with
    | none => rfl
    | some c =>
      by_cases hdir : c.entryType = .directoryIndex
      · obtain ⟨hclean, hsub⟩ := hc.sub segments h es c hs' hk hd (List.mem_of_find?_eq_some hfind) hdir
        simp only [hdir, if_true, ih (clean_append.mpr ⟨hs', hclean⟩) hsub]
      · simp only [hdir, if_false]

end

section

variable [DecidableEq H]

def Fresh (hs : Hasher H) (e : Engine H) (segments : List Str) : Prop :=
  ∀ head, e.head = some head → ∃ o, walk e head segments = .ok o ∧ ∀ t, o = some t → Keyed hs e segments t

variable {segments : List Str}

lemma Fresh.recover_eq (hf : Fresh hs e segments) (hs' : Clean segments) :
    recoverDirectoryDataIfStale e (pathOf segments) (hs.directoryPathHash (pathOf segments)) = .ok none := by
  unfold recoverDirectoryDataIfStale
  split
  · next target head hget hhead =>
    obtain ⟨o, hw, ho⟩ := hf head hhead
    rw [normalizePath_pathOf hs', splitSegments_pathOf hs', hw]
    cases o with
    | none => rfl
    | some t =>
      obtain rfl : target = t := Keyed.det (.link hget) (ho t rfl)
      simp [bind, Except.bind]
  · rfl

lemma Fresh.existingData_eq (hf : Fresh hs e segments) (hs' : Clean segments) :
    existingData hs e (pathOf segments) = .ok (readDirectoryData e (hs.directoryPathHash (pathOf segments))) := by
  rw [existingData, hf.recover_eq hs']
  rfl

variable {es : List (ChildEntry H)}

omit [DecidableEq H] in
lemma readDirectoryData_keyed {h : H} (hk : Keyed hs e segments h) (hd : DirAt hs e h es) :
    ∃ v, readDirectoryData e (hs.directoryPathHash (pathOf segments)) = some v ∧ e.get h = some v := by
  cases hk with
  | link hget =>
    obtain ⟨v, hv, _⟩ := hd.childrenOf_eq
    exact ⟨v, by simp [readDirectoryData, hget, hv], hv⟩
  | inline hget hcontent => exact ⟨_, by simp [readDirectoryData, hget], hcontent⟩

lemma Fresh.listDirectory_eq {path : Str} {h : H} (hf : Fresh hs e segments)
    (hs' : Clean segments) (hpath : normalizePath path = pathOf segments) (hk : Keyed hs e segments h) (hd : DirAt hs e h es) :
    listDirectory hs path e = .ok (es.filter (isLiveChild hs e (pathOf segments))) e := by
  obtain ⟨v, hread, hget⟩ := readDirectoryData_keyed hk hd
  obtain ⟨v', hget', hchildren⟩ := hd.childrenOf_eq
  obtain rfl : v = v' := Option.some.inj (hget.symm.trans hget')
  simp only [listDirectory, hpath, hf.recover_eq hs', hread, EngineM.query, bind, EStateM.bind, listData, hchildren]

end

def NotContent (hs : Hasher H) (k : H) : Prop := (∀ es, k ≠ hs.directoryContentHash (.flat es)) ∧ ∀ n, k ≠ hs.btreeHash n

lemma notContent_text (s : Str) : NotContent hs (hs.compute (.text s)) := by
  simp [NotContent, Hasher.directoryContentHash, Hasher.btreeHash]

lemma notContent_directoryPathHash (path : Str) : NotContent hs (hs.directoryPathHash path) := notContent_text _

structure Grown (hs : Hasher H) (e e' : Engine H) : Prop where
  content : ContentGrows hs e e'
  other : ∀ k, NotContent hs k → e'.get k = e.get k
  head : e'.head = e.head

variable {segments : List Str} {h : H}

lemma grown_tick : Grown hs e e.tick := ⟨⟨fun _ h => h, fun _ h => h⟩, fun _ _ => rfl, rfl⟩

lemma grown_of_contentOnly [DecidableEq H] (hran : Ran Engine.act (ContentOnly hs) e e') : Grown hs e e' := by
  refine ⟨keepsContent_contentOnly.grows hran, fun k hk => ?_, head_of_contentOnly hran⟩
  refine get_eq_of_ran hran (fun t v ha => ?_) (fun ha => nomatch ha)
  generalize hk' : k = k' at ha
  cases ha with
  | flat es => exact hk.1 es hk'
  | node n => exact hk.2 n hk'

structure Near (hs : Hasher H) (e₀ e : Engine H) (n : ℕ) : Prop where
  content : ContentGrows hs e₀ e
  keys : ∀ q, Clean q → q.length < n → e.get (hs.directoryPathHash (pathOf q)) = e₀.get (hs.directoryPathHash (pathOf q))
  head : e.head = e₀.head

variable {e₀ : Engine H} {n m : ℕ}

section

variable (hn : Near hs e₀ e n)
include hn

lemma Near.mono (h : m ≤ n) : Near hs e₀ e m :=
  ⟨hn.content, fun q hq hlt => hn.keys q hq (hlt.trans_le h), hn.head⟩

lemma Near.grown (hg : Grown hs e e') : Near hs e₀ e' n :=
  ⟨hn.content.trans hg.content, fun q hq hlt => (hg.other _ (notContent_text _)).trans (hn.keys q hq hlt), hg.head.trans hn.head⟩

lemma Near.hasEntry (hclean : Clean segments) (hlt : segments.length < n) :
    e.hasEntry (hs.directoryPathHash (pathOf segments)) = e₀.hasEntry (hs.directoryPathHash (pathOf segments)) :=
  hasEntry_congr (hn.keys segments hclean hlt)

lemma Near.keyed (hclean : Clean segments) (hlt : segments.length < n) (hk : Keyed hs e₀ segments h) :
    Keyed hs e segments h := hk.transfer hn.content (hn.keys segments hclean hlt)

end

lemma Consistent.fresh_of_eq (hc : Consistent hs e) (hg : ContentGrows hs e e') (hhead : e'.head = e.head)
    (hkey : e'.get (hs.directoryPathHash (pathOf segments)) = e.get (hs.directoryPathHash (pathOf segments))) : Fresh hs e' segments := by
  intro head hhead'
  have hroot := hc.root head (hhead ▸ hhead')
  obtain ⟨o, hwalk, ho⟩ := hc.walk_keyed (by simp [Clean]) hroot
  refine ⟨o, ?_, fun t ht => (ho t ht).transfer hg hkey⟩
  rw [hc.walk_grows hg (by simp [Clean]) hroot, hwalk]

lemma Consistent.fresh (hc : Consistent hs e) (segments : List Str) : Fresh hs e segments := hc.fresh_of_eq .refl rfl rfl

lemma Consistent.fresh_near (hc : Consistent hs e₀) (hn : Near hs e₀ e n) (hclean : Clean segments)
    (hlt : segments.length < n) : Fresh hs e segments := hc.fresh_of_eq hn.content hn.head (hn.keys segments hclean hlt)

end AeorDb.Dir
