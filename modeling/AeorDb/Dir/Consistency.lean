import AeorDb.Dir.PublishSpec

/-! Publishing keeps path keys and HEAD's tree in agreement. -/

namespace AeorDb.Dir

open Store BTree Library Trace List Engine

variable {H : Type} {hs : Hasher H} {e₀ e : Engine H} {segments q : List Str} {c : ChildEntry H}

def Level (hs : Hasher H) (e₀ e : Engine H) (segments : List Str) (c : ChildEntry H) (q : List Str) (s : Str) : Prop :=
  ∃ d h es es', RewrittenAt hs e₀ e q d h es es' ∧
    ((q ++ [s] = segments ∧ d = c) ∨ ∃ h', IsDirectoryEntry d s h' ∧ Keyed hs e (q ++ [s]) h')

structure RootKept (hs : Hasher H) (e₀ e : Engine H) (s : Str) : Prop where
  system : isSystemPath (pathOf [s]) = true
  key : e.get (hs.directoryPathHash (pathOf [])) = e₀.get (hs.directoryPathHash (pathOf []))
  head : e.head = e₀.head

lemma prefix_singleton {s t : Str} (h : q ++ [t] <+: [s]) : q = [] ∧ t = s := by
  obtain ⟨r, hr⟩ := h
  rcases q with _ | ⟨a, q⟩
  · simp at hr
    exact ⟨rfl, hr.1⟩
  · simp at hr

lemma prefix_cases (h : q <+: segments) : q = segments ∨ ∃ s, q ++ [s] <+: segments := by
  obtain ⟨r, rfl⟩ := h
  rcases r with _ | ⟨s, r⟩
  · simp
  · exact Or.inr ⟨s, r, by simp⟩

lemma Propagated.level (hp : Propagated hs e₀ e segments c) {s : Str} (hpre : q ++ [s] <+: segments) :
    Level hs e₀ e segments c q s ∨ q = [] ∧ RootKept hs e₀ e s := by
  induction hp with
  | system hsys hkey hhead =>
    obtain ⟨rfl, rfl⟩ := prefix_singleton hpre
    exact Or.inr ⟨rfl, hsys, hkey, hhead⟩
  | root _ hrw _ =>
    obtain ⟨rfl, rfl⟩ := prefix_singleton hpre
    exact Or.inl ⟨_, _, _, _, hrw, Or.inl ⟨rfl, rfl⟩⟩
  | @step segments t s' c d h es es' hrw hd hp ih =>
    rcases prefix_concat_iff.mp hpre with heq | hpre
    · obtain ⟨rfl, hs'⟩ := append_inj' heq rfl
      exact Or.inl ⟨_, _, _, _, hrw, Or.inl ⟨heq, rfl⟩⟩
    · rcases ih hpre with ⟨d', h', fs, fs', hrw', ⟨heq, rfl⟩ | hd'⟩ | hkept
      · obtain ⟨rfl, hs'⟩ := append_inj' heq rfl
        obtain rfl : s = t := by simpa using hs'
        exact Or.inl ⟨_, _, _, _, hrw', Or.inr ⟨h, hd, .link hrw.key⟩⟩
      · exact Or.inl ⟨_, _, _, _, hrw', Or.inr hd'⟩
      · exact Or.inr hkept

lemma Propagated.root_cases (hp : Propagated hs e₀ e segments c) : ∃ s rest, segments = s :: rest ∧
    (RootKept hs e₀ e s ∨ isSystemPath (pathOf [s]) = false ∧ ∃ h, e.head = some h ∧ Keyed hs e [] h) := by
  induction hp with
  | system hsys hkey hhead => exact ⟨_, _, rfl, Or.inl ⟨hsys, hkey, hhead⟩⟩
  | root hsys hrw hhead => exact ⟨_, _, rfl, Or.inr ⟨hsys, _, hhead, .link hrw.key⟩⟩
  | step hrw hd hp ih =>
    obtain ⟨s, rest, hseg, hroot⟩ := ih
    exact ⟨s, rest ++ [_], by rw [hseg]; rfl, hroot⟩

structure Publication (hs : Hasher H) (e₀ e : Engine H) (segments : List Str) (c : ChildEntry H) : Prop where
  content : ContentGrows hs e₀ e
  frame : ∀ q, Clean q → ¬ q <+: segments →
    e.get (hs.directoryPathHash (pathOf q)) = e₀.get (hs.directoryPathHash (pathOf q))
  propagated : Propagated hs e₀ e segments c
  name : ∃ pre, segments = pre ++ [c.name]
  clean : Clean segments
  self : (e.get (hs.directoryPathHash (pathOf segments)) = e₀.get (hs.directoryPathHash (pathOf segments)) ∧
      c.entryType ≠ .directoryIndex) ∨ Keyed hs e segments c.hash ∧ DirAt hs e c.hash []

structure Stepped (hs : Hasher H) (e₀ e : Engine H) (q : List Str) (s : Str) (h : H) (es es' : List (ChildEntry H))
    (d : ChildEntry H) : Prop where
  keyed : Keyed hs e q h
  dir : DirAt hs e h es'
  old : OldAt hs e₀ q es
  upserted : Upserted es d es'
  name : d.name = s
  sub : d.entryType = .directoryIndex → Keyed hs e (q ++ [s]) d.hash

namespace Consistent

variable {h : H} {es : List (ChildEntry H)}

lemma kept (hc : Consistent hs e₀) (hclean : Clean q) (hg : ContentGrows hs e₀ e)
    (hkey : e.get (hs.directoryPathHash (pathOf q)) = e₀.get (hs.directoryPathHash (pathOf q)))
    (hlive : e.hasEntry (hs.directoryPathHash (pathOf q)) = true) :
    ∃ h es, Keyed hs e₀ q h ∧ DirAt hs e₀ h es ∧ Keyed hs e q h ∧ DirAt hs e h es := by
  rw [hasEntry_congr hkey] at hlive
  obtain ⟨h, es, hk, hd⟩ := hc.dirs q hclean hlive
  exact ⟨h, es, hk, hd, hk.transfer hg hkey, hd.mono hg⟩

lemma kept_dir (hc : Consistent hs e₀) (hclean : Clean q) (hg : ContentGrows hs e₀ e)
    (hkey : e.get (hs.directoryPathHash (pathOf q)) = e₀.get (hs.directoryPathHash (pathOf q)))
    (hk : Keyed hs e q h) (hd : DirAt hs e h es) : Keyed hs e₀ q h ∧ DirAt hs e₀ h es := by
  obtain ⟨h', es', hk₀, hd₀, hk', hd'⟩ := hc.kept hclean hg hkey hk.hasEntry
  obtain rfl := hk.det hk'
  obtain rfl := hd.det hd'
  exact ⟨hk₀, hd₀⟩

end Consistent

namespace Publication

variable {h : H} {es : List (ChildEntry H)} {x : ChildEntry H} (hp : Publication hs e₀ e segments c)

include hp

lemma level_cases {s : Str} (hpre : q ++ [s] <+: segments) :
    (∃ h es es' d, Stepped hs e₀ e q s h es es' d) ∨ q = [] ∧ RootKept hs e₀ e s := by
  rcases hp.propagated.level hpre with ⟨d, h, es, es', hrw, hd⟩ | hkept
  · refine Or.inl ⟨h, es, es', d.stored, .link hrw.key, hrw.dir, hrw.old, hrw.upserted, ?_, ?_⟩
    · rcases hd with ⟨heq, rfl⟩ | ⟨h', hd, _⟩
      · obtain ⟨pre, hname⟩ := hp.name
        simpa using (append_inj' (heq.trans hname) rfl).2.symm
      · exact hd.name_eq
    · intro hdir
      rcases hd with ⟨heq, rfl⟩ | ⟨h', hd, hk⟩
      · exact heq ▸ (hp.self.resolve_left fun hne => hne.2 hdir).1
      · rw [hd.stored_eq, hd.hash_eq]
        exact hk
  · exact Or.inr hkept

section

variable (hc : Consistent hs e₀) (hclean : Clean q)
include hc hclean

lemma dirs (hlive : e.hasEntry (hs.directoryPathHash (pathOf q)) = true) :
    ∃ h es, Keyed hs e q h ∧ DirAt hs e h es := by
  have hsame : e.get (hs.directoryPathHash (pathOf q)) = e₀.get (hs.directoryPathHash (pathOf q)) →
      ∃ h es, Keyed hs e q h ∧ DirAt hs e h es := fun hkey => by
    obtain ⟨h, es, _, _, hk, hd⟩ := hc.kept hclean hp.content hkey hlive
    exact ⟨h, es, hk, hd⟩
  by_cases hq : q <+: segments
  · rcases prefix_cases hq with rfl | ⟨s, hpre⟩
    · rcases hp.self with ⟨hkey, _⟩ | ⟨hk, hd⟩
      · exact hsame hkey
      · exact ⟨_, _, hk, hd⟩
    · rcases hp.level_cases hpre with ⟨h, es, es', d, hl⟩ | ⟨rfl, hkept⟩
      · exact ⟨h, es', hl.keyed, hl.dir⟩
      · exact hsame hkept.key
  · exact hsame (hp.frame q hclean hq)

lemma sub_off (hk : Keyed hs e₀ q h) (hd : DirAt hs e₀ h es) (hx : x ∈ es) (hdir : x.entryType = .directoryIndex) (hoff : ¬ q ++ [x.name] <+: segments) :
    CleanName x.name ∧ Keyed hs e (q ++ [x.name]) x.hash := by
  obtain ⟨hname, hsub⟩ := hc.sub q h es x hclean hk hd hx hdir
  exact ⟨hname, hsub.transfer hp.content (hp.frame _ (clean_append.mpr ⟨hclean, hname⟩) hoff)⟩

lemma sub (hk : Keyed hs e q h) (hd : DirAt hs e h es) (hx : x ∈ es) (hdir : x.entryType = .directoryIndex) : CleanName x.name ∧ Keyed hs e (q ++ [x.name]) x.hash := by
  have hsame : e.get (hs.directoryPathHash (pathOf q)) = e₀.get (hs.directoryPathHash (pathOf q)) →
      ¬ q ++ [x.name] <+: segments → CleanName x.name ∧ Keyed hs e (q ++ [x.name]) x.hash := fun hkey hoff => by
    obtain ⟨hk₀, hd₀⟩ := hc.kept_dir hclean hp.content hkey hk hd
    exact hp.sub_off hc hclean hk₀ hd₀ hx hdir hoff
  by_cases hq : q <+: segments
  · rcases prefix_cases hq with rfl | ⟨s, hpre⟩
    · rcases hp.self with ⟨hkey, _⟩ | ⟨hk', hd'⟩
      · refine hsame hkey fun hlong => ?_
        simpa using hlong.length_le
      · obtain rfl := hk.det hk'
        obtain rfl := hd.det hd'
        cases hx
    · rcases hp.level_cases hpre with ⟨h', fs, fs', d, hl⟩ | ⟨rfl, hkept⟩
      · obtain rfl := hk.det hl.keyed
        obtain rfl := hd.det hl.dir
        rcases (hl.upserted x).mp hx with rfl | ⟨hold, hne⟩
        · rw [hl.name]
          exact ⟨hp.clean s (hpre.subset (by simp)), hl.sub hdir⟩
        · rcases hl.old with ⟨h₀, hk₀, hd₀⟩ | ⟨_, rfl⟩
          · refine hp.sub_off hc hclean hk₀ hd₀ hold hdir fun hpre' => hne ?_
            have heq := prefix_of_prefix_length_le hpre' hpre (by simp)
            simpa [hl.name] using heq.eq_of_length (by simp)
          · cases hold
      · refine hsame hkept.key fun hpre' => ?_
        obtain ⟨hk₀, hd₀⟩ := hc.kept_dir hclean hp.content hkept.key hk hd
        have hvis := hc.hidden h es x hk₀ hd₀ hx hdir
        have heq := prefix_of_prefix_length_le hpre' hpre (by simp)
        obtain rfl : x.name = s := by simpa using heq.eq_of_length (by simp)
        simp [hkept.system] at hvis
  · exact hsame (hp.frame q hclean hq) fun hpre' => hq ((prefix_append q _).trans hpre')

end

lemma hidden (hc : Consistent hs e₀) (hk : Keyed hs e [] h) (hd : DirAt hs e h es) (hx : x ∈ es)
    (hdir : x.entryType = .directoryIndex) : isSystemPath (pathOf [x.name]) = false := by
  have hnil : Clean [] := by simp [Clean]
  obtain ⟨s, rest, rfl, hkept | ⟨hvis, _⟩⟩ := hp.propagated.root_cases
  · obtain ⟨hk₀, hd₀⟩ := hc.kept_dir hnil hp.content hkept.key hk hd
    exact hc.hidden h es x hk₀ hd₀ hx hdir
  · rcases hp.level_cases (q := []) ⟨rest, rfl⟩ with ⟨h', fs, fs', d, hl⟩ | ⟨_, hkept⟩
    · obtain rfl := hk.det hl.keyed
      obtain rfl := hd.det hl.dir
      rcases (hl.upserted x).mp hx with rfl | ⟨hold, _⟩
      · rwa [hl.name]
      · rcases hl.old with ⟨h₀, hk₀, hd₀⟩ | ⟨_, rfl⟩
        · exact hc.hidden h₀ fs x hk₀ hd₀ hold hdir
        · cases hold
    · simp [hkept.system] at hvis

theorem consistent (hc : Consistent hs e₀) : Consistent hs e where
  dirs _ hclean hlive := hp.dirs hc hclean hlive
  sub _ _ _ _ hclean hk hd hx hdir := hp.sub hc hclean hk hd hx hdir
  root h hhead := by
    obtain ⟨s, rest, rfl, hkept | ⟨_, h', hhead', hk⟩⟩ := hp.propagated.root_cases
    · exact (hc.root h (hkept.head ▸ hhead)).transfer hp.content hkept.key
    · obtain rfl : h = h' := Option.some.inj (hhead.symm.trans hhead')
      exact hk
  hidden _ _ _ hk hd hx hdir := hp.hidden hc hk hd hx hdir

end Publication

structure EmptyRoot (hs : Hasher H) (e : Engine H) : Prop where
  content : e.get (hs.directoryContentHash (.flat [])) = some (.dir (.flat []))
  keyed : Keyed hs e [] (hs.directoryContentHash (.flat []))
  only : ∀ path, e.hasEntry (hs.directoryPathHash path) = true → path = pathOf []
  head : ∀ h, e.head = some h → h = hs.directoryContentHash (.flat [])

namespace EmptyRoot

variable {e : Engine H} {h : H} {es : List (ChildEntry H)}

lemma dirAt (hr : EmptyRoot hs e) : DirAt hs e (hs.directoryContentHash (.flat [])) [] := .flat hr.content (by simp) (by simp)

lemma eq_nil (hr : EmptyRoot hs e) (hq : Clean q) (hk : Keyed hs e q h) : q = [] :=
  pathOf_inj hq (by simp) (hr.only _ hk.hasEntry)

lemma children_eq_nil (hr : EmptyRoot hs e) (hq : Clean q) (hk : Keyed hs e q h) (hd : DirAt hs e h es) : es = [] := by
  obtain rfl := hr.eq_nil hq hk
  obtain rfl := hk.det hr.keyed
  exact hd.det hr.dirAt

lemma consistent (hr : EmptyRoot hs e) : Consistent hs e where
  dirs q hq hlive := by
    obtain rfl : q = [] := pathOf_inj hq (by simp) (hr.only _ hlive)
    exact ⟨_, _, hr.keyed, hr.dirAt⟩
  sub q h es c hq hk hd hc := by
    rw [hr.children_eq_nil hq hk hd] at hc
    cases hc
  root h hhead := by
    rw [hr.head h hhead]
    exact hr.keyed
  hidden h es c hk hd hc := by
    rw [hr.children_eq_nil (by simp [Clean]) hk hd] at hc
    cases hc

lemma roomy (hr : EmptyRoot hs e) : Roomy hs e := by
  intro q es hq hk
  obtain rfl := hr.eq_nil hq hk
  have heq := hk.det hr.keyed
  simp only [Hasher.directoryContentHash, Hasher.compute_inj, Preimage.dirContent.injEq, DirData.flat.injEq] at heq
  rw [heq, length_nil]
  decide

end EmptyRoot

variable [DecidableEq H]

def rootOnly (hs : Hasher H) (clock : ℕ → ℤ) : Engine H := final (ensureRootDirectory hs (Engine.empty clock))

variable (hs) (clock : ℕ → ℤ)

lemma rootOnly_eq : rootOnly hs clock =
    (((Engine.empty clock).storeEntry .directoryIndex (hs.directoryPathHash ['/']) (.dir (.flat []))).storeEntry
      .directoryIndex (hs.directoryContentHash (.flat [])) (.dir (.flat []))).updateHead
        (some (hs.directoryContentHash (.flat []))) := rfl

lemma get_rootOnly (k : H) : (rootOnly hs clock).get k =
    if k = hs.directoryContentHash (.flat []) ∨ k = hs.directoryPathHash (pathOf []) then some (.dir (.flat [])) else none := by
  have hnone : (Engine.empty clock : Engine H).get k = none := rfl
  rw [rootOnly_eq, get_updateHead, get_storeEntry, get_storeEntry, hnone, ite_or]
  rfl

lemma root_of_live_rootOnly {path : Str} (h : (rootOnly hs clock).hasEntry (hs.directoryPathHash path) = true) : path = pathOf [] := by
  obtain ⟨v, hv⟩ := (hasEntry_iff _ _).mp h
  rw [get_rootOnly] at hv
  by_contra hne
  simp [directoryPathHash_inj, hne] at hv
  simp [Hasher.directoryPathHash, Hasher.directoryContentHash] at hv

lemma emptyRoot_rootOnly : EmptyRoot hs (rootOnly hs clock) where
  content := by simp [get_rootOnly]
  keyed := .inline (by simp [get_rootOnly]) (by simp [get_rootOnly])
  only _ := root_of_live_rootOnly hs clock
  head _ hhead := (Option.some.inj hhead).symm

theorem consistent_rootOnly : Consistent hs (rootOnly hs clock) := (emptyRoot_rootOnly hs clock).consistent

end AeorDb.Dir
