import AeorDb.Dir.Consistency

/-! What `create_directory` does to the listings when the directory is already there. -/

namespace AeorDb.Dir

open Store BTree Library Trace Digest Hasher List Engine

variable {H : Type} [DecidableEq H] {hs : Hasher H} {e e' : Engine H} {segments q : List Str} {p : Str}

inductive Below (hs : Hasher H) (e : Engine H) : Str → Str → ChildEntry H → Prop where
  | child {p : Str} {l : List (ChildEntry H)} {c : ChildEntry H} : listing hs e p = .ok l → c ∈ l →
      Below hs e p (childPath (normalizePath p) c.name) c
  | deeper {p q r : Str} {d c : ChildEntry H} : Below hs e p q d → d.entryType = .directoryIndex → Below hs e q r c →
      Below hs e p r c

def SameContent (hs : Hasher H) (e e' : Engine H) (path : Str) : EntryType → Prop
  | .fileRecord => readFileBuffered hs e' path = readFileBuffered hs e path
  | .symlink => e'.get (hs.symlinkPathHash (normalizePath path)) = e.get (hs.symlinkPathHash (normalizePath path))
  | _ => True

def OnWay (q p s : Str) : Prop := splitSegments (normalizePath q) ++ [s] <+: splitSegments (normalizePath p)

structure Unhidden (hs : Hasher H) (e e' : Engine H) (p : Str) : Prop where
  below : ∀ q c, Below hs e p q c → ∃ c', Below hs e' p q c' ∧ c'.entryType = c.entryType ∧ SameContent hs e e' q c.entryType
  others : ∀ q, e.hasEntry (hs.directoryPathHash (normalizePath q)) = true → normalizePath q ≠ normalizePath p →
    ∃ l l', listing hs e q = .ok l ∧ listing hs e' q = .ok l' ∧ (∀ c, ¬ OnWay q p c.name → (c ∈ l' ↔ c ∈ l)) ∧
      ((∀ s, ¬ OnWay q p s) → l' = l)

def CleanDirs (hs : Hasher H) (e : Engine H) : Prop :=
  ∀ path, e.hasEntry (hs.directoryPathHash path) = true → ∃ segments, Clean segments ∧ path = pathOf segments

def declared (hs : Hasher H) (e : Engine H) (path : Str) : Engine H :=
  ((e.storeEntry .directoryIndex (hs.directoryPathHash path) (.dir (.flat []))).storeEntry .directoryIndex
    (hs.directoryContentHash (.flat [])) (.dir (.flat []))).tick

lemma get_declared_other {path : Str} {k : H} (hk : NotContent hs k) (hne : k ≠ hs.directoryPathHash path) :
    (declared hs e path).get k = e.get k := by
  simp [declared, hne, hk.1 []]

lemma get_declared_key (path : Str) : (declared hs e path).get (hs.directoryPathHash path) = some (.dir (.flat [])) := by
  simp [declared, directoryContentHash]

lemma declared_grows (path : Str) : ContentGrows hs e (declared hs e path) := by
  refine ⟨fun es hes => ?_, fun n hn => ?_⟩
  · by_cases hes' : es = []
    · subst hes'
      simp [declared]
    · simpa [declared, directoryPathHash, directoryContentHash, hes'] using hes
  · simpa [declared, Live, directoryPathHash, directoryContentHash, btreeHash] using hn

lemma dirAt_declared (path : Str) : DirAt hs (declared hs e path) (hs.directoryContentHash (.flat [])) [] :=
  .flat (by simp [declared]) (by simp) (by simp)

lemma createDirectory_eq (hs' : Clean segments) (hp : normalizePath p = pathOf segments)
    (h : createDirectory hs p e = .ok () e') : (segments = [] ∧ e' = declared hs e (pathOf [])) ∨ segments ≠ [] ∧ ∃ now,
      updateParentDirectories hs (pathOf segments) (directoryChild hs (pathOf segments) (emptyDirectory hs) now)
        (declared hs e (pathOf segments)) = .ok () e' := by
  obtain ⟨_, e₁, h₁, hr₁⟩ := Result.estate_bind_eq_ok.mp h
  obtain ⟨_, e₂, h₂, hr₂⟩ := Result.estate_bind_eq_ok.mp hr₁
  obtain ⟨now, e₃, h₃, hr₃⟩ := Result.estate_bind_eq_ok.mp hr₂
  rw [EngineM.perform_eq_ok] at h₁ h₂
  obtain ⟨_, heq⟩ := EngineM.now_eq_ok.mp h₃
  subst h₁ h₂ heq
  simp only [hp] at hr₃
  by_cases hroot : pathOf segments = ['/']
  · obtain rfl : segments = [] := by
      by_contra hne
      exact pathOf_ne_root hs' hne hroot
    cases hr₃
    exact Or.inl ⟨rfl, rfl⟩
  · rw [if_neg hroot] at hr₃
    exact Or.inr ⟨fun hnil => hroot (by rw [hnil]; rfl), now, hr₃⟩

lemma near_declared (hs' : Clean segments) : Near hs e (declared hs e (pathOf segments)) segments.length where
  content := declared_grows _
  keys q hq hlt := by
    refine get_declared_other (notContent_text _) fun heq => ?_
    rw [pathOf_inj hq hs' (directoryPathHash_inj.mp heq)] at hlt
    exact lt_irrefl _ hlt
  head := rfl

structure Created (hs : Hasher H) (e e' : Engine H) (segments : List Str) : Prop where
  content : ContentGrows hs e e'
  frame : ∀ k, NotContent hs k → (∀ q, q <+: segments → k ≠ hs.directoryPathHash (pathOf q)) → e'.get k = e.get k
  key : e'.get (hs.directoryPathHash (pathOf segments)) = some (.dir (.flat []))
  above : (segments = [] ∧ e'.head = e.head) ∨ ∃ c, Publication hs e e' segments c

lemma Clean.of_prefix (hs' : Clean segments) (h : q <+: segments) : Clean q := fun s hs => hs' s (h.subset hs)

lemma createDirectory_spec (hc : Consistent hs e) (hroom : Roomy hs e) (hs' : Clean segments)
    (hp : normalizePath p = pathOf segments) (h : createDirectory hs p e = .ok () e') : Created hs e e' segments := by
  rcases createDirectory_eq hs' hp h with ⟨rfl, rfl⟩ | ⟨hne, now, hup⟩
  · exact ⟨declared_grows _, fun k hk hq => get_declared_other hk (hq [] prefix_rfl), get_declared_key _, Or.inl ⟨rfl, rfl⟩⟩
  · have hout := updateParentsFrom_spec hc hroom (near_declared hs') hs' hne (batchOk_nil _) hup
    have hkey := hout.frame (hs.directoryPathHash (pathOf segments)) (notContent_text _) (by simp) fun q hq hlt heq =>
      hlt (pathOf_inj hs' (hs'.of_prefix hq) (directoryPathHash_inj.mp heq)).symm
    rw [get_declared_key] at hkey
    have hframe : ∀ k, NotContent hs k → (∀ q, q <+: segments → k ≠ hs.directoryPathHash (pathOf q)) →
        e'.get k = e.get k := fun k hk hq => by
      rw [hout.frame k hk (by simp) fun q hpre _ => hq q hpre, get_declared_other hk (hq segments prefix_rfl)]
    have hdir := (dirAt_declared (pathOf segments)).mono hout.grows
    refine ⟨(declared_grows _).trans hout.grows, hframe, hkey, Or.inr ⟨_, (declared_grows _).trans hout.grows, ?_,
      hout.propagated, ?_, hs', Or.inr ⟨.inline hkey ?_, hdir⟩⟩⟩
    · intro q hq hoff
      refine hframe _ (notContent_text _) fun q' hpre heq => hoff ?_
      rwa [pathOf_inj hq (hs'.of_prefix hpre) (directoryPathHash_inj.mp heq)]
    · obtain ⟨pre, s, rfl⟩ := (eq_nil_or_concat' segments).resolve_left hne
      obtain ⟨hpre, hs''⟩ := clean_append.mp hs'
      exact ⟨pre, by simp [directoryChild, fileName_append hpre hs'']⟩
    · exact hout.grows.flat [] (by simp [declared])

section

variable {c : ChildEntry H} {es : List (ChildEntry H)}

section

omit [DecidableEq H]

lemma isLiveChild_congr {parent : Str} (hfile : e'.get (hs.filePathHash (childPath parent c.name)) = e.get (hs.filePathHash (childPath parent c.name)))
    (hlink : e'.get (hs.symlinkPathHash (childPath parent c.name)) = e.get (hs.symlinkPathHash (childPath parent c.name)))
    (hdir : c.entryType = .directoryIndex →
      e'.get (hs.directoryPathHash (childPath parent c.name)) = e.get (hs.directoryPathHash (childPath parent c.name))) :
    isLiveChild hs e' parent c = isLiveChild hs e parent c := by
  unfold isLiveChild
  split
  · exact hasEntry_congr hfile
  · next ht => exact hasEntry_congr (hdir ht)
  · exact hasEntry_congr hlink
  · rfl

lemma Created.isLiveChild_eq (hcr : Created hs e e' segments) (hc : Consistent hs e) (hs' : Clean segments) {h : H} (hq : Clean q)
    (hk : Keyed hs e q h) (hd : DirAt hs e h es) (hmem : c ∈ es) (hoff : ¬ q ++ [c.name] <+: segments) :
    isLiveChild hs e' (pathOf q) c = isLiveChild hs e (pathOf q) c := by
  refine isLiveChild_congr (hcr.frame _ (notContent_text _) fun q' _ => ?_) (hcr.frame _ (notContent_text _) fun q' _ => ?_)
    fun hdir => hcr.frame _ (notContent_text _) fun q' hpre heq => hoff ?_
  · simp [filePathHash, directoryPathHash]
  · simp [symlinkPathHash, directoryPathHash]
  · have hname := (hc.sub q h es c hq hk hd hmem hdir).1
    rw [childPath_pathOf_of_segmentNames fun s h => (hq s h).segmentName] at heq
    rwa [pathOf_inj (clean_append.mpr ⟨hq, hname⟩) (hs'.of_prefix hpre) (directoryPathHash_inj.mp heq)]

lemma Created.children (hcr : Created hs e e' segments) (hc : Consistent hs e) (hs' : Clean segments) (hq : Clean q)
    (hne : q ≠ segments) (hlive : e.hasEntry (hs.directoryPathHash (pathOf q)) = true) :
    ∃ h es h' es', Keyed hs e q h ∧ DirAt hs e h es ∧ Keyed hs e' q h' ∧ DirAt hs e' h' es' ∧ Fresh hs e' q ∧
      (∀ c, ¬ q ++ [c.name] <+: segments → (c ∈ es' ↔ c ∈ es)) ∧ ((∀ s, ¬ q ++ [s] <+: segments) → es' = es) := by
  obtain ⟨h, es, hk, hd⟩ := hc.dirs q hq hlive
  have hsame : e'.get (hs.directoryPathHash (pathOf q)) = e.get (hs.directoryPathHash (pathOf q)) → Fresh hs e' q →
      ∃ h es h' es', Keyed hs e q h ∧ DirAt hs e h es ∧ Keyed hs e' q h' ∧ DirAt hs e' h' es' ∧ Fresh hs e' q ∧
        (∀ c, ¬ q ++ [c.name] <+: segments → (c ∈ es' ↔ c ∈ es)) ∧ ((∀ s, ¬ q ++ [s] <+: segments) → es' = es) :=
    fun hkey hf => ⟨h, es, h, es, hk, hd, hk.transfer hcr.content hkey, hd.mono hcr.content, hf, fun _ _ => .rfl, fun _ => rfl⟩
  rcases hcr.above with ⟨rfl, hhead⟩ | ⟨c, hp⟩
  · have hkey := hcr.frame (hs.directoryPathHash (pathOf q)) (notContent_text _) fun q' hpre heq => by
      rw [prefix_nil.mp hpre] at heq
      exact hne (pathOf_inj hq hs' (directoryPathHash_inj.mp heq))
    exact hsame hkey (hc.fresh_of_eq hcr.content hhead hkey)
  · have hf := (hp.consistent hc).fresh q
    by_cases hpre : q <+: segments
    · obtain ⟨s, hpre⟩ := (prefix_cases hpre).resolve_left hne
      rcases hp.level_cases hpre with ⟨h', es₀, es', d, hl⟩ | ⟨rfl, hkept⟩
      · obtain ⟨h₀, hk₀, hd₀⟩ := hl.old.resolve_right fun hmissing => by simp [hlive] at hmissing
        refine ⟨h₀, es₀, h', es', hk₀, hd₀, hl.keyed, hl.dir, hf, fun c hoff => ?_, fun hall => absurd hpre (hall s)⟩
        have hname : c.name ≠ d.name := fun heq => hoff (by rwa [heq, hl.name])
        rw [hl.upserted c]
        exact ⟨fun hx => (hx.resolve_left fun heq => hname (heq ▸ rfl)).1, fun hx => Or.inr ⟨hx, hname⟩⟩
      · exact hsame hkept.key hf
    · exact hsame (hp.frame q hq hpre) hf

end

lemma listing_eq {l : List (ChildEntry H)} (h : listDirectory hs p e = .ok l e') : listing hs e p = .ok l := by
  rw [listing, h]

lemma Created.listing_self (hcr : Created hs e e' segments) (hp : normalizePath p = pathOf segments) : listing hs e' p = .ok [] := by
  have hrec : recoverDirectoryDataIfStale e' (pathOf segments) (hs.directoryPathHash (pathOf segments)) = .ok none := by
    simp [recoverDirectoryDataIfStale, hcr.key]
  have hdata : readDirectoryData e' (hs.directoryPathHash (pathOf segments)) = some (.dir (.flat [])) := by
    simp [readDirectoryData, hcr.key]
  have hlist : listDirectory hs p e' = .ok [] e' := by
    simp only [listDirectory, hp, hrec, hdata, EngineM.query, bind, EStateM.bind, listData, childrenOf, filter_nil]
  exact listing_eq hlist

lemma not_below_of_listing_nil {q : Str} (h : listing hs e p = .ok []) : ¬ Below hs e p q c := by
  intro hb
  induction hb with
  | child hl hc =>
    rw [h] at hl
    cases hl
    cases hc
  | deeper _ _ _ ih _ => exact ih h

lemma Created.others (hcr : Created hs e e' segments) (hc : Consistent hs e) (hs' : Clean segments) (hq : Clean q)
    (hne : q ≠ segments) (hlive : e.hasEntry (hs.directoryPathHash (pathOf q)) = true) {path : Str}
    (hpath : normalizePath path = pathOf q) : ∃ l l', listing hs e path = .ok l ∧ listing hs e' path = .ok l' ∧
      (∀ c, ¬ q ++ [c.name] <+: segments → (c ∈ l' ↔ c ∈ l)) ∧ ((∀ s, ¬ q ++ [s] <+: segments) → l' = l) := by
  obtain ⟨h, es, h', es', hk, hd, hk', hd', hf, hmem, heq⟩ := hcr.children hc hs' hq hne hlive
  have halive : ∀ c ∈ es, ¬ q ++ [c.name] <+: segments → isLiveChild hs e' (pathOf q) c = isLiveChild hs e (pathOf q) c :=
    fun c hmem hoff => hcr.isLiveChild_eq hc hs' hq hk hd hmem hoff
  refine ⟨_, _, listing_eq ((hc.fresh q).listDirectory_eq hq hpath hk hd), listing_eq (hf.listDirectory_eq hq hpath hk' hd'),
    fun c hoff => ?_, fun hall => ?_⟩
  · rw [mem_filter, mem_filter, hmem c hoff]
    exact and_congr_right fun hx => by rw [halive c hx hoff]
  · rw [heq hall]
    exact filter_congr fun c hx => halive c hx (hall _)

end

theorem createDirectory_unhidden_iff (hc : Consistent hs e) (hkeys : CleanDirs hs e) (hroom : Roomy hs e)
    (hdir : e.hasEntry (hs.directoryPathHash (normalizePath p)) = true) (hok : createDirectory hs p e = .ok () e') :
    Unhidden hs e e' p ↔ listing hs e p = .ok [] := by
  obtain ⟨segments, hs', hp⟩ := hkeys _ hdir
  have hcr := createDirectory_spec hc hroom hs' hp hok
  constructor
  · intro hun
    rw [hp] at hdir
    obtain ⟨h, es, hk, hd⟩ := hc.dirs segments hs' hdir
    have hlist := listing_eq ((hc.fresh segments).listDirectory_eq hs' hp hk hd)
    rw [hlist]
    cases hl : es.filter (isLiveChild hs e (pathOf segments)) with
    | nil => rfl
    | cons c l =>
      obtain ⟨c', hb, _⟩ := hun.below _ c (.child hlist (by simp [hl]))
      exact absurd hb (not_below_of_listing_nil (hcr.listing_self hp))
  · intro hempty
    refine ⟨fun q c hb => absurd hb (not_below_of_listing_nil hempty), fun q hq hne => ?_⟩
    obtain ⟨qs, hqs, hpath⟩ := hkeys _ hq
    have hne' : qs ≠ segments := fun heq => hne (by rw [hpath, hp, heq])
    simp only [OnWay, hpath, hp, splitSegments_pathOf hqs, splitSegments_pathOf hs']
    exact hcr.others hc hs' hqs hne' (hpath ▸ hq) hpath

omit [DecidableEq H] in
lemma Created.cleanDirs (hcr : Created hs e e' segments) (hs' : Clean segments) (hkeys : CleanDirs hs e) : CleanDirs hs e' := by
  intro path hlive
  by_cases hpre : ∃ q, q <+: segments ∧ path = pathOf q
  · obtain ⟨q, hq, rfl⟩ := hpre
    exact ⟨q, hs'.of_prefix hq, rfl⟩
  · have hkey := hcr.frame (hs.directoryPathHash path) (notContent_text _) fun q hq heq =>
      hpre ⟨q, hq, directoryPathHash_inj.mp heq⟩
    exact hkeys path (hasEntry_congr hkey ▸ hlive)

lemma roomy_rootOnly (clock : ℕ → ℤ) : Roomy hs (rootOnly hs clock) := (emptyRoot_rootOnly hs clock).roomy

def start : Engine Digest := rootOnly hasher fun n => n

def oneDirectory : Engine Digest := final (createDirectory hasher "/a".toList start)

lemma created_oneDirectory : Created hasher start oneDirectory ["a".toList] :=
  createDirectory_spec (p := "/a".toList) (consistent_rootOnly _ _) (roomy_rootOnly _) (by decide) (by decide)
    (eq_ok_final (by decide))

lemma cleanDirs_start : CleanDirs hasher start := fun _ hlive =>
  ⟨[], by simp [Clean], root_of_live_rootOnly _ _ hlive⟩

lemma consistent_oneDirectory : Consistent hasher oneDirectory := by
  obtain ⟨hnil, _⟩ | ⟨c, hp⟩ := created_oneDirectory.above
  · cases hnil
  · exact hp.consistent (consistent_rootOnly _ _)

lemma root_oneDirectory : Keyed hasher oneDirectory [] (hasher.directoryContentHash (.flat
    [directoryChild hasher "/a".toList (emptyDirectory hasher) 5])) :=
  .link (by decide)

lemma roomy_oneDirectory : Roomy hasher oneDirectory := by
  intro q es hq hk
  have hflat : ∀ {fs}, Keyed hasher oneDirectory q (hasher.directoryContentHash (.flat fs)) → es = fs :=
    fun hk' => by simpa [directoryContentHash] using hk.det hk'
  by_cases hpre : q <+: ["a".toList]
  · rcases prefix_cases hpre with rfl | ⟨s, hpre⟩
    · rw [hflat (.inline created_oneDirectory.key (by decide))]
      decide
    · obtain ⟨rfl, _⟩ := prefix_singleton hpre
      rw [hflat root_oneDirectory]
      decide
  · have hkey := created_oneDirectory.frame _ (notContent_text ("dir:".toList ++ pathOf q)) fun q' hq' heq =>
      hpre (pathOf_inj hq (Clean.of_prefix (by decide) hq') (directoryPathHash_inj.mp heq) ▸ hq')
    have hroot := root_of_live_rootOnly _ _ (hasEntry_congr hkey ▸ hk.hasEntry)
    exact absurd (pathOf_inj hq (by simp) hroot ▸ List.nil_prefix) hpre

theorem createDirectory_unhidden_empty :
    Unhidden Digest.hasher oneDirectory (final (createDirectory Digest.hasher "/a".toList oneDirectory)) "/a".toList :=
  (createDirectory_unhidden_iff consistent_oneDirectory (created_oneDirectory.cleanDirs (by decide) cleanDirs_start)
    roomy_oneDirectory (by decide) (eq_ok_final (by decide))).mpr (by decide)

def plainEnv : Env := ⟨fun _ contentType => contentType.getD [], fun _ => "auto".toList⟩

def oneFile : Engine Digest := final (storeFileBuffered hasher plainEnv "/a/f".toList [7] none start)

theorem createDirectory_hides_file : oneFile.hasEntry (Digest.hasher.directoryPathHash "/a".toList) = true ∧
    createDirectory Digest.hasher "/a".toList oneFile =
      .ok () (final (createDirectory Digest.hasher "/a".toList oneFile)) ∧
    ¬ Unhidden Digest.hasher oneFile (final (createDirectory Digest.hasher "/a".toList oneFile)) "/a".toList := by
  refine ⟨by decide, eq_ok_final (by decide), fun hun => ?_⟩
  have hok : (listing hasher oneFile "/a".toList).isOk = true := by decide
  cases hlist : listing hasher oneFile "/a".toList with
  | error err =>
    rw [hlist] at hok
    cases hok
  | ok l =>
    cases l with
    | nil => exact absurd hlist (by decide)
    | cons c l =>
      obtain ⟨c', hb, _⟩ := hun.below _ c (.child hlist (by simp))
      exact absurd hb (not_below_of_listing_nil (by decide))

end AeorDb.Dir
