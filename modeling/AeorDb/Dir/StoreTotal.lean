import AeorDb.Dir.Invariants
import AeorDb.Dir.PublishSpec

/-! Publishing a child below consistent directories succeeds. -/

namespace AeorDb.Dir

open Store BTree Library Trace EngineM Result

variable {H : Type} [DecidableEq H] {hs : Hasher H} {e₀ e : Engine H} {c : ChildEntry H} {children : List (ChildEntry H)}

omit [DecidableEq H] in
variable (hs) in
lemma writeFlat_total (hw : ∀ x ∈ children, Writable x) : ∃ r, writeFlat hs children = .ok r := by
  obtain ⟨es, hes, _⟩ := Result.map_eq_ok.mp (serialize_writable hw)
  exact ⟨_, Result.bind_eq_ok.mpr ⟨es, hes, rfl⟩⟩

lemma convertToBtree_total (hnd : (children.map ChildEntry.name).Nodup)
    (hlen : children.length ≤ bulkLimit) (hw : ∀ x ∈ children, Writable x) : ∃ r e', convertToBtree hs children e = .ok r e' := by
  obtain ⟨root, datas, _, hbuild, -, htree⟩ := btreeFromEntries_tree e hnd hlen hw
  obtain ⟨node, rfl, hlive, _⟩ := htree.root_eq
  refine ⟨⟨.node node, hs.btreeHash node, []⟩, storeAll hs e datas, Result.estate_bind_eq_ok.mpr ⟨_, _, hbuild, ?_⟩⟩
  refine Result.estate_bind_eq_ok.mpr ⟨_, _, query_eq_ok.mpr ⟨rfl, rfl⟩, ?_⟩
  rw [hlive]
  rfl

lemma rewriteWith_total {h : H} {v : Value H} {es : List (ChildEntry H)} (hd : DirAt hs e h es) (hv : e.get h = some v)
    (hroom : ∀ fs, v = .dir (.flat fs) → es.length < bulkLimit) (hw : Writable c) : ∃ r e', rewriteWith hs (some v) c e = .ok r e' := by
  cases hd with
  | flat hlive hnd henc =>
    obtain rfl : v = .dir (.flat es) := Option.some.inj (hv.symm.trans hlive)
    have hw' : ∀ x ∈ upsertChild es c, Writable x := by
      intro x hx
      rcases mem_upsertChild hx with rfl | hx
      · exact hw
      · exact writable_of_encodable (henc x hx)
    have hout : ∃ r e', (if conversionThreshold ≤ (upsertChild es c).length then convertToBtree hs (upsertChild es c)
        else attempt (writeFlat hs (upsertChild es c))) e = .ok r e' := by
      split_ifs
      · exact convertToBtree_total (nodup_upsertChild hnd c) ((length_upsertChild_le es c).trans (hroom es rfl)) hw'
      · obtain ⟨r, hr⟩ := writeFlat_total hs hw'
        exact ⟨r, e, query_eq_ok.mpr ⟨hr, rfl⟩⟩
    exact hout
  | tree ht =>
    obtain ⟨node, rfl, hlive, _⟩ := ht.root_eq
    obtain rfl : v = .dir (.node node) := Option.some.inj (hv.symm.trans hlive)
    obtain ⟨data, nodes, hins, _⟩ := btreeInsertBatched_spec ht hw
    exact ⟨_, _, Result.estate_bind_eq_ok.mpr ⟨_, _, hins, rfl⟩⟩

lemma rewriteParent_total {n : ℕ} {pre : List Str} (hc : Consistent hs e₀) (hroom : Roomy hs e₀) (hn : Near hs e₀ e n) (hpre : Clean pre)
    (hlt : pre.length < n) (hw : Writable c) :
    ∃ existing r e', existingData hs e (pathOf pre) = .ok existing ∧ rewriteWith hs existing c e = .ok r e' := by
  cases hlive : e₀.hasEntry (hs.directoryPathHash (pathOf pre)) with
  | false =>
    have hone : ∀ x ∈ [c], Writable x := by simpa using hw
    obtain ⟨r, hr⟩ := writeFlat_total hs hone
    have hout : attempt (writeFlat hs [c]) e = .ok r e := query_eq_ok.mpr ⟨hr, rfl⟩
    exact ⟨none, r, e, existingData_missing (by rw [hn.hasEntry hpre hlt, hlive]), hout⟩
  | true =>
    obtain ⟨h, es, hk, hd⟩ := hc.dirs pre hpre hlive
    have hd' := hd.mono hn.content
    obtain ⟨v, hread, hget⟩ := readDirectoryData_keyed (hn.keyed hpre hlt hk) hd'
    have hfits : ∀ fs, v = .dir (.flat fs) → es.length < bulkLimit := by
      rintro fs rfl
      rcases hd'.read with ⟨_, rfl⟩ | ⟨n, node, hnode, _⟩
      · exact hroom pre es hpre hk
      · simp [hget] at hnode
    obtain ⟨r, e', hr⟩ := rewriteWith_total hd' hget hfits hw
    refine ⟨some v, r, e', ?_, hr⟩
    rw [(hc.fresh_near hn hpre hlt).existingData_eq hpre, hread]

variable {segments : List Str} {batch : WriteBatch H}

structure Publishable (segments : List Str) : Prop where
  clean : Clean segments
  ne : segments ≠ []
  depth : segments.length ≤ maxDirectoryDepth
  fits : ∀ s ∈ segments, utf8Len s ≤ u16Max

lemma updateParentsFrom_total (hc : Consistent hs e₀) (hroom : Roomy hs e₀) {depth : ℕ} (hn : Near hs e₀ e segments.length)
    (hclean : Clean segments) (hne : segments ≠ []) (hdepth : segments.length ≤ depth) (hfits : ∀ s ∈ segments, utf8Len s ≤ u16Max)
    (hw : Writable c) : ∃ e', updateParentsFrom hs depth (pathOf segments) c batch e = .ok () e' := by
  induction depth generalizing segments c batch e with
  | zero => exact absurd (List.length_eq_zero_iff.mp (Nat.le_zero.mp hdepth)) hne
  | succ depth ih =>
    obtain rfl | ⟨pre, s, rfl⟩ := List.eq_nil_or_concat' segments
    · exact absurd rfl hne
    obtain ⟨hpre, hs'⟩ := clean_append.mp hclean
    have hlt : pre.length < (pre ++ [s]).length := by simp
    simp only [updateParentsFrom, parentPath_append hpre hs']
    by_cases hsys : pathOf pre = ['/'] ∧ isSystemPath (pathOf (pre ++ [s])) = true
    · rw [if_pos hsys]
      exact ⟨_, flush_eq_ok.mpr rfl⟩
    · rw [if_neg hsys]
      obtain ⟨existing, r, e₁, hq, hr⟩ := rewriteParent_total hc hroom hn hpre hlt hw
      have hg := grown_of_rewriteWith hr
      rw [estate_bind_of_ok (query_eq_ok.mpr ⟨hq, rfl⟩), estate_bind_of_ok hr]
      by_cases hroot : pathOf pre = ['/']
      · rw [if_pos hroot]
        exact ⟨_, Result.estate_bind_eq_ok.mpr ⟨(), _, flush_eq_ok.mpr rfl, rfl⟩⟩
      · rw [if_neg hroot]
        obtain rfl | ⟨pre', t, rfl⟩ := List.eq_nil_or_concat' pre
        · exact absurd rfl hroot
        obtain ⟨hpre', ht⟩ := clean_append.mp hpre
        rw [estate_bind_of_ok (now_eq_ok.mpr ⟨rfl, rfl⟩)]
        have hchild : Writable (directoryChild hs (pathOf (pre' ++ [t])) r e₁.now) := by
          refine ⟨?_, by simp [directoryChild, utf8Len]⟩
          rw [(isDirectoryEntry_directoryChild hpre' ht r e₁.now).name_eq]
          exact hfits t (by simp)
        refine ih (((hn.grown hg).grown grown_tick).mono hlt.le) hpre (by simp) ?_ (fun x hx => hfits x (List.mem_append_left _ hx)) hchild
        simpa using hdepth

lemma updateParentDirectories_total (hc : Consistent hs e₀) (hroom : Roomy hs e₀) (hn : Near hs e₀ e segments.length)
    (hp : Publishable segments) (hw : Writable c) : ∃ e', updateParentDirectories hs (pathOf segments) c e = .ok () e' :=
  updateParentsFrom_total hc hroom hn hp.clean hp.ne hp.depth hp.fits hw

end AeorDb.Dir
