import AeorDb.Dir.Agreement

/-! Publishing a child rewrites its ancestors: each gets the new entry of the one below it and keeps the rest. -/

namespace AeorDb.Dir

open Store BTree Library Trace Hasher List Engine EngineM

variable {H : Type} {hs : Hasher H} {e₀ e e' : Engine H}

def OldAt (hs : Hasher H) (e : Engine H) (segments : List Str) (es : List (ChildEntry H)) : Prop :=
  (∃ h, Keyed hs e segments h ∧ DirAt hs e h es) ∨ e.hasEntry (hs.directoryPathHash (pathOf segments)) = false ∧ es = []

def Roomy (hs : Hasher H) (e : Engine H) : Prop :=
  ∀ segments es, Clean segments → Keyed hs e segments (hs.directoryContentHash (.flat es)) → es.length < bulkLimit

structure IsDirectoryEntry (d : ChildEntry H) (name : Str) (h : H) : Prop where
  entryType_eq : d.entryType = .directoryIndex
  name_eq : d.name = name
  hash_eq : d.hash = h
  stored_eq : d.stored = d

structure RewrittenAt (hs : Hasher H) (e₀ e : Engine H) (segments : List Str) (c : ChildEntry H) (h : H)
    (es es' : List (ChildEntry H)) : Prop where
  old : OldAt hs e₀ segments es
  key : e.get (hs.directoryPathHash (pathOf segments)) = some (.link h)
  dir : DirAt hs e h es'
  upserted : Upserted es c.stored es'

inductive Propagated (hs : Hasher H) (e₀ e : Engine H) : List Str → ChildEntry H → Prop where
  | system {s : Str} {c : ChildEntry H} : isSystemPath (pathOf [s]) = true →
      e.get (hs.directoryPathHash (pathOf [])) = e₀.get (hs.directoryPathHash (pathOf [])) → e.head = e₀.head →
      Propagated hs e₀ e [s] c
  | root {s : Str} {c : ChildEntry H} {h : H} {es es' : List (ChildEntry H)} : isSystemPath (pathOf [s]) = false →
      RewrittenAt hs e₀ e [] c h es es' → e.head = some h → Propagated hs e₀ e [s] c
  | step {segments : List Str} {t s : Str} {c d : ChildEntry H} {h : H} {es es' : List (ChildEntry H)} :
      RewrittenAt hs e₀ e (segments ++ [t]) c h es es' → IsDirectoryEntry d t h → Propagated hs e₀ e (segments ++ [t]) d →
      Propagated hs e₀ e (segments ++ [t] ++ [s]) c

section

def contentWrite (hs : Hasher H) (es : List (ChildEntry H)) : EntryType × H × Value H :=
  (.directoryIndex, hs.directoryContentHash (.flat es), .dir (.flat es))

def linkWrite (hs : Hasher H) (segments : List Str) (h : H) : EntryType × H × Value H :=
  (.directoryIndex, hs.directoryPathHash (pathOf segments), .link h)

structure BatchOk (hs : Hasher H) (segments : List Str) (batch : WriteBatch H) : Prop where
  shape : ∀ w ∈ batch, (∃ es, w = contentWrite hs es) ∨ ∃ q h, Clean q ∧ segments.length ≤ q.length ∧ w = linkWrite hs q h
  links : ∀ q h h', linkWrite hs q h ∈ batch → linkWrite hs q h' ∈ batch → h = h'

variable {pre q : List Str} {s : Str} {batch batch' : WriteBatch H} {h : H} {es : List (ChildEntry H)}

lemma contentWrite_ne_linkWrite : (contentWrite hs es).2.1 ≠ (linkWrite hs q h).2.1 := by
  simp [contentWrite, linkWrite, directoryContentHash, directoryPathHash]

lemma pathOf_eq_iff {p q : List Str} (hp : Clean p) (hq : Clean q) : pathOf p = pathOf q ↔ p = q :=
  ⟨pathOf_inj hp hq, congrArg pathOf⟩

lemma batchOk_nil (segments : List Str) : BatchOk hs segments [] := ⟨by simp, by simp⟩

lemma BatchOk.agree (hb : BatchOk hs pre batch) : ∀ w ∈ batch, ∀ w' ∈ batch, w.2.1 = w'.2.1 → w.2.2 = w'.2.2 := by
  intro w hw w' hw' hkey
  rcases hb.shape w hw with ⟨es, rfl⟩ | ⟨q, h, hq, _, rfl⟩ <;> rcases hb.shape w' hw' with ⟨es', rfl⟩ | ⟨q', h', hq', _, rfl⟩
  · obtain rfl : es = es' := by simpa [contentWrite, directoryContentHash] using hkey
    rfl
  · exact absurd hkey contentWrite_ne_linkWrite
  · exact absurd hkey.symm contentWrite_ne_linkWrite
  · obtain rfl := by simpa [linkWrite, directoryPathHash_inj, pathOf_eq_iff hq hq'] using hkey
    rw [hb.links q h h' hw hw']

lemma BatchOk.extend (hb : BatchOk hs (pre ++ [s]) batch) (hpre : Clean pre) (hb' : WritesContent hs batch') (h : H) :
    BatchOk hs pre (batch ++ batch' ++ [linkWrite hs pre h]) := by
  have hshape : ∀ w ∈ batch ++ batch', (∃ es, w = contentWrite hs es) ∨ ∃ q h, Clean q ∧ pre.length < q.length ∧
      w = linkWrite hs q h ∧ w ∈ batch := by
    intro w hw
    rcases mem_append.mp hw with hw | hw
    · rcases hb.shape w hw with hc | ⟨q, h, hq, hlen, rfl⟩
      · exact Or.inl hc
      · exact Or.inr ⟨q, h, hq, by simpa using hlen, rfl, hw⟩
    · exact Or.inl (hb' w hw)
  -- a link that was there before belongs to a longer path
  have hold : ∀ q h, linkWrite hs q h ∈ batch ++ batch' → linkWrite hs q h ∈ batch ∧ pathOf q ≠ pathOf pre := by
    intro q h hw
    rcases hshape _ hw with ⟨es, heq⟩ | ⟨q', h', hq', hlen, heq, hmem⟩
    · exact absurd (congrArg (·.2.1) heq).symm contentWrite_ne_linkWrite
    · refine ⟨hmem, fun hpath => ?_⟩
      have hkey : pathOf q = pathOf q' := by simpa [linkWrite, directoryPathHash_inj] using congrArg (·.2.1) heq
      have hqq : q' = pre := pathOf_inj hq' hpre (hkey.symm.trans hpath)
      exact absurd hlen (by simp [hqq])
  refine ⟨fun w hw => ?_, fun q h₁ h₂ hw₁ hw₂ => ?_⟩
  · rcases mem_append.mp hw with hw | hw
    · rcases hshape w hw with hc | ⟨q, h, hq, hlen, heq, _⟩
      · exact Or.inl hc
      · exact Or.inr ⟨q, h, hq, hlen.le, heq⟩
    · exact Or.inr ⟨pre, h, hpre, le_rfl, mem_singleton.mp hw⟩
  · have hnew : ∀ {h'}, linkWrite hs q h' ∈ [linkWrite hs pre h] → pathOf q = pathOf pre ∧ h' = h := by
      intro h' hw
      simpa [linkWrite, directoryPathHash_inj] using mem_singleton.mp hw
    rcases mem_append.mp hw₁ with hw₁ | hw₁ <;> rcases mem_append.mp hw₂ with hw₂ | hw₂
    · exact hb.links q h₁ h₂ (hold q h₁ hw₁).1 (hold q h₂ hw₂).1
    · exact absurd (hnew hw₂).1 (hold q h₁ hw₁).2
    · exact absurd (hnew hw₁).1 (hold q h₂ hw₂).2
    · rw [(hnew hw₁).2, (hnew hw₂).2]

variable [DecidableEq H]

lemma BatchOk.grows (hb : BatchOk hs pre batch) : ContentGrows hs e (e.flushBatch batch) := by
  have hkeep : ∀ k v, (∀ w ∈ batch, w.2.1 = k → w.2.2 = v) → e.get k = some v → (e.flushBatch batch).get k = some v := by
    intro k v hv hget
    by_cases hk : ∃ w ∈ batch, w.2.1 = k
    · obtain ⟨w, hw, rfl⟩ := hk
      rw [get_flushBatch_of_mem hb.agree hw, hv w hw rfl]
    · push Not at hk
      rw [get_flushBatch_of_ne hk, hget]
  refine ⟨fun es hes => hkeep _ _ (fun w hw hk => ?_) hes, fun n hn => hkeep _ _ (fun w hw hk => ?_) hn⟩
  · rcases hb.shape w hw with ⟨es', rfl⟩ | ⟨q, h, _, _, rfl⟩
    · obtain rfl : es' = es := by simpa [contentWrite, directoryContentHash] using hk
      rfl
    · simp [linkWrite, directoryContentHash, directoryPathHash] at hk
  · rcases hb.shape w hw with ⟨es', rfl⟩ | ⟨q, h, _, _, rfl⟩
    · simp [contentWrite, directoryContentHash, btreeHash] at hk
    · simp [linkWrite, btreeHash, directoryPathHash] at hk

lemma BatchOk.get_other (hb : BatchOk hs pre batch) {k : H} (hk : NotContent hs k)
    (hlink : ∀ q, Clean q → pre.length ≤ q.length → k ≠ hs.directoryPathHash (pathOf q)) : (e.flushBatch batch).get k = e.get k := by
  refine get_flushBatch_of_ne fun w hw heq => ?_
  rcases hb.shape w hw with ⟨es, rfl⟩ | ⟨q, h, hq, hlen, rfl⟩
  · exact hk.1 es heq.symm
  · exact hlink q hq hlen heq.symm

end

variable [DecidableEq H] {pre segments : List Str} {c : ChildEntry H} {r : Rewritten H} {batch : WriteBatch H}
  {existing : Option (Value H)} {s : Str}

lemma grown_of_rewriteWith (hr : rewriteWith hs existing c e = .ok r e') : Grown hs e e' :=
  grown_of_contentOnly ((performs_rewriteWith ⟨.flat, .node⟩ existing c).ok hr)

lemma existingData_missing {path : Str} (hlive : e.hasEntry (hs.directoryPathHash path) = false) : existingData hs e path = .ok none := by
  have hget : e.get (hs.directoryPathHash path) = none := by
    rw [Engine.hasEntry] at hlive
    simp [Engine.get, Option.isSome_eq_false_iff.mp hlive |> Option.isNone_iff_eq_none.mp]
  simp [existingData, recoverDirectoryDataIfStale, readDirectoryData, hget, bind, Except.bind]

lemma rewriteParent_spec {n : ℕ} (hc : Consistent hs e₀) (hroom : Roomy hs e₀) (hn : Near hs e₀ e n) (hpre : Clean pre)
    (hlt : pre.length < n) (hq : existingData hs e (pathOf pre) = .ok existing)
    (hr : rewriteWith hs existing c e = .ok r e') : ∃ es es', OldAt hs e₀ pre es ∧ Upserted es c.stored es' ∧ r.Holds hs e' es' := by
  cases hlive : e₀.hasEntry (hs.directoryPathHash (pathOf pre)) with
  | false =>
    rw [existingData_missing (by rw [hn.hasEntry hpre hlt, hlive])] at hq
    cases hq
    refine ⟨[], [c.stored], Or.inr ⟨hlive, rfl⟩, fun x => by simp, (rewriteWith_new_spec hr).2⟩
  | true =>
    obtain ⟨h, es, hk, hd⟩ := hc.dirs pre hpre hlive
    have hd' := hd.mono hn.content
    rw [(hc.fresh_near hn hpre hlt).existingData_eq hpre] at hq
    obtain ⟨v, hread, hget⟩ := readDirectoryData_keyed (hn.keyed hpre hlt hk) hd'
    rw [hread] at hq
    cases hq
    have hfits : ∀ fs, v = .dir (.flat fs) → es.length < bulkLimit := by
      rintro fs rfl
      rcases hd'.read with ⟨_, rfl⟩ | ⟨n, node, hnode, _⟩
      · exact hroom pre es hpre hk
      · simp [hget] at hnode
    obtain ⟨es', hup, hholds⟩ := rewriteWith_spec hr hd' hget hfits
    exact ⟨es, es', Or.inl ⟨h, hk, hd⟩, hup, hholds⟩

structure Outcome (hs : Hasher H) (e₀ e e' : Engine H) (segments : List Str) (c : ChildEntry H) (batch : WriteBatch H) : Prop where
  written : ∀ w ∈ batch, e'.get w.2.1 = some w.2.2
  grows : ContentGrows hs e e'
  frame : ∀ k, NotContent hs k → (∀ w ∈ batch, w.2.1 ≠ k) →
    (∀ q, q <+: segments → q ≠ segments → k ≠ hs.directoryPathHash (pathOf q)) → e'.get k = e.get k
  propagated : Propagated hs e₀ e' segments c

omit [DecidableEq H] in
lemma isDirectoryEntry_directoryChild (hpre : Clean pre) (hname : CleanName s) (r : Rewritten H) (now : ℤ) :
    IsDirectoryEntry (directoryChild hs (pathOf (pre ++ [s])) r now) s r.contentKey where
  entryType_eq := rfl
  name_eq := by simp [directoryChild, fileName_append hpre hname]
  hash_eq := rfl
  stored_eq := rfl

lemma outcome_flush (hb : BatchOk hs segments batch) (hp : Propagated hs e₀ (e.flushBatch batch) segments c) :
    Outcome hs e₀ e (e.flushBatch batch) segments c batch where
  written _ hw := get_flushBatch_of_mem hb.agree hw
  grows := hb.grows
  frame _ _ hne _ := get_flushBatch_of_ne hne
  propagated := hp

omit [DecidableEq H] in
lemma outcome_of_level {e₂ : Engine H} {es es' : List (ChildEntry H)} (hg : Grown hs e e₂)
    (hcontent : WritesContent hs r.batch) (hold : OldAt hs e₀ pre es) (hup : Upserted es c.stored es')
    (hholds : r.Holds hs e₂ es') (hwritten : ∀ w ∈ batch ++ r.batch ++ [linkWrite hs pre r.contentKey], e'.get w.2.1 = some w.2.2)
    (hgrows : ContentGrows hs e₂ e')
    (hframe : ∀ k, NotContent hs k → (∀ w ∈ batch ++ r.batch ++ [linkWrite hs pre r.contentKey], w.2.1 ≠ k) →
      (∀ q, q <+: pre → q ≠ pre → k ≠ hs.directoryPathHash (pathOf q)) → e'.get k = e₂.get k)
    (hstep : RewrittenAt hs e₀ e' pre c r.contentKey es es' → Propagated hs e₀ e' (pre ++ [s]) c) :
    Outcome hs e₀ e e' (pre ++ [s]) c batch where
  written w hw := hwritten w (by simp [hw])
  grows := hg.content.trans hgrows
  frame k hk hne hpath := by
    refine (hframe k hk (fun w hw => ?_) fun q hq hlt => ?_).trans (hg.other k hk)
    · rcases mem_append.mp hw with hw | hw
      · rcases mem_append.mp hw with hw | hw
        · exact hne w hw
        · obtain ⟨es, rfl⟩ := hcontent w hw
          exact (hk.1 es).symm
      · rw [mem_singleton.mp hw]
        exact (hpath pre (prefix_append pre [s]) (by simp)).symm
    · refine hpath q (hq.trans (prefix_append pre [s])) fun heq => ?_
      have hlen := hq.length_le
      simp [heq] at hlen
  propagated := hstep ⟨hold, hwritten (linkWrite hs pre r.contentKey) (by simp),
    hholds e' hgrows fun w hw => hwritten w (by simp [hw]), hup⟩

lemma updateParentsFrom_spec (hc : Consistent hs e₀) (hroom : Roomy hs e₀) {depth : ℕ} (hn : Near hs e₀ e segments.length)
    (hclean : Clean segments) (hne : segments ≠ []) (hb : BatchOk hs segments batch)
    (h : updateParentsFrom hs depth (pathOf segments) c batch e = .ok () e') : Outcome hs e₀ e e' segments c batch := by
  induction depth generalizing segments c batch e with
  | zero => cases h
  | succ depth ih =>
    obtain ⟨pre, s, rfl⟩ : ∃ pre s, segments = pre ++ [s] := by
      rcases eq_nil_or_concat segments with rfl | ⟨pre, s, rfl⟩
      · exact absurd rfl hne
      · exact ⟨pre, s, concat_eq_append⟩
    obtain ⟨hpre, hs'⟩ := clean_append.mp hclean
    simp only [updateParentsFrom, parentPath_append hpre hs'] at h
    have hlt : pre.length < (pre ++ [s]).length := by simp
    have hroot : pathOf pre = ['/'] → pre = [] := fun hp => by
      by_contra hne
      exact pathOf_ne_root hpre hne hp
    by_cases hsys : pathOf pre = ['/'] ∧ isSystemPath (pathOf (pre ++ [s])) = true
    · rw [if_pos hsys, flush_eq_ok] at h
      subst h
      obtain rfl := hroot hsys.1
      refine outcome_flush hb (.system hsys.2 ?_ (by rw [head_flushBatch, hn.head]))
      rw [hb.get_other (show NotContent hs (hs.directoryPathHash (pathOf [])) from notContent_text _),
        hn.keys [] (by simp [Clean]) (by simp)]
      rintro q hq hlen heq
      have hnil := pathOf_inj (by simp) hq (directoryPathHash_inj.mp heq)
      simp [← hnil] at hlen
    · rw [if_neg hsys] at h
      obtain ⟨existing, e₁, hquery, h₁⟩ := Result.estate_bind_eq_ok.mp h
      obtain ⟨hq, heq⟩ := EngineM.query_eq_ok.mp hquery
      subst heq
      obtain ⟨r, e₂, hr, h₂⟩ := Result.estate_bind_eq_ok.mp h₁
      obtain ⟨es, es', hold, hup, hholds⟩ := rewriteParent_spec hc hroom hn hpre hlt hq hr
      have hg₂ := grown_of_rewriteWith hr
      have hcontent := writesContent_rewriteWith hr
      have hb' := hb.extend hpre hcontent r.contentKey
      by_cases hp : pathOf pre = ['/']
      · obtain rfl := hroot hp
        rw [if_pos hp] at h₂
        obtain ⟨_, e₃, hflush, hhead⟩ := Result.estate_bind_eq_ok.mp h₂
        rw [flush_eq_ok] at hflush
        rw [perform_eq_ok] at hhead
        subst hflush hhead
        have hnot : isSystemPath (pathOf [s]) = false := by simpa [hp] using hsys
        refine outcome_of_level hg₂ hcontent hold hup hholds (fun w hw => get_flushBatch_of_mem hb'.agree hw)
          ⟨hb'.grows.flat, hb'.grows.node⟩ (fun k hk hne _ => ?_) (fun hrw => .root hnot hrw rfl)
        exact get_flushBatch_of_ne hne
      · obtain ⟨pre', t, rfl⟩ : ∃ pre' t, pre = pre' ++ [t] := by
          rcases eq_nil_or_concat pre with rfl | ⟨pre', t, rfl⟩
          · exact absurd rfl hp
          · exact ⟨pre', t, concat_eq_append⟩
        rw [if_neg hp] at h₂
        obtain ⟨now, e₃, hnow, h₃⟩ := Result.estate_bind_eq_ok.mp h₂
        obtain ⟨_, heq⟩ := EngineM.now_eq_ok.mp hnow
        subst heq
        have hout := ih (((hn.grown hg₂).grown grown_tick).mono hlt.le) hpre (by simp) hb' h₃
        obtain ⟨hpre', ht⟩ := clean_append.mp hpre
        exact outcome_of_level hg₂ hcontent hold hup hholds hout.written (grown_tick.content.trans hout.grows) hout.frame
          fun hrw => .step hrw (isDirectoryEntry_directoryChild hpre' ht r now) hout.propagated

end AeorDb.Dir
