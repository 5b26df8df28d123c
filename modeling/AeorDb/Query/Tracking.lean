import AeorDb.Query.FieldIndex

/-! What an index holds after any sequence of updates. -/

namespace AeorDb.Query

open Store Library List Function FieldIndex

variable {V S F : Type} [LinearOrder S] [DecidableEq F] {sc : Scale S}

structure Tracks (sc : Scale S) (ix : FieldIndex V S F) (current : F → List V) : Prop where
  sorted : ix.entries.Pairwise fun x y => x.scalar ≤ y.scalar
  entries : ∀ entry, entry ∈ ix.entries ↔
    ∃ v ∈ current entry.fileHash, ∃ token ∈ ix.converter.expandValue v, ix.converter.toScalar token = entry.scalar
  values : ∀ h, ix.values.get h = (current h).getLast?.map (h, ·)
  buckets : ix.dirty = false → ∀ b, ix.bucketEntries b = ix.entries.filter fun entry => sc.bucketOf entry.scalar = b

variable {ix : FieldIndex V S F}

lemma sorted_insertEntry (h : ix.entries.Pairwise fun x y => x.scalar ≤ y.scalar) (s : S) (f : F) :
    (ix.insertEntry sc s f).entries.Pairwise fun x y => x.scalar ≤ y.scalar := by
  obtain ⟨hbefore, hbehind⟩ := sc.position_spec (ix.entries.map (·.scalar)) s (pairwise_map.mpr h)
  rw [← map_take] at hbefore
  rw [← map_drop] at hbehind
  have hparts := h
  rw [← take_append_drop (sc.position (ix.entries.map (·.scalar)) s) ix.entries, pairwise_append] at hparts
  obtain ⟨htake, hdrop, hcross⟩ := hparts
  refine pairwise_append.mpr ⟨htake, pairwise_cons.mpr ⟨fun y hy => ?_, hdrop⟩, fun x hx y hy => ?_⟩
  · exact hbehind _ (mem_map_of_mem hy)
  · rcases mem_cons.mp hy with rfl | hy
    · exact hbefore _ (mem_map_of_mem hx)
    · exact hcross x hx y hy

lemma mem_insertEntry {s : S} {f : F} {entry : IndexEntry S F} :
    entry ∈ (ix.insertEntry sc s f).entries ↔ entry = ⟨s, f⟩ ∨ entry ∈ ix.entries := by
  have hcut : ∀ i, entry ∈ ix.entries ↔ entry ∈ ix.entries.take i ∨ entry ∈ ix.entries.drop i := by
    intro i
    rw [← mem_append, take_append_drop]
  rw [insertEntry, hcut (sc.position (ix.entries.map (·.scalar)) s)]
  simp only [mem_append, mem_cons]
  tauto

lemma insertTokens (sc : Scale S) (ix : FieldIndex V S F) (f : F) (tokens : List V) (h : ix.entries.Pairwise fun x y => x.scalar ≤ y.scalar) :
    let out := tokens.foldl (fun ix token => ix.insertEntry sc (ix.converter.toScalar token) f) ix
    out.converter = ix.converter ∧ out.values = ix.values ∧ (tokens ≠ [] → out.dirty = true) ∧
      out.entries.Pairwise (fun x y => x.scalar ≤ y.scalar) ∧
      ∀ entry, entry ∈ out.entries ↔
        entry ∈ ix.entries ∨ entry.fileHash = f ∧ ∃ token ∈ tokens, ix.converter.toScalar token = entry.scalar := by
  induction tokens using List.reverseRecOn with
  | nil => simpa using h
  | append_singleton tokens token ih =>
    obtain ⟨hconv, hvalues, -, hsorted, hmem⟩ := ih
    rw [List.foldl_append, foldl_cons, foldl_nil]
    refine ⟨hconv, hvalues, fun _ => rfl, sorted_insertEntry hsorted _ _, fun entry => ?_⟩
    rw [mem_insertEntry, hmem, hconv]
    obtain ⟨s, g⟩ := entry
    simp only [IndexEntry.mk.injEq, mem_append, mem_singleton]
    constructor
    · rintro (⟨rfl, rfl⟩ | hold | ⟨hg, t, ht, hts⟩)
      · exact .inr ⟨rfl, token, .inr rfl, rfl⟩
      · exact .inl hold
      · exact .inr ⟨hg, t, .inl ht, hts⟩
    · rintro (hold | ⟨hg, t, ht | rfl, hts⟩)
      · exact .inr (.inl hold)
      · exact .inr (.inr ⟨hg, t, ht, hts⟩)
      · exact .inl ⟨hts.symm, hg⟩

namespace Tracks

variable {ix : FieldIndex V S F} {current : F → List V}

lemma new (fieldName : Str) (converter : ScalarConverter V S) : Tracks sc (FieldIndex.new sc fieldName converter) fun _ : F => [] := by
  refine ⟨List.Pairwise.nil, by simp [FieldIndex.new], by simp [FieldIndex.new], fun _ b => ?_⟩
  rw [FieldIndex.bucketEntries, FieldIndex.new]
  rcases Nat.lt_or_ge b sc.bucketCount with hb | hb <;> simp [List.getD, hb]

variable (h : Tracks sc ix current)
include h

lemma insertExpanded (v : V) (f : F) :
    Tracks sc (ix.insertExpanded sc v f) (Function.update current f (current f ++ [v])) := by
  obtain ⟨hconv, hvalues, hdirty, hsorted, hmem⟩ :=
    insertTokens sc { ix with values := ix.values.insert (f, v) } f (ix.converter.expandValue v) h.sorted
  refine ⟨hsorted, fun entry => ?_, fun g => ?_, fun hclean b => ?_⟩
  · rw [FieldIndex.insertExpanded, hmem, hconv, h.entries]
    by_cases hf : entry.fileHash = f
    · rw [hf, update_self]
      simp only [mem_append, mem_singleton, true_and]
      constructor
      · rintro (⟨w, hw, hex⟩ | hex)
        · exact ⟨w, .inl hw, hex⟩
        · exact ⟨v, .inr rfl, hex⟩
      · rintro ⟨w, hw | rfl, hex⟩
        · exact .inl ⟨w, hw, hex⟩
        · exact .inr hex
    · rw [update_of_ne hf]
      simp [hf]
  · rw [FieldIndex.insertExpanded, hvalues, Table.get_insert, h.values]
    by_cases hg : g = f
    · subst hg
      simp
    · simp [hg]
  · -- a clean index can only follow a value without tokens
    have hnil : ix.converter.expandValue v = [] := by
      by_contra hne
      have htrue := hdirty hne
      rw [FieldIndex.insertExpanded] at hclean
      simp [htrue] at hclean
    rw [FieldIndex.insertExpanded, hnil] at hclean ⊢
    exact h.buckets hclean b

lemma remove (f : F) : Tracks sc (ix.remove f) (Function.update current f []) := by
  refine ⟨h.sorted.filter _, fun entry => ?_, fun g => ?_, fun hclean b => ?_⟩
  · have hconv : (ix.remove f).converter = ix.converter := rfl
    have hentries : (ix.remove f).entries = ix.entries.filter (·.fileHash ≠ f) := rfl
    rw [hentries, hconv, mem_filter, h.entries]
    by_cases hf : entry.fileHash = f
    · simp [hf]
    · simp [hf]
  · change (ix.values.erase f).get g = _
    rw [Table.get_erase, h.values]
    by_cases hg : g = f
    · subst hg
      simp
    · simp [hg]
  · have hflags : ix.dirty = false ∧ (ix.entries.filter (·.fileHash ≠ f)).length = ix.entries.length := by
      simpa [FieldIndex.remove] using hclean
    have hkept : ix.entries.filter (·.fileHash ≠ f) = ix.entries := filter_eq_self.mpr (length_filter_eq_length_iff.mp hflags.2)
    have hbuckets := h.buckets hflags.1 b
    rw [FieldIndex.bucketEntries] at hbuckets ⊢
    simpa only [FieldIndex.remove, hkept] using hbuckets

lemma rebuildNvt : Tracks sc (ix.rebuildNvt sc) current := by
  have hsame : (ix.rebuildNvt sc).entries = ix.entries ∧ (ix.rebuildNvt sc).converter = ix.converter ∧ (ix.rebuildNvt sc).values = ix.values := by
    rw [FieldIndex.rebuildNvt]
    split_ifs <;> exact ⟨rfl, rfl, rfl⟩
  have hblocks : ix.entries.Pairwise fun x y => sc.bucketOf x.scalar ≤ sc.bucketOf y.scalar := h.sorted.imp fun hle => sc.bucketOf_mono hle
  refine ⟨hsame.1 ▸ h.sorted, by simpa only [hsame.1, hsame.2.1] using h.entries, by simpa only [hsame.2.2] using h.values, fun _ b => ?_⟩
  rw [hsame.1, FieldIndex.bucketEntries, hsame.1, FieldIndex.rebuildNvt]
  rcases Nat.lt_or_ge b sc.bucketCount with hb | hb
  · by_cases hnil : ix.entries = []
    · simp [hnil, List.getD, hb]
    · simp only [hnil, if_false]
      rw [getD_eq_getElem _ _ (by simpa using hb)]
      simp only [getElem_map, getElem_range]
      rw [← Blocks.slice_scan hblocks b]
      split_ifs with hzero
      · rw [hzero]
        simp [Blocks.slice, drop_eq_nil_of_le]
      · rfl
  · have hfilter : ix.entries.filter (fun entry => decide (sc.bucketOf entry.scalar = b)) = [] := by
      refine filter_eq_nil_iff.mpr fun entry _ => ?_
      have hlt := sc.bucketOf_lt entry.scalar
      simpa using (by omega : sc.bucketOf entry.scalar ≠ b)
    rw [hfilter]
    split_ifs <;> simp_all [List.getD]

lemma ensureNvtCurrent : Tracks sc (ix.ensureNvtCurrent sc) current ∧ (ix.ensureNvtCurrent sc).dirty = false := by
  rw [FieldIndex.ensureNvtCurrent]
  split_ifs with hdirty
  · refine ⟨h.rebuildNvt, ?_⟩
    rw [FieldIndex.rebuildNvt]
    split_ifs <;> rfl
  · exact ⟨h, by simpa using hdirty⟩

lemma updateIndex (vs : List V) (f : F) : Tracks sc (ix.updateIndex sc vs f) (Function.update current f vs) := by
  rw [FieldIndex.updateIndex]
  induction vs using List.reverseRecOn with
  | nil => exact h.remove f
  | append_singleton vs v ih =>
    have hnext := ih.insertExpanded v f
    rw [update_self, update_idem] at hnext
    rwa [List.foldl_append]

lemma applyOp (op : IndexOp V F) : Tracks sc (Query.applyOp sc ix op) (assignOp current op) := by
  cases op with
  | update f vs => exact h.updateIndex vs f
  | remove f => exact h.remove f
  | lookup => exact h.ensureNvtCurrent.1

end Tracks

theorem tracks_runOps (sc : Scale S) (fieldName : Str) (converter : ScalarConverter V S) (ops : List (IndexOp V F)) :
    Tracks sc (runOps sc (new sc fieldName converter) ops) (assigned ops) := by
  induction ops using List.reverseRecOn with
  | nil => exact Tracks.new fieldName converter
  | append_singleton ops op ih =>
    rw [runOps, assigned, List.foldl_append, List.foldl_append]
    exact ih.applyOp op

end AeorDb.Query
