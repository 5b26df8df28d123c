import AeorDb.Query.Tracking

/-! Exact lookup after any sequence of updates. -/

namespace AeorDb.Query

open Store Library List

variable {V S F : Type} [LinearOrder S] [DecidableEq F] {sc : Scale S}

section

variable {ix : FieldIndex V S F} {current : F → List V}

lemma Tracks.mem_bucketEntries (h : Tracks sc ix current) {b : ℕ} {entry : IndexEntry S F} :
    entry ∈ (ix.ensureNvtCurrent sc).bucketEntries b ↔ sc.bucketOf entry.scalar = b ∧
      ∃ v ∈ current entry.fileHash, ∃ token ∈ ix.converter.expandValue v, ix.converter.toScalar token = entry.scalar := by
  obtain ⟨htracks, hclean⟩ := h.ensureNvtCurrent
  rw [htracks.buckets hclean, mem_filter, htracks.entries, ensureNvtCurrent_converter]
  simp [and_comm]

end

variable [DecidableEq V]

def files (entries : List (IndexEntry S F)) : List F := entries.map (·.fileHash)

lemma Tracks.mem_lookupExact {ix : FieldIndex V S F} {current : F → List V} (h : Tracks sc ix current)
    (hwhole : ∀ v, ix.converter.expandValue v = [v]) (v : V) (f : F) : f ∈ files (ix.lookupExact sc v) ↔ (current f).getLast? = some v := by
  obtain ⟨htracks, _⟩ := h.ensureNvtCurrent
  simp only [files, FieldIndex.lookupExact, mem_map, mem_filter, ensureNvtCurrent_converter, h.mem_bucketEntries, htracks.values]
  constructor
  · rintro ⟨entry, ⟨⟨_, w, hw, _⟩, hcheck⟩, rfl⟩
    cases hlast : (current entry.fileHash).getLast? with
    | none => simp [getLast?_eq_none_iff.mp hlast] at hw
    | some u =>
      have hu : u = v := by
        have hboth := hcheck
        rw [hlast] at hboth
        simpa using (Bool.and_eq_true_iff.mp hboth).2
      rw [hu]
  · intro hlast
    refine ⟨⟨ix.converter.toScalar v, f⟩, ⟨⟨rfl, v, mem_of_getLast? hlast, v, by simp [hwhole], rfl⟩, ?_⟩, rfl⟩
    simp [sc.close_self, hlast]

lemma getLast?_finds_iff {α : Type} {l : List α} : (∀ v, l.getLast? = some v ↔ v ∈ l) ↔ ∀ v ∈ l, ∀ w ∈ l, v = w := by
  constructor
  · intro h v hv w hw
    have hlast := ((h v).mpr hv).symm.trans ((h w).mpr hw)
    simpa using hlast
  · intro h v
    refine ⟨mem_of_getLast?, fun hv => ?_⟩
    cases hlast : l.getLast? with
    | none => simp [getLast?_eq_none_iff.mp hlast] at hv
    | some w => rw [h w (mem_of_getLast? hlast) v hv]

theorem lookupExact_correct_iff (fieldName : Str) (toScalar : V → S) (ordered : Bool) (name : String) (tag : ConverterType)
    (ops : List (IndexOp V F)) :
    (∀ v f, f ∈ files ((runOps sc (FieldIndex.new sc fieldName (wholeValue toScalar ordered name tag)) ops).lookupExact sc v) ↔
      v ∈ assigned ops f) ↔ ∀ f, ∀ v ∈ assigned ops f, ∀ w ∈ assigned ops f, v = w := by
  have htracks := tracks_runOps sc fieldName (wholeValue toScalar ordered name tag) ops
  have hlookup := htracks.mem_lookupExact (fun v => by rw [runOps_converter]; rfl)
  simp only [hlookup]
  constructor
  · intro h f
    exact getLast?_finds_iff.mp fun v => h v f
  · intro h v f
    exact getLast?_finds_iff.mpr (h f) v

set_option maxRecDepth 20000 in
theorem lookupExact_misses :
    1 ∈ assigned [IndexOp.update 0 [1, 2]] 0 ∧
      0 ∉ files ((runOps natScale (FieldIndex.new natScale [] (wholeValue id true "u64" .u64)) [IndexOp.update 0 [1, 2]]).lookupExact natScale 1) := by
  constructor <;> decide

end AeorDb.Query
