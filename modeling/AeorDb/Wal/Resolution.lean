import AeorDb.Store.Digest
import AeorDb.Wal.Rebuild

/-! Which of the scanned records a rebuild keeps, and which of these it marks as deleted. -/

namespace AeorDb.Wal

open Library Store Index RebuildKvRecord Table List Option

variable {H : Type}

namespace RebuildKvRecord

def IsDirectory (r : RebuildKvRecord H) : Prop := r.typeFlags &&& 0x0F = toKvType .directoryIndex

instance (r : RebuildKvRecord H) : Decidable r.IsDirectory := inferInstanceAs (Decidable (_ = _))

def rank (r : RebuildKvRecord H) : ℕ ×ₗ ℤ ×ₗ ℕ :=
  toLex (if r.IsDirectory ∧ 0 < r.valueLength then 1 else 0, toLex (r.order.timestamp, r.order.offset))

def deleted (r : RebuildKvRecord H) : RebuildKvRecord H := { r with typeFlags := r.typeFlags &&& 0x0F ||| kvFlagDeleted }

set_option maxRecDepth 20000 in
lemma deleted_deleted (r : RebuildKvRecord H) : r.deleted.deleted = r.deleted := by
  have hflags : ∀ flags : UInt8, (flags &&& 0x0F ||| kvFlagDeleted) &&& 0x0F ||| kvFlagDeleted = flags &&& 0x0F ||| kvFlagDeleted := by
    decide
  simp only [deleted, hflags]

end RebuildKvRecord

section

lemma isAfter_iff {a b : RebuildOrder} : a.isAfter b = true ↔ toLex (b.timestamp, b.offset) < toLex (a.timestamp, a.offset) := by
  rw [Prod.Lex.toLex_lt_toLex, RebuildOrder.isAfter, Bool.or_eq_true, Bool.and_eq_true, decide_eq_true_iff, decide_eq_true_iff,
    decide_eq_true_iff, eq_comm]

variable {a b : RebuildKvRecord H} {r : RebuildKvRecord H}

lemma shouldReplaceRebuildRecord_iff (htype : a.IsDirectory ↔ b.IsDirectory) :
    shouldReplaceRebuildRecord a b = true ↔ a.rank < b.rank := by
  rw [rank, rank, Prod.Lex.toLex_lt_toLex, ← isAfter_iff, shouldReplaceRebuildRecord]
  by_cases ha : a.IsDirectory
  · have hb := htype.mp ha
    rw [RebuildKvRecord.IsDirectory] at ha hb
    by_cases hav : 0 < a.valueLength
    · by_cases hbv : 0 < b.valueLength
      · simp [RebuildKvRecord.IsDirectory, ha, hb, hav, hbv, hav.ne', hbv.ne']
      · simp [RebuildKvRecord.IsDirectory, ha, hb, hav, Nat.eq_zero_of_not_pos hbv]
    · by_cases hbv : 0 < b.valueLength
      · simp [RebuildKvRecord.IsDirectory, ha, hb, hbv, hbv.ne', Nat.eq_zero_of_not_pos hav]
      · simp [RebuildKvRecord.IsDirectory, ha, hb, Nat.eq_zero_of_not_pos hav, Nat.eq_zero_of_not_pos hbv]
  · have hb := mt htype.mpr ha
    rw [RebuildKvRecord.IsDirectory] at ha hb
    simp [RebuildKvRecord.IsDirectory, ha, hb]

structure Kept (records : List (RebuildKvRecord H)) (k : H) (r : RebuildKvRecord H) : Prop where
  mem : r ∈ records
  key : r.hash = k
  last : ∀ x ∈ records, x.hash = k → x.rank ≤ r.rank

lemma Kept.perm {records records' : List (RebuildKvRecord H)} {k : H} (h : Kept records k r)
    (hp : records.Perm records') : Kept records' k r :=
  ⟨hp.mem_iff.mp h.mem, h.key, fun x hx => h.last x (hp.mem_iff.mpr hx)⟩

lemma order_eq_of_rank_eq (h : a.rank = b.rank) : a.order = b.order := by
  obtain ⟨_, horder⟩ := Prod.mk.inj (toLex.injective h)
  obtain ⟨htime, hoffset⟩ := Prod.mk.inj (toLex.injective horder)
  exact congrArg₂ RebuildOrder.mk htime hoffset

variable {records : List (RebuildKvRecord H)}

lemma Kept.unique (horders : (records.map (·.order)).Nodup) {k : H}
    (ha : Kept records k a) (hb : Kept records k b) : a = b := by
  have hrank := le_antisymm (hb.last a ha.mem ha.key) (ha.last b hb.mem hb.key)
  exact inj_on_of_nodup_map horders ha.mem hb.mem (order_eq_of_rank_eq hrank)

def Uniform (records : List (RebuildKvRecord H)) (k : H) : Prop :=
  ∀ a ∈ records, ∀ b ∈ records, a.hash = k → b.hash = k → (a.IsDirectory ↔ b.IsDirectory)

variable [DecidableEq H] {k : H}

lemma get_resolveRebuildRecord (resolved : RebuildKvRecords H) (r : RebuildKvRecord H) (k : H) : (resolveRebuildRecord resolved r).get k =
      if k = r.hash then some (match resolved.get k with
        | some existing => if shouldReplaceRebuildRecord existing r then r else existing
        | none => r)
      else resolved.get k := by
  rw [resolveRebuildRecord]
  split_ifs with hk
  · subst hk
    cases hget : resolved.get r.hash with
    | none => simp
    | some existing =>
      dsimp only
      split_ifs
      · simp
      · exact hget
  · cases hget : resolved.get r.hash with
    | none => simp [hk]
    | some existing =>
      dsimp only
      split_ifs
      · simp [hk]
      · rfl

lemma kept_of_foldl (hu : Uniform records k) : (∀ r ∈ records, r.hash ≠ k) ∧ (records.foldl resolveRebuildRecord empty).get k = none ∨
      ∃ r, Kept records k r ∧ (records.foldl resolveRebuildRecord empty).get k = some r := by
  induction records using List.reverseRecOn with
  | nil => exact .inl ⟨fun _ hr => absurd hr not_mem_nil, get_empty k⟩
  | append_singleton records x ih =>
    have hx : x ∈ records ++ [x] := mem_append_right _ (mem_singleton_self x)
    have ih' := ih fun a ha b hb => hu a (mem_append_left _ ha) b (mem_append_left _ hb)
    rw [List.foldl_append, foldl_cons, foldl_nil, get_resolveRebuildRecord]
    generalize records.foldl resolveRebuildRecord empty = resolved at ih' ⊢
    by_cases hk : k = x.hash
    · rw [if_pos hk]
      right
      rcases ih' with ⟨hnone, hget⟩ | ⟨r, hr, hget⟩
      · rw [hget]
        refine ⟨x, ⟨hx, hk.symm, fun y hy hyk => ?_⟩, rfl⟩
        rcases mem_append.mp hy with hold | hnew
        · exact absurd hyk (hnone y hold)
        · rw [mem_singleton.mp hnew]
      · have hreplace := shouldReplaceRebuildRecord_iff (hu r (mem_append_left _ hr.mem) x hx hr.key hk.symm)
        rw [hget]
        by_cases hlt : r.rank < x.rank
        · refine ⟨x, ⟨hx, hk.symm, fun y hy hyk => ?_⟩, congrArg some (if_pos (hreplace.mpr hlt))⟩
          rcases mem_append.mp hy with hold | hnew
          · exact (hr.last y hold hyk).trans hlt.le
          · rw [mem_singleton.mp hnew]
        · refine ⟨r, ⟨mem_append_left _ hr.mem, hr.key, fun y hy hyk => ?_⟩, congrArg some (if_neg (mt hreplace.mp hlt))⟩
          rcases mem_append.mp hy with hold | hnew
          · exact hr.last y hold hyk
          · rw [mem_singleton.mp hnew]
            exact not_lt.mp hlt
    · rw [if_neg hk]
      have hother : ∀ y ∈ records ++ [x], y.hash = k → y ∈ records := by
        intro y hy hyk
        rcases mem_append.mp hy with hold | hnew
        · exact hold
        · rw [mem_singleton.mp hnew] at hyk
          exact absurd hyk.symm hk
      rcases ih' with ⟨hnone, hget⟩ | ⟨r, hr, hget⟩
      · exact .inl ⟨fun y hy hyk => hnone y (hother y hy hyk) hyk, hget⟩
      · exact .inr ⟨r, ⟨mem_append_left _ hr.mem, hr.key, fun y hy hyk => hr.last y (hother y hy hyk) hyk⟩, hget⟩

lemma get_foldl_eq_some_iff (horders : (records.map (·.order)).Nodup) (hu : Uniform records k)
 : (records.foldl resolveRebuildRecord empty).get k = some r ↔ Kept records k r := by
  rcases kept_of_foldl hu with ⟨hnone, hget⟩ | ⟨x, hx, hget⟩
  · rw [hget]
    exact ⟨(fun h => nomatch h), fun h => absurd h.key (hnone r h.mem)⟩
  · rw [hget, Option.some.injEq]
    constructor
    · rintro rfl
      exact hx
    · exact fun hr => hx.unique horders hr

variable (hs : Hasher H)

def Struck (deletions : List (Str × RebuildOrder)) (r : RebuildKvRecord H) : Prop :=
  ∃ d ∈ deletions, r.hash ∈ deletionKeys hs d.1 ∧ d.2.isAfter r.order = true

instance (deletions : List (Str × RebuildOrder)) (r : RebuildKvRecord H) : Decidable (Struck hs deletions r) :=
  inferInstanceAs (Decidable (∃ d ∈ deletions, _))

variable {hs}

lemma get_markRebuildRecordDeletedIfOlder (order : RebuildOrder) (records : RebuildKvRecords H) (key k : H) :
    (markRebuildRecordDeletedIfOlder order records key).get k =
      (records.get k).map fun r => if k = key ∧ order.isAfter r.order = true then r.deleted else r := by
  rw [markRebuildRecordDeletedIfOlder]
  by_cases hk : k = key
  · subst hk
    cases hget : records.get k with
    | none => exact hget
    | some entry =>
      have hkey : k = entry.hash := (get_eq_some.mp hget).2.symm
      dsimp only
      by_cases hafter : order.isAfter entry.order = true
      · rw [if_pos hafter, get_insert, if_pos hkey, map_some, if_pos ⟨rfl, hafter⟩]
        rfl
      · rw [if_neg hafter, hget, map_some, if_neg fun h => hafter h.2]
  · have hkeep : (fun r : RebuildKvRecord H => if k = key ∧ order.isAfter r.order = true then r.deleted else r) = id :=
      funext fun r => if_neg fun h => hk h.1
    rw [hkeep, map_id_apply]
    cases hget : records.get key with
    | none => rfl
    | some entry =>
      have hkey : entry.hash = key := (get_eq_some.mp hget).2
      dsimp only
      split_ifs
      · exact (get_insert _ _ _).trans (if_neg (hkey ▸ hk))
      · rfl

lemma get_foldl_mark {α : Type} (mark : RebuildKvRecords H → α → RebuildKvRecords H) (p : α → RebuildKvRecord H → Prop)
    [∀ a r, Decidable (p a r)] (hp : ∀ a r, p a r.deleted ↔ p a r)
    (hmark : ∀ records a, (mark records a).get k = (records.get k).map fun r => if p a r then r.deleted else r) (as : List α)
    (records : RebuildKvRecords H) :
    (as.foldl mark records).get k = (records.get k).map fun r => if ∃ a ∈ as, p a r then r.deleted else r := by
  induction as generalizing records with
  | nil => simp
  | cons a as ih =>
    rw [foldl_cons, ih, hmark, Option.map_map]
    congr 1
    funext r
    simp only [Function.comp_apply, exists_mem_cons_iff]
    by_cases ha : p a r
    · simp only [ha, if_true, true_or, hp, deleted_deleted, ite_self]
    · simp only [ha, if_false, false_or]

lemma get_replayDeletionRecord (records : RebuildKvRecords H) (d : Str × RebuildOrder) (k : H) : (replayDeletionRecord hs records d).get k =
      (records.get k).map fun r => if k ∈ deletionKeys hs d.1 ∧ d.2.isAfter r.order = true then r.deleted else r := by
  have hall := get_foldl_mark (markRebuildRecordDeletedIfOlder d.2) (fun key r => k = key ∧ d.2.isAfter r.order = true)
    (fun _ _ => Iff.rfl) (fun records key => get_markRebuildRecordDeletedIfOlder d.2 records key k) (deletionKeys hs d.1) records
  rw [replayDeletionRecord, hall]
  simp

lemma get_resolveRebuildRecords (records : List (RebuildKvRecord H)) (deletions : List (Str × RebuildOrder)) (k : H) :
    (resolveRebuildRecords hs records deletions).get k =
      ((records.foldl resolveRebuildRecord empty).get k).map fun r => if Struck hs deletions r then r.deleted else r := by
  have hall := get_foldl_mark (replayDeletionRecord hs) (fun d r => k ∈ deletionKeys hs d.1 ∧ d.2.isAfter r.order = true)
    (fun _ _ => Iff.rfl) (fun records d => get_replayDeletionRecord records d k) deletions (records.foldl resolveRebuildRecord empty)
  rw [resolveRebuildRecords, hall]
  refine map_congr fun r hr => ?_
  obtain ⟨_, rfl⟩ := get_eq_some.mp hr
  rfl

end

variable [DecidableEq H] {hs : Hasher H} {records records' : List (RebuildKvRecord H)} {deletions deletions' : List (Str × RebuildOrder)}

omit [DecidableEq H] in
lemma Struck.perm (hd : deletions.Perm deletions') (r : RebuildKvRecord H) : Struck hs deletions r ↔ Struck hs deletions' r := by
  constructor
  · rintro ⟨d, hmem, hstruck⟩
    exact ⟨d, hd.mem_iff.mp hmem, hstruck⟩
  · rintro ⟨d, hmem, hstruck⟩
    exact ⟨d, hd.mem_iff.mpr hmem, hstruck⟩

/-- The index that a rebuild gives does not depend on the order in which the scan met the records and the deletions. -/
theorem resolveRebuildRecords_perm (horders : (records.map (·.order)).Nodup)
    (htypes : ∀ a ∈ records, ∀ b ∈ records, a.hash = b.hash → a.typeFlags &&& 0x0F = b.typeFlags &&& 0x0F)
    (hr : records.Perm records') (hd : deletions.Perm deletions') :
    ((resolveRebuildRecords hs records deletions).entries.map toKvEntry).Perm
      ((resolveRebuildRecords hs records' deletions').entries.map toKvEntry) := by
  have huniform (k : H) : Uniform records k := by
    intro a ha b hb hak hbk
    rw [RebuildKvRecord.IsDirectory, RebuildKvRecord.IsDirectory, htypes a ha b hb (hak.trans hbk.symm)]
  have huniform' (k : H) : Uniform records' k := fun a ha b hb => huniform k a (hr.mem_iff.mpr ha) b (hr.mem_iff.mpr hb)
  have horders' : (records'.map (·.order)).Nodup := (hr.map _).nodup_iff.mp horders
  refine (perm_entries fun k => ?_).map _
  rw [get_resolveRebuildRecords, get_resolveRebuildRecords]
  have hkept : (records.foldl resolveRebuildRecord empty).get k = (records'.foldl resolveRebuildRecord empty).get k := by
    ext r
    rw [get_foldl_eq_some_iff horders (huniform k), get_foldl_eq_some_iff horders' (huniform' k)]
    exact ⟨fun h => h.perm hr, fun h => h.perm hr.symm⟩
  rw [hkept]
  refine map_congr fun r _ => ?_
  simp only [Struck.perm hd r]

def scannedDirectory : List (RebuildKvRecord Digest) :=
  [⟨toKvType .directoryIndex, Digest.hasher.directoryPathHash "/d".toList, 100, 40, 135, ⟨1, 100⟩⟩,
    ⟨toKvType .directoryIndex, Digest.hasher.directoryPathHash "/d".toList, 300, 0, 95, ⟨3, 300⟩⟩]

theorem resolveRebuildRecords_perm_reverse :
    ((resolveRebuildRecords Digest.hasher scannedDirectory [("/d".toList, ⟨2, 235⟩)]).entries.map toKvEntry).Perm
      ((resolveRebuildRecords Digest.hasher scannedDirectory.reverse [("/d".toList, ⟨2, 235⟩)]).entries.map toKvEntry) :=
  resolveRebuildRecords_perm (by decide) (by decide) (reverse_perm _).symm (List.Perm.refl _)

end AeorDb.Wal
