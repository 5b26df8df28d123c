import AeorDb.Index.Growth
import AeorDb.Wal.Expansion

namespace AeorDb.Wal

open AeorDb.Library AeorDb.Store AeorDb.Index ByteFile

variable {f f' : ByteFile} {src dst size : ℕ} {n : ℕ}

lemma copyChunks_data (hbehind : src + size ≤ dst)
    (hok : copyChunks n f src dst size = .ok () f') :
    (∀ i < dst, f'.data i = f.data i) ∧ ∀ i < size, f'.data (dst + i) = f.data (src + i) := by
  induction n generalizing f src dst size with
  | zero =>
    unfold copyChunks at hok
    split at hok
    · injection hok with _ hok
      exact hok ▸ ⟨fun _ _ => rfl, fun i hi => by omega⟩
    · cases hok
  | succ n ih =>
    unfold copyChunks at hok
    split at hok
    · injection hok with _ hok
      exact hok ▸ ⟨fun _ _ => rfl, fun i hi => by omega⟩
    dsimp only at hok
    split at hok
    · cases hok
    next buf hread =>
    obtain ⟨_, rfl⟩ := ByteFile.readExact_eq_some.mp hread
    set c := min copyChunkSize size
    have hc : c ≤ size := Nat.min_le_right _ _
    obtain ⟨hbefore, hcopied⟩ := ih (by omega) hok
    refine ⟨fun i hi => ?_, fun i hi => ?_⟩
    · rw [hbefore i (by omega), data_write_of_lt f _ hi]
    · by_cases hic : i < c
      · rw [hbefore (dst + i) (by omega), data_write_region f f hic]
      · -- a later chunk, read from bytes in front of everything written so far
        have h := hcopied (i - c) (by omega)
        rw [show dst + c + (i - c) = dst + i by omega, show src + c + (i - c) = src + i by omega] at h
        rw [h, data_write_of_lt f _ (by omega)]

lemma copyChunks_ok (hfuel : size ≤ n * copyChunkSize)
    (hsize : src + size ≤ f.size) : ∃ f', copyChunks n f src dst size = .ok () f' := by
  induction n generalizing f src dst size with
  | zero => exact ⟨f, if_pos (by omega)⟩
  | succ n ih =>
    unfold copyChunks
    split
    · exact ⟨f, rfl⟩
    · have hc : min copyChunkSize size ≤ size := Nat.min_le_right _ _
      have hread := ByteFile.readExact_eq_some.mpr
        ⟨show src + min copyChunkSize size ≤ f.size by omega, rfl⟩
      dsimp only
      rw [hread]
      refine ih ?_ (le_trans ?_ (f.size_le_write _ _))
      · rw [Nat.succ_mul] at hfuel
        omega
      · omega

lemma copyRegion_ok (hsize : src + size ≤ f.size) : ∃ f', copyRegion f src dst size = .ok () f' := by
  refine copyChunks_ok ?_ hsize
  have hdiv := Nat.lt_div_mul_add (a := size) (show 0 < copyChunkSize by decide)
  rw [Nat.succ_mul]
  omega

variable {f : ByteFile} {hotTailOffset : ℕ}

lemma findMagic_some {n pos p : ℕ} (h : findMagic f hotTailOffset n pos = some p) :
    pos ≤ p ∧ p < pos + n ∧ p < hotTailOffset ∧ f.region p 4 = entryMagic := by
  induction n generalizing pos with
  | zero => cases h
  | succ n ih =>
    unfold findMagic at h
    split at h
    · next hpos =>
      split at h
      · cases h
      next buf hread =>
      split at h
      · next hmagic =>
        cases h
        refine ⟨Nat.le_refl _, by omega, hpos, ?_⟩
        exact (ByteFile.readExact_eq_some.mp hread).2.trans hmagic
      · obtain ⟨h1, h2, h3, h4⟩ := ih h
        exact ⟨by omega, by omega, h3, h4⟩
    · cases h

lemma findMagic_le {n pos q : ℕ} (hpos : pos ≤ q) (hn : q < pos + n) (hq : q < hotTailOffset) (hsize : q + 4 ≤ f.size)
    (hmagic : f.region q 4 = entryMagic) : ∃ p ≤ q, findMagic f hotTailOffset n pos = some p := by
  induction n generalizing pos with
  | zero => omega
  | succ n ih =>
    unfold findMagic
    rw [if_pos (by omega), ByteFile.readExact_eq_some.mpr ⟨show pos + 4 ≤ f.size by omega, rfl⟩]
    dsimp only
    by_cases hm : f.region pos 4 = entryMagic
    · exact ⟨pos, hpos, if_pos hm⟩
    · have hne : pos ≠ q := fun h => hm (h ▸ hmagic)
      obtain ⟨p, hp, hfind⟩ := ih (show pos + 1 ≤ q by omega) (by omega)
      exact ⟨p, hp, by rw [if_neg hm, hfind]⟩

variable {newKvEnd : ℕ}

lemma actualCopyEnd_bounds : newKvEnd ≤ actualCopyEnd f hotTailOffset newKvEnd ∧
    actualCopyEnd f hotTailOffset newKvEnd < newKvEnd + scanLimit ∧
    (newKvEnd ≤ hotTailOffset → actualCopyEnd f hotTailOffset newKvEnd ≤ hotTailOffset) := by
  unfold actualCopyEnd
  rcases h : findMagic f hotTailOffset scanLimit newKvEnd with _ | p
  · exact ⟨Nat.le_refl _, Nat.lt_add_of_pos_right (by decide), fun h => h⟩
  · obtain ⟨h1, h2, h3, _⟩ := findMagic_some h
    exact ⟨h1, h2, fun _ => h3.le⟩

lemma actualCopyEnd_le {q : ℕ} (hpos : newKvEnd ≤ q) (hq : q < hotTailOffset) (hsize : q + 4 ≤ f.size)
    (hmagic : f.region q 4 = entryMagic) : actualCopyEnd f hotTailOffset newKvEnd ≤ q := by
  by_cases hn : q < newKvEnd + scanLimit
  · obtain ⟨p, hp, hfind⟩ := findMagic_le hpos hn hq hsize hmagic
    rw [actualCopyEnd, hfind]
    exact hp
  · have := (@actualCopyEnd_bounds f hotTailOffset newKvEnd).2.1
    omega

lemma actualCopyEnd_eq {q : ℕ} (hpos : newKvEnd ≤ q) (hn : q < newKvEnd + scanLimit) (hq : q < hotTailOffset)
    (hsize : q + 4 ≤ f.size) (hmagic : f.region q 4 = entryMagic)
    (hfirst : ∀ i, newKvEnd ≤ i → i < q → f.region i 4 ≠ entryMagic) : actualCopyEnd f hotTailOffset newKvEnd = q := by
  obtain ⟨p, hp, hfind⟩ := findMagic_le hpos hn hq hsize hmagic
  obtain ⟨hp1, _, _, hp4⟩ := findMagic_some hfind
  have hpq : p = q := by
    by_contra hne
    exact hfirst p hp1 (by omega) hp4
  rw [actualCopyEnd, hfind, hpq]
  rfl

end AeorDb.Wal
