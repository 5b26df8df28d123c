import Mathlib

/-! Files of bytes with reads and writes at an offset. -/

namespace AeorDb.Library

open List

structure ByteFile where
  data : ℕ → UInt8
  size : ℕ
  beyond : ∀ i, size ≤ i → data i = 0

namespace ByteFile

def region (f : ByteFile) (offset length : ℕ) : List UInt8 := (List.range length).map fun i => f.data (offset + i)

def ofBytes (bytes : List UInt8) : ByteFile where
  data i := bytes.getD i 0
  size := bytes.length
  beyond _ hi := getD_eq_default _ _ hi

def readExact (f : ByteFile) (offset length : ℕ) : Option (List UInt8) :=
  if offset + length ≤ f.size then some (f.region offset length) else none

def write (f : ByteFile) (offset : ℕ) (bytes : List UInt8) : ByteFile where
  data := fun i => if offset ≤ i ∧ i < offset + bytes.length then bytes.getD (i - offset) 0 else f.data i
  size := if bytes.isEmpty then f.size else max f.size (offset + bytes.length)
  beyond := by
    intro i hi
    by_cases hb : bytes.isEmpty = true
    · rw [if_pos hb] at hi
      rw [List.isEmpty_iff] at hb
      rw [if_neg (by simp [hb]), f.beyond i hi]
    · rw [if_neg hb] at hi
      rw [if_neg (by omega), f.beyond i (by omega)]

def setLen (f : ByteFile) (length : ℕ) : ByteFile where
  data := fun i => if i < length ∧ i < f.size then f.data i else 0
  size := length
  beyond := by
    intro i hi
    rw [if_neg (by omega)]

@[simp] lemma length_region (f : ByteFile) (offset length : ℕ) : (f.region offset length).length = length := by
  simp [region]

variable {offset i : ℕ} {f g : ByteFile} {k n : ℕ}

lemma data_write_of_lt (f : ByteFile) (bytes : List UInt8) (h : i < offset) : (f.write offset bytes).data i = f.data i :=
  if_neg (by omega)

lemma data_write_of_ge (f : ByteFile) (bytes : List UInt8) (h : offset + bytes.length ≤ i) :
    (f.write offset bytes).data i = f.data i :=
  if_neg (by omega)

lemma data_write_region (f g : ByteFile) {offset src length i : ℕ} (hi : i < length) :
    (f.write offset (g.region src length)).data (offset + i) = g.data (src + i) := by
  have hin : offset ≤ offset + i ∧ offset + i < offset + (g.region src length).length := by
    rw [length_region]
    omega
  refine (if_pos hin).trans ?_
  rw [Nat.add_sub_cancel_left, region, getD_eq_getElem _ _ (by simpa using hi), getElem_map,
    getElem_range]

lemma data_setLen_of_lt (f : ByteFile) {length i : ℕ} (h : i < length) : (f.setLen length).data i = f.data i := by
  change (if i < length ∧ i < f.size then f.data i else 0) = f.data i
  by_cases hi : i < f.size
  · rw [if_pos ⟨h, hi⟩]
  · rw [if_neg (by omega), f.beyond i (by omega)]

lemma size_le_write (f : ByteFile) (offset : ℕ) (bytes : List UInt8) : f.size ≤ (f.write offset bytes).size := by
  change f.size ≤ if bytes.isEmpty then f.size else max f.size (offset + bytes.length)
  split <;> omega

lemma region_congr {offset offset' length : ℕ}
    (h : ∀ i < length, f.data (offset + i) = g.data (offset' + i)) : f.region offset length = g.region offset' length :=
  map_congr_left fun i hi => h i (mem_range.mp hi)

lemma data_eq_of_region_eq {offset offset' length : ℕ}
    (h : f.region offset length = g.region offset' length) {i : ℕ} (hi : i < length) : f.data (offset + i) = g.data (offset' + i) :=
  map_inj_left.mp h i (mem_range.mpr hi)

lemma data_write_head (f : ByteFile) (offset : ℕ) (b : UInt8) (bytes : List UInt8) : (f.write offset (b :: bytes)).data offset = b := by
  refine (if_pos ⟨Nat.le_refl _, Nat.lt_add_of_pos_right (by simp)⟩).trans ?_
  simp

variable {bytes : List UInt8}

lemma readExact_eq_some {f : ByteFile} {offset length : ℕ} :
    f.readExact offset length = some bytes ↔ offset + length ≤ f.size ∧ f.region offset length = bytes := by
  unfold readExact
  split <;> simp_all

lemma take_drop_region (f : ByteFile) {offset length k n : ℕ} (h : k + n ≤ length) :
    ((f.region offset length).drop k).take n = f.region (offset + k) n := by
  refine ext_getElem (by simp; omega) fun i _ _ => ?_
  simp [region, Nat.add_assoc]

lemma region_write (f : ByteFile) (offset : ℕ) {length : ℕ} (hlength : bytes.length = length) :
    (f.write offset bytes).region offset length = bytes := by
  subst hlength
  apply ext_getElem (length_region _ _ _)
  intro i hi hbytes
  have hin : offset ≤ offset + i ∧ offset + i < offset + bytes.length := by omega
  simp only [region, getElem_map, getElem_range]
  refine (if_pos hin).trans ?_
  rw [Nat.add_sub_cancel_left, getD_eq_getElem _ _ hbytes]

lemma region_write_part (f : ByteFile) (offset : ℕ) (h : k + n ≤ bytes.length) :
    (f.write offset bytes).region (offset + k) n = (bytes.drop k).take n := by
  apply ext_getElem
  · rw [length_region, length_take, length_drop]
    omega
  · intro i hi _
    rw [length_region] at hi
    have hin : offset ≤ offset + k + i ∧ offset + k + i < offset + bytes.length := by omega
    simp only [region, getElem_map, getElem_range, getElem_take, getElem_drop]
    refine (if_pos hin).trans ?_
    rw [Nat.add_assoc, Nat.add_sub_cancel_left, getD_eq_getElem]

lemma readExact_write_part (f : ByteFile) (offset : ℕ) (h : k + n ≤ bytes.length) (hk : 0 < bytes.length) :
    (f.write offset bytes).readExact (offset + k) n = some ((bytes.drop k).take n) := by
  rw [readExact_eq_some]
  refine ⟨?_, region_write_part f offset h⟩
  change offset + k + n ≤ if bytes.isEmpty then f.size else max f.size (offset + bytes.length)
  rw [if_neg (by rw [List.isEmpty_iff]; exact ne_nil_of_length_pos hk)]
  omega

lemma size_write (f : ByteFile) (offset : ℕ) (h : 0 < bytes.length) : (f.write offset bytes).size = max f.size (offset + bytes.length) := by
  refine if_neg ?_
  rw [List.isEmpty_iff]
  rintro rfl
  exact absurd h (by decide)

lemma le_size_write (f : ByteFile) (offset : ℕ) (h : 0 < bytes.length) : offset + bytes.length ≤ (f.write offset bytes).size := by
  rw [size_write f offset h]
  exact le_max_right _ _

structure Moved (start shift : ℕ) (f g : ByteFile) : Prop where
  size : g.size = f.size + shift
  data : ∀ i, start ≤ i → g.data (i + shift) = f.data i

namespace Moved

variable {start shift p : ℕ} {f g : ByteFile}

lemma region (h : Moved start shift f g) (hp : start ≤ p) (length : ℕ) : g.region (p + shift) length = f.region p length := by
  refine region_congr fun i _ => ?_
  rw [show p + shift + i = p + i + shift by omega]
  exact h.data (p + i) (by omega)

lemma readExact (h : Moved start shift f g) (hp : start ≤ p) (length : ℕ) : g.readExact (p + shift) length = f.readExact p length := by
  have hsize : p + shift + length ≤ g.size ↔ p + length ≤ f.size := by
    rw [h.size]
    omega
  rw [ByteFile.readExact, ByteFile.readExact, h.region hp]
  exact if_congr hsize rfl rfl

end Moved

end ByteFile

end AeorDb.Library
