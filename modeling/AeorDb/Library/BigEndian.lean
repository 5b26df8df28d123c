import Mathlib

/-! Numbers as big-endian bytes, and the order of byte strings. -/

namespace AeorDb.Library

instance byteOrder : LinearOrder UInt8 where
  le_refl x := UInt8.le_refl x
  le_trans _ _ _ h h' := UInt8.le_trans h h'
  lt_iff_le_not_ge x y := by
    rw [UInt8.lt_iff_toNat_lt, UInt8.le_iff_toNat_le, UInt8.le_iff_toNat_le]
    omega
  le_antisymm _ _ h h' := UInt8.le_antisymm h h'
  le_total x y := UInt8.le_total x y
  toDecidableLE := inferInstance

def beBytes : ℕ → ℕ → List UInt8
  | 0, _ => []
  | n + 1, k => UInt8.ofNat (k / 256 ^ n) :: beBytes n k

def beValue (bytes : List UInt8) : ℕ := bytes.foldl (fun acc b => 256 * acc + b.toNat) 0

lemma length_beBytes (n k : ℕ) : (beBytes n k).length = n := by
  induction n with
  | zero => rfl
  | succ n ih => rw [beBytes, List.length_cons, ih]

lemma beValue_beBytes (n k : ℕ) : beValue (beBytes n k) = k % 256 ^ n := by
  have hfold : ∀ n acc, (beBytes n k).foldl (fun acc b => 256 * acc + b.toNat) acc = 256 ^ n * acc + k % 256 ^ n := by
    intro n
    induction n with
    | zero => simp [beBytes, Nat.mod_one]
    | succ n ih =>
      intro acc
      have hhead : (UInt8.ofNat (k / 256 ^ n)).toNat = k / 256 ^ n % 256 := by simp
      rw [beBytes, List.foldl_cons, ih, hhead, Nat.pow_succ, Nat.mod_mul]
      ring
  rw [beValue, hfold n 0]
  simp

lemma beBytes_mod (n k m : ℕ) (h : n ≤ m) : beBytes n (k % 256 ^ m) = beBytes n k := by
  induction n with
  | zero => rfl
  | succ n ih =>
    rw [beBytes, beBytes, ih (by omega)]
    congr 1
    obtain ⟨d, rfl⟩ : ∃ d, m = n + 1 + d := ⟨m - (n + 1), by omega⟩
    refine UInt8.toNat_inj.mp ?_
    have hpow : (256 : ℕ) ^ (n + 1 + d) = 256 ^ n * (256 * 256 ^ d) := by ring
    simp only [UInt8.toNat_ofNat']
    rw [hpow, Nat.mod_mul_right_div_self]
    exact Nat.mod_mul_right_mod _ _ _

lemma beBytes_lt_iff {n k l : ℕ} (hk : k < 256 ^ n) (hl : l < 256 ^ n) : beBytes n k < beBytes n l ↔ k < l := by
  induction n generalizing k l with
  | zero =>
    have hzero : k = l := by simp at hk hl; omega
    simp [beBytes, hzero]
  | succ n ih =>
    have hpos : 0 < 256 ^ n := by positivity
    have hkd : k / 256 ^ n < 256 := Nat.div_lt_of_lt_mul (by rwa [← Nat.pow_succ])
    have hld : l / 256 ^ n < 256 := Nat.div_lt_of_lt_mul (by rwa [← Nat.pow_succ])
    have htail : ∀ m, beBytes n m = beBytes n (m % 256 ^ n) := fun m => (beBytes_mod n m n le_rfl).symm
    have hhead : ∀ a b, a < 256 → b < 256 → (UInt8.ofNat a < UInt8.ofNat b ↔ a < b) ∧ (UInt8.ofNat a = UInt8.ofNat b ↔ a = b) := by
      intro a b ha hb
      rw [UInt8.lt_iff_toNat_lt, ← UInt8.toNat_inj]
      simp [Nat.mod_eq_of_lt ha, Nat.mod_eq_of_lt hb]
    rw [beBytes, beBytes, List.cons_lt_cons_iff, (hhead _ _ hkd hld).1, (hhead _ _ hkd hld).2, htail k, htail l,
      ih (Nat.mod_lt k hpos) (Nat.mod_lt l hpos)]
    have hkm := Nat.div_add_mod k (256 ^ n)
    have hlm := Nat.div_add_mod l (256 ^ n)
    have hkr := Nat.mod_lt k hpos
    have hlr := Nat.mod_lt l hpos
    generalize k / 256 ^ n = a at *
    generalize l / 256 ^ n = b at *
    generalize k % 256 ^ n = c at *
    generalize l % 256 ^ n = d at *
    generalize 256 ^ n = w at *
    constructor
    · rintro (hab | ⟨rfl, hcd⟩)
      · have hmul := Nat.mul_le_mul_left w (Nat.succ_le_of_lt hab)
        rw [Nat.mul_succ] at hmul
        omega
      · omega
    · intro hkl
      rcases lt_trichotomy a b with hab | hab | hab
      · exact .inl hab
      · subst hab
        exact .inr ⟨rfl, by omega⟩
      · have hmul := Nat.mul_le_mul_left w (Nat.succ_le_of_lt hab)
        rw [Nat.mul_succ] at hmul
        omega

end AeorDb.Library
