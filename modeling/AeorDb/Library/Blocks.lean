import Mathlib

/-! Lists whose elements are grouped in blocks of one number each, in increasing order. -/

namespace AeorDb.Library.Blocks

open List Function

variable {α : Type} {f : α → ℕ} {l : List α}

structure Scan where
  starts : ℕ → Option ℕ
  counts : ℕ → ℕ

def Scan.step (f : α → ℕ) (s : Scan) (x : α × ℕ) : Scan where
  starts := if s.starts (f x.1) = none then Function.update s.starts (f x.1) (some x.2) else s.starts
  counts := Function.update s.counts (f x.1) (s.counts (f x.1) + 1)

def scan (f : α → ℕ) (l : List α) : Scan := l.zipIdx.foldl (Scan.step f) ⟨fun _ => none, fun _ => 0⟩

def slice (l : List α) (start count : ℕ) : List α := (l.take (min (start + count) l.length)).drop start

lemma scan_concat (l : List α) (a : α) : scan f (l ++ [a]) = (scan f l).step f (a, l.length) := by
  simp [scan, zipIdx_append]

lemma scan_counts (l : List α) (b : ℕ) : (scan f l).counts b = l.countP fun a => f a = b := by
  induction l using List.reverseRecOn with
  | nil => rfl
  | append_singleton l a ih =>
    rw [scan_concat, countP_append, ← ih, Scan.step]
    by_cases h : f a = b
    · subst h
      simp
    · simp [update_of_ne (Ne.symm h), h]

lemma scan_starts {u v : List α} {a : α} {b : ℕ} (hu : ∀ x ∈ u, f x ≠ b) (ha : f a = b) :
    (scan f (u ++ a :: v)).starts b = some u.length := by
  have hnone : ∀ u : List α, (∀ x ∈ u, f x ≠ b) → (scan f u).starts b = none := by
    intro u hu
    induction u using List.reverseRecOn with
    | nil => rfl
    | append_singleton u x ih =>
      have hx : b ≠ f x := (hu x (by simp)).symm
      rw [scan_concat, Scan.step]
      dsimp only
      split_ifs
      · rw [update_of_ne hx, ih fun y hy => hu y (mem_append_left _ hy)]
      · exact ih fun y hy => hu y (mem_append_left _ hy)
  induction v using List.reverseRecOn with
  | nil =>
    rw [scan_concat, Scan.step]
    subst ha
    simp [hnone u hu]
  | append_singleton v x ih =>
    rw [← cons_append, ← append_assoc, scan_concat, Scan.step]
    dsimp only
    split_ifs with hfree
    · have hne : b ≠ f x := by
        rintro rfl
        rw [ih] at hfree
        simp at hfree
      rw [update_of_ne hne, ih]
    · exact ih

lemma exists_blocks (h : l.Pairwise fun x y => f x ≤ f y) (b : ℕ) : ∃ u v w, l = u ++ (v ++ w) ∧
    (∀ x ∈ u, f x < b) ∧ (∀ x ∈ v, f x = b) ∧ ∀ x ∈ w, b < f x := by
  induction l with
  | nil => exact ⟨[], [], [], rfl, by simp, by simp, by simp⟩
  | cons a l ih =>
    obtain ⟨hle, hl⟩ := pairwise_cons.mp h
    obtain ⟨u, v, w, rfl, hu, hv, hw⟩ := ih hl
    rcases lt_trichotomy (f a) b with hlt | heq | hgt
    · exact ⟨a :: u, v, w, rfl, by simpa using ⟨hlt, hu⟩, hv, hw⟩
    · obtain rfl : u = [] := by
        refine eq_nil_iff_forall_not_mem.mpr fun x hx => ?_
        have hax := hle x (by simp [hx])
        have hxb := hu x hx
        omega
      exact ⟨[], a :: v, w, rfl, by simp, by simpa using ⟨heq, hv⟩, hw⟩
    · obtain rfl : u = [] := by
        refine eq_nil_iff_forall_not_mem.mpr fun x hx => ?_
        have hax := hle x (by simp [hx])
        have hxb := hu x hx
        omega
      obtain rfl : v = [] := by
        refine eq_nil_iff_forall_not_mem.mpr fun x hx => ?_
        have hax := hle x (by simp [hx])
        have hxb := hv x hx
        omega
      exact ⟨[], [], a :: w, rfl, by simp, by simp, by simpa using ⟨hgt, hw⟩⟩

theorem slice_scan (h : l.Pairwise fun x y => f x ≤ f y) (b : ℕ) :
    slice l (((scan f l).starts b).getD 0) ((scan f l).counts b) = l.filter fun a => f a = b := by
  obtain ⟨u, v, w, rfl, hu, hv, hw⟩ := exists_blocks h b
  have hu' : ∀ x ∈ u, ¬ f x = b := fun x hx => (hu x hx).ne
  have hw' : ∀ x ∈ w, ¬ f x = b := fun x hx => (hw x hx).ne'
  have hfilter : (u ++ (v ++ w)).filter (fun a => f a = b) = v := by
    have hbefore : u.filter (fun a => f a = b) = [] := filter_eq_nil_iff.mpr (by simpa using hu')
    have hblock : v.filter (fun a => f a = b) = v := filter_eq_self.mpr (by simpa using hv)
    have hbehind : w.filter (fun a => f a = b) = [] := filter_eq_nil_iff.mpr (by simpa using hw')
    rw [filter_append, filter_append, hbefore, hblock, hbehind, nil_append, append_nil]
  have hcount : (scan f (u ++ (v ++ w))).counts b = v.length := by
    rw [scan_counts, countP_eq_length_filter, hfilter]
  rw [hfilter, hcount]
  cases v with
  | nil => simp [slice, drop_eq_nil_of_le]
  | cons a v =>
    have hstart : (scan f (u ++ (a :: v ++ w))).starts b = some u.length := scan_starts hu' (hv a (by simp))
    rw [hstart, Option.getD_some, slice, min_eq_left (by simp), drop_take]
    simp

end AeorDb.Library.Blocks
