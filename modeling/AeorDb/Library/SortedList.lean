import Mathlib

/-! Lists kept in strictly increasing key order, searched and updated by position. -/

namespace AeorDb.Library.SortedList

open List

variable {E K : Type} [LinearOrder K] (key : E → K)

def Sorted (es : List E) : Prop := es.Pairwise fun a b => key a < key b

def binarySearch (ks : List K) (x : K) : Except ℕ ℕ :=
  let i := ks.countP (· < x)
  if ks[i]? = some x then .ok i else .error i

def upsert (es : List E) (a : E) : List E :=
  match binarySearch (es.map key) (key a) with
  | .ok i => es.set i a
  | .error i => es.insertIdx i a

def remove (es : List E) (x : K) : List E :=
  match binarySearch (es.map key) x with
  | .ok i => es.eraseIdx i
  | .error _ => es

def find (es : List E) (x : K) : Option E :=
  match binarySearch (es.map key) x with
  | .ok i => es[i]?
  | .error _ => none

def updated (es : List E) (a : E) : List E :=
  es.filter (key · < key a) ++ a :: es.filter (key a < key ·)

variable {key}

lemma countP_append_of_split (xs ys : List K) (x : K) (hx : ∀ y ∈ xs, y < x) (hy : ∀ y ∈ ys, x ≤ y) :
    (xs ++ ys).countP (· < x) = xs.length := by
  have hys : ys.countP (· < x) = 0 := countP_eq_zero.mpr fun y h => by simpa using hy y h
  rw [countP_append, hys, Nat.add_zero, countP_eq_length]
  exact fun y h => by simpa using hx y h

lemma binarySearch_found (xs ys : List E) (b : E) (x : K) (hx : ∀ y ∈ xs, key y < x) (hb : key b = x)
    (hy : ∀ y ∈ ys, x < key y) : binarySearch ((xs ++ b :: ys).map key) x = .ok xs.length := by
  have hc : ((xs ++ b :: ys).map key).countP (· < x) = xs.length := by
    rw [map_append, countP_append_of_split, length_map]
    · simpa using hx
    · simpa [hb] using fun y h => (hy y h).le
  simp only [binarySearch, hc]
  simp [hb]

lemma binarySearch_missing (xs ys : List E) (x : K) (hx : ∀ y ∈ xs, key y < x)
    (hy : ∀ y ∈ ys, x < key y) : binarySearch ((xs ++ ys).map key) x = .error xs.length := by
  have hc : ((xs ++ ys).map key).countP (· < x) = xs.length := by
    rw [map_append, countP_append_of_split, length_map]
    · simpa using hx
    · simpa using fun y h => (hy y h).le
  have hn : ((xs ++ ys).map key)[xs.length]? ≠ some x := by
    rw [getElem?_map, getElem?_append_right le_rfl, Nat.sub_self]
    intro h
    obtain ⟨y, hy', rfl⟩ := Option.map_eq_some_iff.mp h
    exact (hy y (mem_of_getElem? hy')).false
  simp only [binarySearch, hc, if_neg hn]

lemma Sorted.nil : Sorted key [] := List.Pairwise.nil

lemma Sorted.append_iff (xs ys : List E) : Sorted key (xs ++ ys) ↔ Sorted key xs ∧ Sorted key ys ∧ ∀ x ∈ xs, ∀ y ∈ ys, key x < key y :=
  pairwise_append

lemma Sorted.sublist {xs ys : List E} (hs : Sorted key ys) (h : xs.Sublist ys) : Sorted key xs :=
  List.Pairwise.sublist h hs

variable {es : List E}

lemma Sorted.split (hs : Sorted key es) (x : K) : ∃ xs ys, (∀ y ∈ xs, key y < x) ∧ (∀ y ∈ ys, x < key y) ∧
      (es = xs ++ ys ∨ ∃ b, key b = x ∧ es = xs ++ b :: ys) := by
  induction es with
  | nil => exact ⟨[], [], by simp, by simp, Or.inl rfl⟩
  | cons a es ih =>
    obtain ⟨ha, hes⟩ := pairwise_cons.mp hs
    rcases lt_trichotomy (key a) x with hlt | heq | hgt
    · obtain ⟨xs, ys, hxs, hys, h⟩ := ih hes
      refine ⟨a :: xs, ys, ?_, hys, ?_⟩
      · intro y hy
        rcases mem_cons.mp hy with rfl | hy
        · exact hlt
        · exact hxs y hy
      · rcases h with rfl | ⟨b, hb, rfl⟩
        · exact Or.inl rfl
        · exact Or.inr ⟨b, hb, rfl⟩
    · exact ⟨[], es, by simp, fun y hy => heq ▸ ha y hy, Or.inr ⟨a, heq, rfl⟩⟩
    · refine ⟨[], a :: es, by simp, fun y hy => ?_, Or.inl rfl⟩
      rcases mem_cons.mp hy with rfl | hy
      · exact hgt
      · exact hgt.trans (ha y hy)

lemma updated_append (xs ms ys : List E) (a : E) (hx : ∀ y ∈ xs, key y < key a) (hy : ∀ y ∈ ys, key a < key y) :
    updated key (xs ++ ms ++ ys) a = xs ++ updated key ms a ++ ys := by
  have hx' : xs.filter (key a < key ·) = [] := filter_eq_nil_iff.mpr fun y h => by simpa using (hx y h).le
  have hy' : ys.filter (key · < key a) = [] := filter_eq_nil_iff.mpr fun y h => by simpa using (hy y h).le
  have hxs : xs.filter (key · < key a) = xs := filter_eq_self.mpr fun y h => by simpa using hx y h
  have hys : ys.filter (key a < key ·) = ys := filter_eq_self.mpr fun y h => by simpa using hy y h
  simp [updated, filter_append, hx', hy', hxs, hys]

lemma updated_missing (xs ys : List E) (a : E) (hx : ∀ y ∈ xs, key y < key a) (hy : ∀ y ∈ ys, key a < key y) :
    updated key (xs ++ ys) a = xs ++ a :: ys := by
  simpa [updated] using updated_append xs [] ys a hx hy

lemma updated_found (xs ys : List E) (a b : E) (hx : ∀ y ∈ xs, key y < key a) (hb : key b = key a)
    (hy : ∀ y ∈ ys, key a < key y) : updated key (xs ++ b :: ys) a = xs ++ a :: ys := by
  simpa [updated, hb] using updated_append xs [b] ys a hx hy

lemma insertIdx_length_append {α : Type} (xs ys : List α) (a : α) : (xs ++ ys).insertIdx xs.length a = xs ++ a :: ys := by
  induction xs with
  | nil => rfl
  | cons x xs ih => exact congrArg (x :: ·) ih

lemma upsert_eq_updated (hs : Sorted key es) (a : E) : upsert key es a = updated key es a := by
  obtain ⟨xs, ys, hxs, hys, rfl | ⟨b, hb, rfl⟩⟩ := hs.split (key a)
  · rw [upsert, binarySearch_missing xs ys (key a) hxs hys, updated_missing xs ys a hxs hys]
    exact insertIdx_length_append xs ys a
  · rw [upsert, binarySearch_found xs ys b (key a) hxs hb hys, updated_found xs ys a b hxs hb hys]
    change (xs ++ b :: ys).set xs.length a = _
    simp

lemma length_upsert_le (es : List E) (a : E) : (upsert key es a).length ≤ es.length + 1 := by
  unfold upsert
  cases binarySearch (es.map key) (key a) with
  | ok i => simp
  | error i =>
    change (es.insertIdx i a).length ≤ _
    rw [length_insertIdx]
    split_ifs <;> omega

lemma length_remove_le (es : List E) (x : K) : (remove key es x).length ≤ es.length := by
  rw [remove]
  split
  · exact length_eraseIdx_le es _
  · exact le_rfl

lemma mem_upsert (es : List E) (a : E) : a ∈ upsert key es a := by
  unfold upsert binarySearch
  simp only
  split_ifs with h
  · have hlt : (es.map key).countP (· < key a) < es.length := by
      simpa using (List.getElem?_eq_some_iff.mp h).1
    exact mem_set hlt a
  · have hle : (es.map key).countP (· < key a) ≤ es.length := by
      simpa using (countP_le_length : (es.map key).countP (· < key a) ≤ (es.map key).length)
    exact (mem_insertIdx hle).mpr (Or.inl rfl)

lemma eq_or_mem_of_mem_upsert {a b : E} (h : b ∈ upsert key es a) : b = a ∨ b ∈ es := by
  unfold upsert at h
  cases hi : binarySearch (es.map key) (key a) with
  | ok i =>
    rw [hi] at h
    exact (mem_or_eq_of_mem_set h).symm
  | error i =>
    rw [hi] at h
    exact eq_or_mem_of_mem_insertIdx h

lemma remove_eq_filter (hs : Sorted key es) (x : K) (p : E → Bool) (hp : ∀ a, p a = true ↔ key a ≠ x) : remove key es x = es.filter p := by
  obtain ⟨xs, ys, hxs, hys, rfl | ⟨b, hb, rfl⟩⟩ := hs.split x
  · rw [remove, binarySearch_missing xs ys x hxs hys]
    refine (filter_eq_self.mpr fun y hy => (hp y).mpr ?_).symm
    rcases mem_append.mp hy with hy | hy
    · exact (hxs y hy).ne
    · exact (hys y hy).ne'
  · rw [remove, binarySearch_found xs ys b x hxs hb hys]
    change (xs ++ b :: ys).eraseIdx xs.length = _
    rw [filter_append, filter_cons_of_neg (by simp [hp, hb]),
      filter_eq_self.mpr (fun y hy => (hp y).mpr (hxs y hy).ne),
      filter_eq_self.mpr (fun y hy => (hp y).mpr (hys y hy).ne')]
    simp [eraseIdx_append_of_length_le]

lemma find_eq_find? (hs : Sorted key es) (x : K) (p : E → Bool) (hp : ∀ a, p a = true ↔ key a = x) : find key es x = es.find? p := by
  obtain ⟨xs, ys, hxs, hys, rfl | ⟨b, hb, rfl⟩⟩ := hs.split x
  · rw [find, binarySearch_missing xs ys x hxs hys]
    refine (find?_eq_none.mpr fun y hy => mt (hp y).mp ?_).symm
    rcases mem_append.mp hy with hy | hy
    · exact (hxs y hy).ne
    · exact (hys y hy).ne'
  · rw [find, binarySearch_found xs ys b x hxs hb hys, find?_append,
      find?_eq_none.mpr (fun y hy => mt (hp y).mp (hxs y hy).ne)]
    simp [(hp b).mpr hb]

lemma Sorted.updated (hs : Sorted key es) (a : E) : Sorted key (updated key es a) := by
  obtain ⟨xs, ys, hxs, hys, h⟩ := hs.split (key a)
  have hsub : (xs ++ ys).Sublist es := by
    rcases h with rfl | ⟨b, _, rfl⟩
    · exact List.Sublist.refl _
    · exact (List.Sublist.refl xs).append (sublist_cons_self b ys)
  have heq : SortedList.updated key es a = xs ++ a :: ys := by
    rcases h with rfl | ⟨b, hb, rfl⟩
    · exact updated_missing xs ys a hxs hys
    · exact updated_found xs ys a b hxs hb hys
  obtain ⟨h1, h2, h3⟩ := (Sorted.append_iff xs ys).mp (hs.sublist hsub)
  rw [heq, Sorted.append_iff]
  refine ⟨h1, pairwise_cons.mpr ⟨hys, h2⟩, fun x hx y hy => ?_⟩
  rcases mem_cons.mp hy with rfl | hy
  · exact hxs x hx
  · exact h3 x hx y hy

lemma mem_updated (a b : E) : b ∈ updated key es a ↔ b = a ∨ b ∈ es ∧ key b ≠ key a := by
  simp only [updated, mem_append, mem_filter, mem_cons, decide_eq_true_eq, ne_iff_lt_or_gt]
  tauto

section

omit [LinearOrder K]

lemma find?_eq_some_iff {es : List E} (hnd : (es.map key).Nodup) (x : K) (p : E → Bool)
    (hp : ∀ a, p a = true ↔ key a = x) (b : E) : es.find? p = some b ↔ b ∈ es ∧ key b = x := by
  constructor
  · intro h
    exact ⟨mem_of_find?_eq_some h, (hp b).mp (find?_some h)⟩
  · rintro ⟨hb, hkey⟩
    obtain ⟨c, hc⟩ : ∃ c, es.find? p = some c := by
      rw [← Option.isSome_iff_exists, find?_isSome]
      exact ⟨b, hb, (hp b).mpr hkey⟩
    have hcb : key c = key b := ((hp c).mp (find?_some hc)).trans hkey.symm
    rw [hc, inj_on_of_nodup_map hnd (mem_of_find?_eq_some hc) hb hcb]

lemma find?_perm {es es' : List E} (h : es.Perm es') (hnd : (es.map key).Nodup) (x : K) (p : E → Bool)
    (hp : ∀ a, p a = true ↔ key a = x) : es.find? p = es'.find? p := by
  ext b
  rw [find?_eq_some_iff hnd x p hp, find?_eq_some_iff ((h.map key).nodup_iff.mp hnd) x p hp, h.mem_iff]

end

lemma Sorted.nodup_keys (hs : Sorted key es) : (es.map key).Nodup := by
  rw [List.Nodup, pairwise_map]
  exact hs.imp fun h => h.ne

lemma sorted_of_le (hle : es.Pairwise fun a b => key a ≤ key b) (hnd : (es.map key).Nodup) : Sorted key es := by
  rw [List.Nodup, pairwise_map] at hnd
  exact (hle.and hnd).imp fun h => lt_of_le_of_ne h.1 h.2

end AeorDb.Library.SortedList
