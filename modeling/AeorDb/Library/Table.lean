import Mathlib

/-! Finite maps kept as a list with one entry for each key. -/

namespace AeorDb.Library

open List

structure Table {E K : Type} (key : E → K) where
  entries : List E
  nodup : (entries.map key).Nodup

namespace Table

variable {E K : Type} {key : E → K} [DecidableEq K]

def empty : Table key := ⟨[], nodup_nil⟩

def get (t : Table key) (k : K) : Option E := t.entries.find? fun e => key e = k

def contains (t : Table key) (k : K) : Bool := (t.get k).isSome

def keys (t : Table key) : Finset K := (t.entries.map key).toFinset

variable {t : Table key} {k : K} {e : E} {es : List E}

lemma mem_keys : k ∈ t.keys ↔ ∃ e ∈ t.entries, key e = k := by
  simp [keys]

lemma get_eq_some : t.get k = some e ↔ e ∈ t.entries ∧ key e = k := by
  constructor
  · intro h
    exact ⟨mem_of_find?_eq_some h, by simpa using find?_some h⟩
  · rintro ⟨he, rfl⟩
    obtain ⟨e', he'⟩ : ∃ e', t.get (key e) = some e' := Option.isSome_iff_exists.mp (find?_isSome.mpr ⟨e, he, by simp⟩)
    have hmem := mem_of_find?_eq_some he'
    have hkey : key e' = key e := by simpa using find?_some he'
    rw [he', inj_on_of_nodup_map t.nodup hmem he hkey]

lemma get_eq_none : t.get k = none ↔ k ∉ t.keys := by
  simp [get, mem_keys]

lemma contains_iff : t.contains k = true ↔ k ∈ t.keys := by
  rw [contains, ← not_iff_not, Bool.not_eq_true, Option.isSome_eq_false_iff, Option.isNone_iff_eq_none, get_eq_none]

lemma length_entries (t : Table key) : t.entries.length = t.keys.card := by
  rw [keys, toFinset_card_of_nodup t.nodup, length_map]

lemma map_replace (l : List E) (e : E) : (l.map fun x => if key x = key e then e else x).map key = l.map key := by
  rw [map_map]
  refine map_congr_left fun x _ => ?_
  by_cases h : key x = key e <;> simp [h]

def insert (t : Table key) (e : E) : Table key :=
  if h : t.contains (key e) then
    ⟨t.entries.map fun x => if key x = key e then e else x, by rw [map_replace]; exact t.nodup⟩
  else
    ⟨t.entries ++ [e], by
      have hnot : ¬ ∃ x ∈ t.entries, key x = key e := fun hx => h (contains_iff.mpr (mem_keys.mpr hx))
      rw [map_append, nodup_append]
      refine ⟨t.nodup, by simp, ?_⟩
      intro a ha b hb
      obtain ⟨x, hx, rfl⟩ := mem_map.mp ha
      obtain rfl : b = key e := by simpa using hb
      exact fun heq => hnot ⟨x, hx, heq⟩⟩

def insertAll (t : Table key) (es : List E) : Table key := es.foldl insert t

def erase (t : Table key) (k : K) : Table key :=
  ⟨t.entries.filter fun e => key e ≠ k, t.nodup.sublist (filter_sublist.map key)⟩

@[simp] lemma get_erase (t : Table key) (k k' : K) : (t.erase k).get k' = if k' = k then none else t.get k' := by
  ext x
  rw [get_eq_some, erase, mem_filter]
  split_ifs with h
  · subst h
    simp
  · rw [get_eq_some]
    constructor
    · rintro ⟨⟨hx, _⟩, rfl⟩
      exact ⟨hx, rfl⟩
    · rintro ⟨hx, rfl⟩
      exact ⟨⟨hx, by simpa using h⟩, rfl⟩

def filter (t : Table key) (p : E → Bool) : Table key :=
  ⟨t.entries.filter p, t.nodup.sublist (filter_sublist.map key)⟩

@[simp] lemma get_filter (t : Table key) (p : E → Bool) (k : K) : (t.filter p).get k = (t.get k).filter p := by
  ext x
  rw [get_eq_some, Option.filter_eq_some_iff, get_eq_some]
  constructor
  · rintro ⟨hx, rfl⟩
    obtain ⟨hmem, hp⟩ := mem_filter.mp hx
    exact ⟨⟨hmem, rfl⟩, hp⟩
  · rintro ⟨⟨hmem, rfl⟩, hp⟩
    exact ⟨mem_filter.mpr ⟨hmem, hp⟩, rfl⟩

@[simp] lemma get_empty (k : K) : (empty : Table key).get k = none := rfl

@[simp] lemma keys_empty : (empty : Table key).keys = ∅ := rfl

lemma mem_insert {e x : E} : x ∈ (t.insert e).entries ↔ x = e ∨ x ∈ t.entries ∧ key x ≠ key e := by
  by_cases h : t.contains (key e) = true
  · obtain ⟨y, hy, hye⟩ := mem_keys.mp (contains_iff.mp h)
    simp only [insert, dif_pos h, mem_map]
    constructor
    · rintro ⟨z, hz, rfl⟩
      by_cases hze : key z = key e
      · exact .inl (if_pos hze)
      · exact .inr (by simpa [hze] using hz)
    · rintro (rfl | ⟨hx, hne⟩)
      · exact ⟨y, hy, if_pos hye⟩
      · exact ⟨x, hx, if_neg hne⟩
  · have hne : ∀ y ∈ t.entries, key y ≠ key e := fun y hy heq => h (contains_iff.mpr (mem_keys.mpr ⟨y, hy, heq⟩))
    simp only [insert, dif_neg h, mem_append, mem_singleton]
    constructor
    · rintro (hx | hx)
      · exact .inr ⟨hx, hne x hx⟩
      · exact .inl hx
    · rintro (hx | ⟨hx, _⟩)
      · exact .inr hx
      · exact .inl hx

@[simp] lemma get_insert (t : Table key) (e : E) (k : K) : (t.insert e).get k = if k = key e then some e else t.get k := by
  ext x
  rw [get_eq_some, mem_insert]
  by_cases hk : k = key e
  · rw [if_pos hk, Option.some.injEq]
    constructor
    · rintro ⟨rfl | ⟨_, hne⟩, hx⟩
      · rfl
      · exact absurd (hx.trans hk) hne
    · rintro rfl
      exact ⟨.inl rfl, hk.symm⟩
  · rw [if_neg hk, get_eq_some]
    constructor
    · rintro ⟨rfl | ⟨hx, _⟩, hxk⟩
      · exact absurd hxk.symm hk
      · exact ⟨hx, hxk⟩
    · rintro ⟨hx, rfl⟩
      exact ⟨.inr ⟨hx, hk⟩, rfl⟩

@[simp] lemma keys_insert (t : Table key) (e : E) : (t.insert e).keys = Insert.insert (key e) t.keys := by
  ext k
  rw [← not_iff_not, ← get_eq_none, get_insert, Finset.mem_insert]
  by_cases hk : k = key e
  · simp [hk]
  · simp [hk, get_eq_none]

def latest (key : E → K) (es : List E) (k : K) : Option E := es.reverse.find? fun e => key e = k

lemma latest_nil (k : K) : latest key [] k = none := rfl

lemma latest_append (es fs : List E) (k : K) : latest key (es ++ fs) k = (latest key fs k).or (latest key es k) := by
  simp [latest]

lemma latest_cons (e : E) (es : List E) (k : K) : latest key (e :: es) k = (latest key es k).or (if k = key e then some e else none) := by
  rw [← singleton_append, latest_append]
  by_cases h : key e = k <;> simp [latest, h, eq_comm]

lemma get_insertAll (t : Table key) (es : List E) (k : K) : (t.insertAll es).get k = (latest key es k).or (t.get k) := by
  induction es generalizing t with
  | nil => simp [insertAll, latest]
  | cons e es ih =>
    change ((t.insert e).insertAll es).get k = _
    rw [ih, get_insert, latest_cons, Option.or_assoc]
    by_cases hk : k = key e <;> simp [hk]

lemma keys_insertAll (t : Table key) (es : List E) : (t.insertAll es).keys = t.keys ∪ (es.map key).toFinset := by
  induction es generalizing t with
  | nil => simp [insertAll]
  | cons e es ih =>
    change ((t.insert e).insertAll es).keys = _
    rw [ih, keys_insert]
    ext k
    simp

lemma latest_some (h : latest key es k = some e) : e ∈ es ∧ key e = k :=
  ⟨mem_reverse.mp (mem_of_find?_eq_some h), by simpa using find?_some h⟩

lemma latest_eq_none_iff : latest key es k = none ↔ ∀ e ∈ es, key e ≠ k := by
  simp [latest]

lemma latest_eq_some_iff (huniq : ∀ a ∈ es, ∀ b ∈ es, key a = key b → a = b) :
    latest key es k = some e ↔ e ∈ es ∧ key e = k := by
  refine ⟨latest_some, ?_⟩
  rintro ⟨he, rfl⟩
  rcases h : latest key es (key e) with _ | e'
  · exact absurd rfl (latest_eq_none_iff.mp h e he)
  · obtain ⟨he', hkey⟩ := latest_some h
    rw [huniq e' he' e he hkey]

omit [DecidableEq K] in
lemma unique (t : Table key) : ∀ a ∈ t.entries, ∀ b ∈ t.entries, key a = key b → a = b :=
  fun _ ha _ hb h => inj_on_of_nodup_map t.nodup ha hb h

lemma perm_entries {t t' : Table key} (h : ∀ k, t.get k = t'.get k) : t.entries.Perm t'.entries := by
  refine (perm_ext_iff_of_nodup t.nodup.of_map t'.nodup.of_map).mpr fun e => ?_
  have he := h (key e)
  constructor
  · exact fun hmem => (get_eq_some.mp (he ▸ get_eq_some.mpr ⟨hmem, rfl⟩)).1
  · exact fun hmem => (get_eq_some.mp (he ▸ get_eq_some.mpr ⟨hmem, rfl⟩)).1

lemma perm_cons_erase {x : E} (hx : x ∈ t.entries) : t.entries.Perm (x :: (t.erase (key x)).entries) := by
  have hrest : ∀ y, y ∈ (t.erase (key x)).entries ↔ y ∈ t.entries ∧ key y ≠ key x := fun y => by simp [erase]
  refine (perm_ext_iff_of_nodup t.nodup.of_map ?_).mpr fun y => ?_
  · exact nodup_cons.mpr ⟨fun h => ((hrest x).mp h).2 rfl, (t.erase (key x)).nodup.of_map⟩
  · rw [mem_cons, hrest]
    constructor
    · exact fun hy => (em (key y = key x)).imp (t.unique y hy x hx) fun h => ⟨hy, h⟩
    · rintro (rfl | ⟨hy, _⟩)
      · exact hx
      · exact hy

lemma countP_insert (t : Table key) (e : E) (p : E → Bool) :
    (t.insert e).entries.countP p + (if (t.get (key e)).any p then 1 else 0) = t.entries.countP p + if p e then 1 else 0 := by
  have hnew := (perm_cons_erase (t := t.insert e) (mem_insert.mpr (.inl rfl))).countP_eq p
  have hrest : ((t.insert e).erase (key e)).entries.countP p = (t.erase (key e)).entries.countP p := by
    refine (perm_entries fun k => ?_).countP_eq p
    by_cases hk : k = key e <;> simp [hk]
  rw [hnew, countP_cons, hrest]
  cases hget : t.get (key e) with
  | none =>
    have hold : (t.erase (key e)).entries.countP p = t.entries.countP p := by
      refine (perm_entries fun k => ?_).countP_eq p
      by_cases hk : k = key e <;> simp [hk, hget]
    simp [hold]
  | some x =>
    obtain ⟨hx, hkey⟩ := get_eq_some.mp hget
    have hold := (perm_cons_erase hx).countP_eq p
    rw [countP_cons, hkey] at hold
    simp only [Option.any_some]
    omega

lemma latest_eq_get (t : Table key) (hes : ∀ e, e ∈ es ↔ e ∈ t.entries) (k : K) : latest key es k = t.get k := by
  ext e
  rw [latest_eq_some_iff fun a ha b hb => t.unique a ((hes a).mp ha) b ((hes b).mp hb), get_eq_some, hes]

end Table

end AeorDb.Library
