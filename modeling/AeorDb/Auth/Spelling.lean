import AeorDb.Auth.Levels

/-! How a path is spelled, and the levels, parent and name that follow from it. -/

namespace AeorDb.Auth

open Store List

structure Spelled (path : Str) (extra : ℕ) (parents : List Str) (name : Str) (trailing : ℕ) : Prop where
  eq : path = List.replicate extra '/' ++ (slashed (parents ++ [name]) ++ List.replicate trailing '/')
  no_slash : ∀ x ∈ parents ++ [name], '/' ∉ x
  first : ∀ x ∈ parents.head?, x ≠ []
  name_ne : name ≠ []

lemma trimEnd_append_replicate (x : Str) (n : ℕ) : trimEnd (· = '/') (x ++ List.replicate n '/') = trimEnd (· = '/') x := by
  induction n with
  | zero => simp
  | succ n ih =>
    rw [replicate_succ', ← append_assoc, ← ih]
    simp [trimEnd]

lemma trimEnd_append_name {x name : Str} (hname : '/' ∉ name) (hne : name ≠ []) :
    trimEnd (· = '/') (x ++ '/' :: name) = x ++ '/' :: name := by
  obtain ⟨t, c, rfl⟩ := (eq_nil_or_concat' name).resolve_left hne
  have hc : c ≠ '/' := by
    rintro rfl
    simp at hname
  rw [← cons_append, ← append_assoc, trimEnd_append (by simpa using hc)]

lemma exists_trimEnd_append (x : Str) : ∃ n, x = trimEnd (· = '/') x ++ List.replicate n '/' := by
  induction x using List.reverseRecOn with
  | nil => exact ⟨0, rfl⟩
  | append_singleton x c ih =>
    by_cases hc : c = '/'
    · obtain ⟨n, hn⟩ := ih
      refine ⟨n + 1, ?_⟩
      have htrim : trimEnd (· = '/') (x ++ [c]) = trimEnd (· = '/') x := by simp [trimEnd, hc]
      rw [htrim, replicate_succ', ← append_assoc, ← hn, hc]
    · exact ⟨0, by simp [trimEnd_append, hc]⟩

lemma getLast?_trimEnd (x : Str) : (trimEnd (· = '/') x).getLast? ≠ some '/' := by
  induction x using List.reverseRecOn with
  | nil => simp [trimEnd]
  | append_singleton x c ih =>
    by_cases hc : c = '/'
    · have htrim : trimEnd (· = '/') (x ++ [c]) = trimEnd (· = '/') x := by simp [trimEnd, hc]
      rwa [htrim]
    · rw [trimEnd_append (by simpa using hc)]
      simpa using hc

lemma exists_dropWhile_append (x : Str) : ∃ n, x = List.replicate n '/' ++ x.dropWhile (· = '/') := by
  induction x with
  | nil => exact ⟨0, rfl⟩
  | cons c x ih =>
    by_cases hc : c = '/'
    · obtain ⟨n, hn⟩ := ih
      refine ⟨n + 1, ?_⟩
      rw [dropWhile_cons_of_pos (by simpa using hc), replicate_succ, cons_append, ← hn, hc]
    · exact ⟨0, by rw [dropWhile_cons_of_neg (by simpa using hc)]; rfl⟩

lemma head?_dropWhile (x : Str) : (x.dropWhile (· = '/')).head? ≠ some '/' := by
  intro h
  have hnot := head?_dropWhile_not (fun c : Char => decide (c = '/')) x
  rw [h] at hnot
  simp at hnot

variable {path : Str} {extra : ℕ} {parents : List Str} {name : Str} {trailing : ℕ}

lemma slashed_eq_cons {ps : List Str} (hne : ps ≠ []) : slashed ps = '/' :: ['/'].intercalate ps := by
  rw [← pathOf_eq_slashed hne]
  cases ps with
  | nil => exact absurd rfl hne
  | cons p ps => rfl

lemma exists_spelled (hhead : path.head? = some '/') (hne : trimSlashes path ≠ []) :
    ∃ extra parents name trailing, Spelled path extra parents name trailing := by
  obtain ⟨a, ha⟩ := exists_dropWhile_append path
  obtain ⟨t, ht⟩ := exists_trimEnd_append (path.dropWhile (· = '/'))
  rw [← trimSlashes] at ht
  obtain ⟨parents, name, hparts⟩ := (eq_nil_or_concat' _).resolve_left (splitOn_ne_nil '/' (trimSlashes path))
  have hbody : trimSlashes path = ['/'].intercalate (parents ++ [name]) := by rw [← hparts, intercalate_splitOn]
  have hstart : (trimSlashes path).head? ≠ some '/' := by
    have hdrop := head?_dropWhile path
    rw [ht] at hdrop
    cases hb : trimSlashes path with
    | nil => exact absurd hb hne
    | cons c body => simpa [hb] using hdrop
  have hend : (trimSlashes path).getLast? ≠ some '/' := getLast?_trimEnd _
  cases a with
  | zero =>
    rw [replicate_zero, nil_append] at ha
    exact absurd hhead (ha ▸ head?_dropWhile path)
  | succ a =>
    refine ⟨a, parents, name, t, ?_, ?_, ?_, ?_⟩
    · rw [slashed_eq_cons (by simp), ← hbody, cons_append, ← ht, ← singleton_append, ← append_assoc,
        ← replicate_succ', ← ha]
    · exact fun x hx hmem => (mem_of_mem_splitOn (hparts ▸ hx) _ hmem).2 rfl
    · cases parents with
      | nil => simp
      | cons p parents =>
        intro x hx
        obtain rfl : p = x := by simpa using hx
        rintro rfl
        refine hstart ?_
        rw [hbody, cons_append, ← nil_append (['/'].intercalate _), ← slashed_eq_intercalate]
        cases parents <;> rfl
    · rintro rfl
      cases parents with
      | nil => exact hne hbody
      | cons p parents =>
        refine hend ?_
        have hslashed := slashed_append (p :: parents) []
        rw [slashed_eq_cons (by simp), ← hbody] at hslashed
        have hlast := congrArg List.getLast? hslashed
        rw [getLast?_append] at hlast
        cases hb : trimSlashes path with
        | nil => exact absurd hb hne
        | cons c body => simpa [hb] using hlast

namespace Spelled

variable (h : Spelled path extra parents name trailing)

include h

lemma trimEnd_path : trimEnd (· = '/') path = List.replicate extra '/' ++ slashed parents ++ '/' :: name := by
  rw [h.eq, ← append_assoc, trimEnd_append_replicate, slashed_append, ← append_assoc,
    trimEnd_append_name (h.no_slash name (by simp)) h.name_ne]

lemma targetName_eq : targetName path = name := by
  have hname : '/' ∉ name := h.no_slash name (by simp)
  rw [targetName, h.trimEnd_path, List.splitOn, splitOnP_append_cons _ _ (by simp), ← List.splitOn, ← List.splitOn]
  have hsplit : name.splitOn '/' = [name] := splitOnP_eq_singleton fun c hc => by
    have hne : c ≠ '/' := fun heq => hname (heq ▸ hc)
    simpa using hne
  simp [hsplit]

lemma trimEnd_targetParent : trimEnd (· = '/') (targetParent path) = trimEnd (· = '/') (List.replicate extra '/' ++ slashed parents) := by
  rw [targetParent, h.trimEnd_path, rfind_append (h.no_slash name (by simp))]
  cases hlen : (List.replicate extra '/' ++ slashed parents).length with
  | zero =>
    rw [length_eq_zero_iff.mp hlen]
    rfl
  | succ n => exact congrArg _ (take_left' hlen)

lemma exists_first_part : ∃ p ps, parents ++ [name] = p :: ps ∧ p ≠ [] := by
  cases hp : parents with
  | nil => exact ⟨name, [], rfl, h.name_ne⟩
  | cons p ps => exact ⟨p, ps ++ [name], rfl, h.first p (by rw [hp]; rfl)⟩

lemma extra_ne_zero (hstart : startsWith path ['/', '/'] = true) : extra ≠ 0 := by
  rintro rfl
  obtain ⟨p, ps, hcons, hp⟩ := h.exists_first_part
  cases p with
  | nil => exact absurd rfl hp
  | cons c p =>
    have hslash := h.no_slash (c :: p) (by simp [hcons])
    rw [h.eq, hcons] at hstart
    obtain rfl : '/' = c := by simpa [startsWith, slashed] using hstart
    simp at hslash

lemma exists_last_char : ∃ t c, slashed (parents ++ [name]) = '/' :: (t ++ [c]) ∧ c ≠ '/' := by
  obtain ⟨t, c, rfl⟩ := (eq_nil_or_concat' name).resolve_left h.name_ne
  have hc : c ≠ '/' := by
    rintro rfl
    exact h.no_slash (t ++ ['/']) (by simp) (by simp)
  refine ⟨(slashed parents ++ '/' :: t).tail, c, ?_, hc⟩
  rw [slashed_append]
  cases parents <;> simp [slashed]

lemma trimSlashes_eq : '/' :: trimSlashes path = slashed (parents ++ [name]) := by
  obtain ⟨t, c, hlast, hc⟩ := h.exists_last_char
  obtain ⟨p, ps, hcons, hp⟩ := h.exists_first_part
  have hstart : ∀ x ∈ (t ++ [c]).head?, x ≠ '/' := by
    have hp' : '/' ∉ p := h.no_slash p (by simp [hcons])
    have hslashed : '/' :: (t ++ [c]) = '/' :: (p ++ slashed ps) := by rw [← hlast, hcons]; rfl
    rw [(cons_injective hslashed : t ++ [c] = p ++ slashed ps)]
    cases p with
    | nil => exact absurd rfl hp
    | cons b p =>
      rintro x hx rfl
      simp [show b = '/' by simpa using hx] at hp'
  have hdrop : path.dropWhile (· = '/') = t ++ [c] ++ List.replicate trailing '/' := by
    rw [h.eq, dropWhile_append_of_pos (by simp), hlast, cons_append, dropWhile_cons_of_pos (by simp)]
    cases t with
    | nil => exact dropWhile_cons_of_neg (by simpa using hc)
    | cons b t => exact dropWhile_cons_of_neg (by simpa using hstart)
  rw [trimSlashes, hdrop, trimEnd_append_replicate, trimEnd_append (by simpa using hc), hlast]

lemma ne_nil : trimSlashes path ≠ [] := by
  obtain ⟨t, c, hlast, _⟩ := h.exists_last_char
  intro hnil
  have heq := h.trimSlashes_eq
  rw [hnil, hlast] at heq
  simp at heq

lemma splitOn_trimSlashes : (trimSlashes path).splitOn '/' = parents ++ [name] := by
  have hbody := h.trimSlashes_eq
  rw [slashed_eq_cons (by simp)] at hbody
  rw [cons_injective hbody]
  exact splitOn_intercalate '/' h.no_slash (by simp)

lemma getLast?_path : path.getLast? = some '/' ↔ trailing ≠ 0 := by
  obtain ⟨t, c, hlast, hc⟩ := h.exists_last_char
  rw [h.eq, hlast]
  cases trailing with
  | zero =>
    rw [replicate_zero, append_nil, ← cons_append, ← append_assoc, getLast?_concat]
    simpa using hc
  | succ n =>
    rw [replicate_succ', ← append_assoc, ← append_assoc, getLast?_concat]
    simp

lemma pathLevels_eq : pathLevels path = (if trailing = 0 then parents else parents ++ [name]).inits.map pathOf := by
  rw [pathLevels, if_neg h.ne_nil, h.splitOn_trimSlashes]
  simp only [h.getLast?_path]
  by_cases ht : trailing = 0
  · simp [ht, levels_eq_inits]
  · rw [if_pos ht, if_neg ht, take_length, levels_eq_inits]

lemma exists_of_mem_pathLevels {level : Str} (hlevel : level ∈ pathLevels path) : ∃ ps, ps <+: parents ++ [name] ∧ level = pathOf ps := by
  rw [h.pathLevels_eq] at hlevel
  obtain ⟨ps, hps, rfl⟩ := mem_map.mp hlevel
  rw [mem_inits] at hps
  split_ifs at hps
  · exact ⟨ps, hps.trans (prefix_append _ _), rfl⟩
  · exact ⟨ps, hps, rfl⟩

lemma targetAt_eq_none (hextra : extra ≠ 0) (hparents : parents ≠ []) {ps : List Str} (hps : ps <+: parents ++ [name]) :
    targetAt path (pathOf ps) = none := by
  obtain ⟨p, parents, rfl⟩ := exists_cons_of_ne_nil hparents
  obtain ⟨extra, rfl⟩ := Nat.exists_eq_succ_of_ne_zero hextra
  obtain ⟨c, p, rfl⟩ := exists_cons_of_ne_nil (h.first p rfl)
  have hc : c ≠ '/' := by
    rintro rfl
    exact h.no_slash ('/' :: p) (by simp) (by simp)
  have hparent : ∃ x, trimEnd (· = '/') (targetParent path) = '/' :: '/' :: x := by
    have hcut : List.replicate (extra + 1) '/' ++ slashed ((c :: p) :: parents) =
        ('/' :: '/' :: List.replicate extra '/') ++ c :: (p ++ slashed parents) := by
      have hslashed : slashed ((c :: p) :: parents) = ['/'] ++ c :: (p ++ slashed parents) := rfl
      rw [hslashed, ← append_assoc, ← replicate_succ']
      rfl
    rw [h.trimEnd_targetParent, hcut, trimEnd_append_cons (by simpa using hc)]
    exact ⟨_, rfl⟩
  obtain ⟨x, hx⟩ := hparent
  refine if_neg ?_
  rw [hx]
  cases ps with
  | nil => simp [pathOf, trimEnd]
  | cons q ps =>
    obtain rfl : q = c :: p := (cons_prefix_cons.mp hps).1
    have hspell : pathOf ((c :: p) :: ps) = ['/'] ++ c :: (p ++ slashed ps) := by
      rw [pathOf_eq_slashed (by simp)]
      rfl
    rw [hspell, trimEnd_append_cons (by simpa using hc)]
    simp [hc]

end Spelled

end AeorDb.Auth
