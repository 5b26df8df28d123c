import AeorDb.Auth.Spelling

/-! Walks that stay on the way to one directory. -/

namespace AeorDb.Auth

open Store Library List

structure Leads (path : Str) (dir : List Str) (name : Str) : Prop where
  within : ∀ level ∈ pathLevels path, dirNames level <+: dir
  arrives : ∀ level ∈ (pathLevels path).getLast?, dirNames level = dir
  named : targetName path = name
  single : startsWith path ['/', '/'] = true → '/' ∉ trimSlashes path

def parentDepth (path : Str) (dir : List Str) : ℕ := if path.getLast? = some '/' then dir.length - 1 else dir.length

variable {path : Str} {dir : List Str} {name : Str}

lemma inits_concat (ps : List Str) (p : Str) : (ps ++ [p]).inits = ps.inits ++ [ps ++ [p]] := by
  rw [inits_append]
  rfl

lemma exists_inits (ps : List Str) : ∃ u, ps.inits = u ++ [ps] := by
  rcases eq_nil_or_concat' ps with rfl | ⟨qs, q, rfl⟩
  · exact ⟨[], rfl⟩
  · exact ⟨_, inits_concat qs q⟩

lemma isChain_pathLevels (path : Str) : (pathLevels path).IsChain fun x y => (dirNames y).length ≤ (dirNames x).length + 1 := by
  obtain ⟨ps, hps, hslash⟩ := exists_pathLevels path
  rw [hps]
  clear hps
  induction ps using List.reverseRecOn with
  | nil => simp
  | append_singleton ps p ih =>
    obtain ⟨u, hu⟩ := exists_inits ps
    rw [inits_concat, map_append, isChain_append]
    refine ⟨ih fun q hq => hslash q (mem_append_left _ hq), by simp, ?_⟩
    intro x hx y hy
    obtain rfl : pathOf ps = x := by simpa [hu] using hx
    obtain rfl : pathOf (ps ++ [p]) = y := by simpa using hy
    rw [dirNames_pathOf_append (hslash p (by simp)), enter, resolveSegment]
    split_ifs <;> simp
    omega

lemma head?_pathLevels (path : Str) : (pathLevels path).head? = some ['/'] := by
  rw [pathLevels]
  split_ifs <;> rfl

lemma dirNames_of_targetAt {level : Str} (h : targetAt path level ≠ none) : dirNames level = dirNames (targetParent path) := by
  rw [targetAt] at h
  split_ifs at h with heq
  · rw [← dirNames_trimEnd, heq, dirNames_trimEnd]
  · exact absurd rfl h

lemma targetAt_cases (path level : Str) : targetAt path level = none ∨ targetAt path level = some (targetName path) := by
  rw [targetAt]
  split_ifs <;> simp

lemma all_slashes (h : trimSlashes path = []) : ∃ n, path = List.replicate n '/' := by
  obtain ⟨a, ha⟩ := exists_dropWhile_append path
  obtain ⟨t, ht⟩ := exists_trimEnd_append (path.dropWhile (· = '/'))
  rw [← trimSlashes, h, nil_append] at ht
  exact ⟨a + t, by rw [← replicate_append_replicate, ← ht, ← ha]⟩

lemma target_of_all_slashes (h : trimSlashes path = []) : targetParent path = ['/'] ∧ targetName path = [] := by
  obtain ⟨n, rfl⟩ := all_slashes h
  have htrim : trimEnd (· = '/') (List.replicate n '/') = [] := by
    exact trimEnd_append_replicate [] n
  rw [targetParent, targetName, htrim]
  exact ⟨rfl, rfl⟩

lemma Leads.exists_parent (h : Leads path dir name) (htrail : path.getLast? = some '/' → dir.getLast?.getD [] = name)
    (hhead : path.head? = some '/') : ∃ u level v, pathLevels path = u ++ level :: v ∧ targetAt path level = some name ∧
      dirNames level = dir.take (parentDepth path dir) ∧ parentDepth path dir ≤ dir.length ∧
      ∀ y ∈ v, parentDepth path dir < (dirNames y).length := by
  by_cases hnil : trimSlashes path = []
  · have hlevels : pathLevels path = [['/']] := if_pos hnil
    have hdir : dir = [] := (h.arrives ['/'] (by rw [hlevels]; rfl)).symm
    obtain ⟨hparent, _⟩ := target_of_all_slashes hnil
    refine ⟨[], ['/'], [], hlevels, ?_, ?_, ?_, by simp⟩
    · rw [targetAt, hparent, if_pos rfl, h.named]
    · rw [hdir, take_nil]
      rfl
    · rw [parentDepth]
      split_ifs <;> omega
  · obtain ⟨extra, parents, last, trailing, hs⟩ := exists_spelled hhead hnil
    obtain rfl : last = name := hs.targetName_eq.symm.trans h.named
    have htarget : targetAt path (pathOf parents) = some last := by
      have hlevel : trimEnd (· = '/') (pathOf parents) = trimEnd (· = '/') (slashed parents) := by
        cases parents with
        | nil => rfl
        | cons p parents => rw [pathOf_eq_slashed (by simp)]
      have hparent : trimEnd (· = '/') (List.replicate extra '/' ++ slashed parents) = trimEnd (· = '/') (slashed parents) := by
        cases extra with
        | zero => rfl
        | succ extra =>
          have hno := h.single (by rw [hs.eq, slashed_append]; cases extra <;> cases parents <;> rfl)
          have hbody := hs.trimSlashes_eq
          cases parents with
          | nil => simpa [slashed] using trimEnd_append_replicate [] (extra + 1)
          | cons p parents =>
            have hmem : '/' ∈ trimSlashes path := by
              rw [slashed_append, slashed, flatMap_cons, cons_append, cons_append] at hbody
              rw [cons_injective hbody]
              simp
            exact absurd hmem hno
      rw [targetAt, hs.trimEnd_targetParent, hlevel, hparent, if_pos rfl, h.named]
    obtain ⟨u, hu⟩ := exists_inits parents
    have hlevels := hs.pathLevels_eq
    by_cases ht : trailing = 0
    · rw [if_pos ht, hu, map_append, map_singleton] at hlevels
      have hdir := h.arrives (pathOf parents) (by simp [hlevels])
      have hdepth : parentDepth path dir = dir.length := if_neg (by simp [hs.getLast?_path, ht])
      exact ⟨_, pathOf parents, [], hlevels, htarget, by rw [hdepth, take_length, hdir], hdepth.le, by simp⟩
    · rw [if_neg ht, inits_concat, hu, map_append, map_append, map_singleton, map_singleton, append_assoc] at hlevels
      have hdir := h.arrives (pathOf (parents ++ [last])) (by simp [hlevels])
      have hlast := htrail (hs.getLast?_path.mpr ht)
      obtain ⟨ds, d, rfl⟩ : ∃ ds d, dir = ds ++ [d] := (eq_nil_or_concat' dir).resolve_left fun hnil => by
        rw [hnil] at hlast
        exact hs.name_ne hlast.symm
      obtain rfl : d = last := by simpa using hlast
      have hname : SegmentName d := dirNames_names (pathOf (parents ++ [d])) d (by simp [hdir])
      rw [dirNames_append_of_segmentName hname] at hdir
      have hdepth : parentDepth path (ds ++ [d]) = ds.length := by
        rw [parentDepth, if_pos (hs.getLast?_path.mpr ht)]
        simp
      refine ⟨_, pathOf parents, _, hlevels, htarget, ?_, by simp [hdepth], fun y hy => ?_⟩
      · rw [hdepth, take_left' rfl]
        exact append_cancel_right hdir
      · rw [mem_singleton.mp hy, dirNames_append_of_segmentName hname, hdir, hdepth]
        simp

def wayOpinion (policy : Policy) (groups : List Str) (op : CrudlifyOp) (dir : List Str) (name : Str) (depth j : ℕ) : EngineResult (Option Bool) :=
  opinionAt policy groups op (dir.take j) (if j = depth then some name else none)

variable (h : Leads path dir name) (htrail : path.getLast? = some '/' → dir.getLast?.getD [] = name) (hhead : path.head? = some '/')
  (policy : Policy) (groups : List Str) (op : CrudlifyOp)
include h htrail hhead policy groups op

lemma Leads.shadows :
    LastWins.Shadows (fun level => (dirNames level).length)
      (fun level => opinionAt policy groups op (dirNames level) (targetAt path level))
      (wayOpinion policy groups op dir name (parentDepth path dir)) (pathLevels path) dir.length := by
  obtain ⟨u, parent, v, hlevels, htarget, hparent, hdepth, hbehind⟩ := h.exists_parent htrail hhead
  have htake : ∀ level ∈ pathLevels path, dir.take (dirNames level).length = dirNames level := fun level hlevel =>
    (prefix_iff_eq_take.mp (h.within level hlevel)).symm
  have hlen : (dirNames parent).length = parentDepth path dir := by rw [hparent, length_take, min_eq_left hdepth]
  -- away from the parent no pattern is compared
  have haway : ∀ level, targetAt path level ≠ none → (dirNames level).length = parentDepth path dir := by
    intro level hne
    have hsame : dirNames parent = dirNames (targetParent path) := dirNames_of_targetAt (by rw [htarget]; simp)
    rw [dirNames_of_targetAt hne, ← hsame, hlen]
  refine ⟨?_, isChain_pathLevels path, fun x hx => (h.within x hx).length_le, ?_, ?_, ?_, ?_⟩
  · exact ⟨['/'], by rw [head?_pathLevels]; rfl, rfl⟩
  · cases hlast : (pathLevels path).getLast? with
    | none =>
      rw [getLast?_eq_none_iff] at hlast
      simp [hlast] at hlevels
    | some level => exact ⟨level, rfl, by rw [h.arrives level hlast]⟩
  · intro x hx err herr
    rw [wayOpinion, htake x hx] at herr
    exact opinionAt_error herr _
  · intro x hx o ho
    rw [wayOpinion, htake x hx] at ho
    by_cases hnone : targetAt path x = none
    · rw [hnone]
      exact opinionAt_none ho
    · rw [(targetAt_cases path x).resolve_left hnone, h.named]
      rw [if_pos (haway x hnone)] at ho
      exact ⟨o, ho, id⟩
  · intro a x b heq hb
    have hx : x ∈ pathLevels path := by simp [heq]
    rw [wayOpinion, htake x hx]
    by_cases hat : (dirNames x).length = parentDepth path dir
    · obtain rfl : x = parent := LastWins.last_unique (fun level => (dirNames level).length) (heq.symm.trans hlevels) (hat.trans hlen.symm) hb
        (by simpa only [hlen] using hbehind)
      rw [if_pos hat, htarget]
    · rw [if_neg hat, not_not.mp fun hne => hat (haway x hne)]

lemma Leads.run_eq :
    LastWins.run ((pathLevels path).map fun level => opinionAt policy groups op (dirNames level) (targetAt path level)) =
      LastWins.run ((List.range (dir.length + 1)).map (wayOpinion policy groups op dir name (parentDepth path dir))) :=
  (h.shadows htrail hhead policy groups op).run_eq

end AeorDb.Auth
