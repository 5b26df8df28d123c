import AeorDb.Store.Paths

/-! When normalizing a path twice is the same as normalizing it once. -/

namespace AeorDb.Store

open List Function

def rawSegments (s : Str) : List Str := splitSegments (trim (s.filter (· ≠ '\x00')))

def resolved (s : Str) : List Str := (rawSegments s).foldl resolveSegment []

def lastKept : ℕ → List Str → Option Str
  | _, [] => none
  | n, s :: rest =>
    if s = ['.'] then lastKept n rest
    else if s = ['.', '.'] then lastKept (n + 1) rest
    else
      match n with
      | 0 => some s
      | n + 1 => lastKept n rest

structure Projects (s : Str) : Prop where
  rooted : (normalizePath s).head? = some '/'
  no_nul : '\x00' ∉ normalizePath s
  segments : normalizePath s ≠ ['/'] →
    ∀ x ∈ (normalizePath s).tail.splitOn '/', x ≠ [] ∧ x ≠ ['.'] ∧ x ≠ ['.', '.']
  idempotent : normalizePath (normalizePath s) = normalizePath s
  parts : normalizePath s ≠ ['/'] → ∃ parent name, parentPath (normalizePath s) = some parent ∧
    fileName (normalizePath s) = some name ∧ childPath parent name = normalizePath s

section

variable {s : Str} {segments : List Str}

lemma normalizePath_eq_pathOf (s : Str) : normalizePath s = pathOf (resolved s) := by
  rw [normalizePath, resolved, rawSegments]
  by_cases h : trim (s.filter (· ≠ '\x00')) = []
  · simp only [h, if_true]
    rfl
  · simp only [h, if_false]

variable {c : Char}

lemma mem_of_mem_trimEnd {p : Char → Bool} (h : c ∈ trimEnd p s) : c ∈ s := by
  rw [trimEnd, mem_reverse] at h
  exact mem_reverse.mp ((List.dropWhile_suffix _).subset h)

lemma mem_of_mem_splitOn {s x : Str} (hx : x ∈ s.splitOn '/') : ∀ c ∈ x, c ∈ s ∧ c ≠ '/' := by
  induction s generalizing x with
  | nil =>
    rw [splitOn_nil, mem_singleton] at hx
    simp [hx]
  | cons a s ih =>
    rw [splitOn_cons_eq_if_modifyHead] at hx
    split_ifs at hx with ha
    · rcases mem_cons.mp hx with rfl | hx
      · simp
      · exact fun c hc => ⟨mem_cons_of_mem a (ih hx c hc).1, (ih hx c hc).2⟩
    · cases hsplit : s.splitOn '/' with
      | nil => exact absurd hsplit (splitOn_ne_nil _ _)
      | cons y ys =>
        rw [hsplit] at hx ih
        rcases mem_cons.mp hx with rfl | hx
        · intro c hc
          rcases mem_cons.mp hc with rfl | hc
          · exact ⟨mem_cons_self .., by simpa using ha⟩
          · exact ⟨mem_cons_of_mem a (ih (by simp) c hc).1, (ih (by simp) c hc).2⟩
        · exact fun c hc => ⟨mem_cons_of_mem a (ih (by simp [hx]) c hc).1, (ih (by simp [hx]) c hc).2⟩

lemma rawSegments_names (s : Str) : ∀ x ∈ rawSegments s, x ≠ [] ∧ '/' ∉ x ∧ '\x00' ∉ x := by
  intro x hx
  obtain ⟨hsplit, hne⟩ := mem_filter.mp hx
  have hchars := mem_of_mem_splitOn hsplit
  refine ⟨by simpa using hne, fun hc => (hchars _ hc).2 rfl, fun hc => ?_⟩
  have hmem := (by exact (List.dropWhile_suffix _).subset (mem_of_mem_trimEnd (hchars _ hc).1))
  simp at hmem

lemma resolveSegment_names {acc : List Str} {x : Str} (hacc : ∀ y ∈ acc, SegmentName y) (hx : x ≠ [] ∧ '/' ∉ x ∧ '\x00' ∉ x) :
    ∀ y ∈ resolveSegment acc x, SegmentName y := by
  unfold resolveSegment
  split_ifs with hdot hdotdot
  · exact hacc
  · exact fun y hy => hacc y (mem_of_mem_dropLast hy)
  · intro y hy
    rcases mem_append.mp hy with hy | hy
    · exact hacc y hy
    · rw [mem_singleton.mp hy]
      exact ⟨hx.1, hx.2.1, hx.2.2, hdot, hdotdot⟩

lemma foldl_resolveSegment_names {segments acc : List Str} (hs : ∀ x ∈ segments, x ≠ [] ∧ '/' ∉ x ∧ '\x00' ∉ x)
    (hacc : ∀ y ∈ acc, SegmentName y) : ∀ y ∈ segments.foldl resolveSegment acc, SegmentName y := by
  induction segments generalizing acc with
  | nil => exact hacc
  | cons x segments ih =>
    obtain ⟨hx, hs⟩ := forall_mem_cons.mp hs
    exact ih hs (resolveSegment_names hacc hx)

lemma resolved_names (s : Str) : ∀ x ∈ resolved s, SegmentName x :=
  foldl_resolveSegment_names (rawSegments_names s) (by simp)

lemma getLast?_foldl_resolveSegment (segments : List Str) (n : ℕ) :
    (List.dropLast^[n] (segments.foldl resolveSegment [])).getLast? = lastKept n segments.reverse := by
  induction segments using List.reverseRecOn generalizing n with
  | nil =>
    have hnil : ∀ n, List.dropLast^[n] ([] : List Str) = [] := fun n => iterate_fixed rfl n
    simp [hnil, lastKept]
  | append_singleton segments x ih =>
    rw [List.foldl_append, foldl_cons, foldl_nil, reverse_append, reverse_singleton, singleton_append,
      lastKept.eq_def, resolveSegment]
    dsimp only
    split_ifs with hdot hdotdot
    · exact ih n
    · rw [← iterate_succ_apply]
      exact ih (n + 1)
    · cases n with
      | zero => simp
      | succ n =>
        rw [iterate_succ_apply, dropLast_concat]
        exact ih n

lemma getLast?_resolved (s : Str) : (resolved s).getLast? = lastKept 0 (rawSegments s).reverse :=
  getLast?_foldl_resolveSegment (rawSegments s) 0

end

variable {segments : List Str} {name : Str}

lemma trimEnd_append_cons {p : Char → Bool} {a : Char} (ha : p a = false) (u v : Str) :
    trimEnd p (u ++ a :: v) = u ++ a :: trimEnd p v := by
  induction v using List.reverseRecOn with
  | nil => simp [trimEnd, ha]
  | append_singleton v c ih =>
    rw [← cons_append, ← append_assoc]
    by_cases hc : p c = true
    · simpa [trimEnd, hc] using ih
    · simp [trimEnd, hc]

lemma length_trimEnd_le (p : Char → Bool) (s : Str) : (trimEnd p s).length ≤ s.length := by
  rw [trimEnd, length_reverse]
  exact (List.dropWhile_suffix _).length_le.trans (by simp)

lemma splitSegments_append_cons (x y : Str) : splitSegments (x ++ '/' :: y) = splitSegments x ++ splitSegments y := by
  rw [splitSegments, List.splitOn, splitOnP_append_cons x y (by simp), filter_append]
  rfl

lemma splitSegments_of_no_slash (hx : '/' ∉ x) : splitSegments x = [x].filter (· ≠ []) := by
  have hsplit : x.splitOn '/' = [x] := splitOnP_eq_singleton fun c hc => by
    have hne : c ≠ '/' := fun heq => hx (heq ▸ hc)
    simpa using hne
  rw [splitSegments, hsplit]

lemma resolved_append_name (hn : CleanName name) {y : Str} (hy : (y ++ '/' :: name).head? = some '/') :
    resolved (y ++ '/' :: name) = (splitSegments (y.filter (· ≠ '\x00'))).foldl resolveSegment [] ++ [name] := by
  have hnul : name.filter (· ≠ '\x00') = name := filter_eq_self.mpr fun c hc => by
    have hne : c ≠ '\x00' := fun heq => hn.no_nul (heq ▸ hc)
    simpa using hne
  have hfilter : (y ++ '/' :: name).filter (· ≠ '\x00') = y.filter (· ≠ '\x00') ++ '/' :: name := by
    rw [filter_append, filter_cons_of_pos (by simp), hnul]
  have hdrop : (y.filter (· ≠ '\x00') ++ '/' :: name).dropWhile isWhitespace = y.filter (· ≠ '\x00') ++ '/' :: name := by
    cases y with
    | nil => rfl
    | cons c y =>
      obtain rfl : c = '/' := by simpa using hy
      rfl
  have hend : trimEnd isWhitespace name = name := by
    obtain ⟨t, c, rfl⟩ : ∃ t c, name = t ++ [c] :=
      ⟨name.dropLast, name.getLast hn.ne_nil, (dropLast_append_getLast hn.ne_nil).symm⟩
    exact trimEnd_append (hn.trimmed c (by simp))
  have hone : splitSegments name = [name] := by
    rw [splitSegments_of_no_slash hn.no_slash, filter_cons_of_pos (by simpa using hn.ne_nil), filter_nil]
  rw [resolved, rawSegments, hfilter, trim, hdrop, trimEnd_append_cons (by decide), hend, splitSegments_append_cons, hone,
    List.foldl_append, foldl_cons, foldl_nil, resolveSegment, if_neg hn.ne_dot, if_neg hn.ne_dotdot]

lemma projects_of_normalForm {s : Str} (h : NormalForm (resolved s)) : Projects s := by
  have hp := normalizePath_eq_pathOf s
  have hhead : ∀ segments, (pathOf segments).head? = some '/' := by
    intro segments
    cases segments <;> rfl
  refine ⟨by rw [hp, hhead], ?_, fun hne => ?_, by rw [hp, h.normalizePath_eq], fun hne => ?_⟩ <;> rw [hp] at *
  · rcases eq_or_ne (resolved s) [] with hnil | hnil
    · rw [hnil]
      decide
    · rw [pathOf_eq_slashed hnil, ← filter_nul_slashed h.names]
      simp
  · cases hseg : resolved s with
    | nil => exact absurd (by rw [hseg]; rfl) hne
    | cons y ys =>
      rw [hseg] at h
      have hsplit : (pathOf (y :: ys)).tail.splitOn '/' = y :: ys := splitOn_intercalate '/' (fun x hx => (h.names x hx).no_slash) (by simp)
      rw [hsplit]
      exact fun x hx => ⟨(h.names x hx).ne_nil, (h.names x hx).ne_dot, (h.names x hx).ne_dotdot⟩
  · rcases eq_nil_or_concat' (resolved s) with hnil | ⟨segments, name, heq⟩
    · exact absurd (by rw [hnil]; rfl) hne
    · rw [heq] at h ⊢
      exact ⟨_, _, h.parentPath_eq, h.fileName_eq,
        childPath_pathOf_of_segmentNames (fun x hx => h.names x (mem_append_left _ hx)) name⟩

lemma rawSegments_pathOf_append (hs : ∀ x ∈ segments ++ [name], SegmentName x) :
    rawSegments (pathOf (segments ++ [name])) = segments ++ [trimEnd isWhitespace name].filter (· ≠ []) := by
  have hnames : ∀ x ∈ segments, SegmentName x := fun x hx => hs x (mem_append_left _ hx)
  have hslash : ∀ x ∈ segments ++ [trimEnd isWhitespace name], '/' ∉ x := by
    intro x hx
    rcases mem_append.mp hx with hx | hx
    · exact (hnames x hx).no_slash
    · rw [mem_singleton.mp hx]
      exact fun hmem => (hs name (by simp)).no_slash (mem_of_mem_trimEnd hmem)
  rw [rawSegments, pathOf_eq_slashed (by simp), filter_nul_slashed hs, trim, dropWhile_slashed, slashed_append,
    trimEnd_append_cons (by decide), ← slashed_append, splitSegments_slashed_eq_filter hslash, filter_append]
  congr 1
  exact filter_eq_self.mpr fun x hx => by simpa using (hnames x hx).ne_nil

lemma length_foldl_resolveSegment_le (segments acc : List Str) :
    (segments.foldl resolveSegment acc).length ≤ acc.length + segments.length := by
  induction segments generalizing acc with
  | nil => simp
  | cons x segments ih =>
    have hstep : (resolveSegment acc x).length ≤ acc.length + 1 := by
      rw [resolveSegment]
      split_ifs
      · omega
      · rw [length_dropLast]
        omega
      · simp
    rw [foldl_cons, length_cons]
    exact (ih _).trans (by omega)

lemma length_resolved_pathOf_le (hs : ∀ x ∈ segments, SegmentName x) : (resolved (pathOf segments)).length ≤ segments.length := by
  rcases eq_nil_or_concat' segments with rfl | ⟨pre, name, rfl⟩
  · decide
  · have hlen := length_foldl_resolveSegment_le (rawSegments (pathOf (pre ++ [name]))) []
    rw [← resolved, rawSegments_pathOf_append hs, length_append] at hlen
    have hlast := length_filter_le (· ≠ []) [trimEnd isWhitespace name]
    rw [length_append]
    simp only [length_nil, length_singleton] at *
    omega

lemma length_resolved_parentPath_lt {p a : Str} (h : parentPath p = some a) : (resolved a).length < (resolved p).length := by
  have hnames := resolved_names p
  rcases eq_nil_or_concat' (resolved p) with hnil | ⟨pre, name, heq⟩
  · rw [parentPath, normalizePath_eq_pathOf, hnil] at h
    cases h
  · rw [heq] at hnames ⊢
    rw [parentPath_of_normalizePath hnames (by rw [normalizePath_eq_pathOf, heq])] at h
    cases h
    have hle := length_resolved_pathOf_le fun x hx => hnames x (mem_append_left _ hx)
    rw [length_append, length_singleton]
    omega

lemma normalizePath_ne_of_whitespace (hs : ∀ x ∈ segments ++ [name], SegmentName x) {c : Char} (hc : c ∈ name.getLast?)
    (hw : isWhitespace c = true) : normalizePath (pathOf (segments ++ [name])) ≠ pathOf (segments ++ [name]) := by
  have hnames : ∀ x ∈ segments, SegmentName x := fun x hx => hs x (mem_append_left _ hx)
  intro heq
  rw [normalizePath_eq_pathOf] at heq
  have hres := pathOf_inj_of_segmentNames (resolved_names _) hs heq
  rw [resolved, rawSegments_pathOf_append hs, List.foldl_append, foldl_resolveSegment hnames, nil_append] at hres
  -- what is left of the last name is dropped, resolved or kept; it is not the name itself
  by_cases hnil : trimEnd isWhitespace name = []
  · simp [hnil] at hres
  · have hshort : trimEnd isWhitespace name ≠ name := by
      obtain ⟨t, rfl⟩ := getLast?_eq_some_iff.mp hc
      intro htrim
      have hdrop : trimEnd isWhitespace (t ++ [c]) = trimEnd isWhitespace t := by simp [trimEnd, hw]
      have hlen := length_trimEnd_le isWhitespace t
      rw [← hdrop, htrim, length_append, length_singleton] at hlen
      omega
    simp only [ne_eq, hnil, not_false_eq_true, decide_true, filter_cons_of_pos, filter_nil, foldl_cons,
      foldl_nil, resolveSegment] at hres
    split_ifs at hres
    · simpa using congrArg List.length hres
    · have hlen := congrArg List.length hres
      simp at hlen
    · exact hshort (by simpa using hres)

theorem normalizePath_projects_iff (s : Str) :
    Projects s ↔ ∀ name ∈ lastKept 0 (rawSegments s).reverse, ∀ c ∈ name.getLast?, isWhitespace c = false := by
  rw [← getLast?_resolved]
  constructor
  · intro h name hname c hc
    obtain ⟨segments, heq⟩ := getLast?_eq_some_iff.mp hname
    by_contra hw
    have hne := normalizePath_ne_of_whitespace (heq ▸ resolved_names s) hc (by simpa using hw)
    have hidem := h.idempotent
    rw [normalizePath_eq_pathOf s, heq] at hidem
    exact hne hidem
  · exact fun h => projects_of_normalForm ⟨resolved_names s, h⟩

theorem normalizePath_space_slash : ¬ Projects "/a /".toList := by
  intro h
  have hidem := h.idempotent
  revert hidem
  decide

end AeorDb.Store
