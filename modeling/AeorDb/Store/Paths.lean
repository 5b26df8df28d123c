import AeorDb.Store.Records

/-! Path strings: normalization, parent and last name. -/

namespace AeorDb.Store

open List

def isWhitespace (c : Char) : Bool :=
  let n := c.toNat
  (9 ≤ n && n ≤ 13) || n == 0x20 || n == 0x85 || n == 0xA0 || n == 0x1680 || (0x2000 ≤ n && n ≤ 0x200A) ||
    n == 0x2028 || n == 0x2029 || n == 0x202F || n == 0x205F || n == 0x3000

def trimEnd (p : Char → Bool) (s : Str) : Str := (s.reverse.dropWhile p).reverse

def trim (s : Str) : Str := trimEnd isWhitespace (s.dropWhile isWhitespace)

def splitSegments (s : Str) : List Str := (s.splitOn '/').filter (· ≠ [])

def resolveSegment (acc : List Str) (segment : Str) : List Str :=
  if segment = ['.'] then acc else if segment = ['.', '.'] then acc.dropLast else acc ++ [segment]

def pathOf : List Str → Str
  | [] => ['/']
  | segments => '/' :: ['/'].intercalate segments

def normalizePath (path : Str) : Str :=
  let trimmed := trim (path.filter (· ≠ '\x00'))
  if trimmed = [] then ['/'] else pathOf ((splitSegments trimmed).foldl resolveSegment [])

def rfind (c : Char) : Str → Option ℕ
  | [] => none
  | a :: s =>
    match rfind c s with
    | some i => some (i + 1)
    | none => if a = c then some 0 else none

def parentPath (path : Str) : Option Str :=
  let normalized := normalizePath path
  if normalized = ['/'] then none
  else
    match rfind '/' normalized with
    | some 0 => some ['/']
    | some i => some (normalized.take i)
    | none => none

def fileName (path : Str) : Option Str :=
  let trimmed := trimEnd (· = '/') (trim path)
  if trimmed = [] then none
  else
    match rfind '/' trimmed with
    | some i => if trimmed.drop (i + 1) = [] then none else some (trimmed.drop (i + 1))
    | none => some trimmed

def childPath (parent name : Str) : Str :=
  if parent = ['/'] then '/' :: name else parent ++ '/' :: name

def startsWith (s pre : Str) : Bool := pre.isPrefixOf s

def isSystemPath (path : Str) : Bool :=
  let normalized := normalizePath path
  normalized = "/.aeordb-system".toList || startsWith normalized "/.aeordb-system/".toList ||
    normalized = "/.aeordb-config".toList || startsWith normalized "/.aeordb-config/".toList

def isInternalPath (path : Str) : Bool :=
  (splitSegments (normalizePath path)).any fun s =>
    s = ".aeordb-logs".toList || s = ".aeordb-indexes".toList || s = ".aeordb-config".toList

structure SegmentName (s : Str) : Prop where
  ne_nil : s ≠ []
  no_slash : '/' ∉ s
  no_nul : '\x00' ∉ s
  ne_dot : s ≠ ['.']
  ne_dotdot : s ≠ ['.', '.']

structure CleanName (s : Str) : Prop where
  ne_nil : s ≠ []
  no_slash : '/' ∉ s
  no_nul : '\x00' ∉ s
  ne_dot : s ≠ ['.']
  ne_dotdot : s ≠ ['.', '.']
  trimmed : ∀ c ∈ s.getLast?, isWhitespace c = false

lemma cleanName_iff (s : Str) : CleanName s ↔ s ≠ [] ∧ '/' ∉ s ∧ '\x00' ∉ s ∧ s ≠ ['.'] ∧ s ≠ ['.', '.'] ∧
    (s.getLast?.all fun c => !isWhitespace c) = true := by
  constructor
  · intro h
    exact ⟨h.1, h.2, h.3, h.4, h.5, by simpa [Option.all_eq_true] using h.6⟩
  · rintro ⟨h₁, h₂, h₃, h₄, h₅, h₆⟩
    exact ⟨h₁, h₂, h₃, h₄, h₅, by simpa [Option.all_eq_true] using h₆⟩

instance (s : Str) : Decidable (CleanName s) := decidable_of_iff _ (cleanName_iff s).symm

variable {s : Str} {c : Char}

lemma CleanName.segmentName (h : CleanName s) : SegmentName s := ⟨h.1, h.2, h.3, h.4, h.5⟩

structure NormalForm (segments : List Str) : Prop where
  names : ∀ s ∈ segments, SegmentName s
  last : ∀ s ∈ segments.getLast?, ∀ c ∈ s.getLast?, isWhitespace c = false

lemma normalForm_of_clean {segments : List Str} (h : ∀ s ∈ segments, CleanName s) : NormalForm segments :=
  ⟨fun s hs => (h s hs).segmentName, fun s hs => (h s (mem_of_getLast? hs)).trimmed⟩

lemma trimEnd_append {p : Char → Bool} (hc : p c = false) : trimEnd p (s ++ [c]) = s ++ [c] := by
  simp [trimEnd, hc]

lemma rfind_eq_none (hs : c ∉ s) : rfind c s = none := by
  induction s with
  | nil => rfl
  | cons a s ih =>
    rw [mem_cons, not_or] at hs
    simp [rfind, ih hs.2, Ne.symm hs.1]

lemma rfind_append {s t : Str} (ht : c ∉ t) : rfind c (s ++ c :: t) = some s.length := by
  induction s with
  | nil => simp [rfind, rfind_eq_none ht]
  | cons a s ih => simp [rfind, ih]

variable {segments : List Str} {name : Str}

def slashed (segments : List Str) : Str := segments.flatMap fun s => '/' :: s

lemma slashed_append (segments : List Str) (name : Str) : slashed (segments ++ [name]) = slashed segments ++ '/' :: name := by
  simp [slashed]

lemma slashed_ne_nil (hne : segments ≠ []) : slashed segments ≠ [] := by
  cases segments with
  | nil => exact absurd rfl hne
  | cons s segments => simp [slashed]

lemma slashed_eq_intercalate (segments : List Str) : slashed segments = ['/'].intercalate ([] :: segments) := by
  induction segments with
  | nil => rfl
  | cons s segments ih =>
    cases segments with
    | nil => simp [slashed, List.intercalate]
    | cons t segments => simpa [slashed, List.intercalate] using ih

lemma pathOf_eq_slashed (hne : segments ≠ []) : pathOf segments = slashed segments := by
  rw [slashed_eq_intercalate]
  cases segments with
  | nil => exact absurd rfl hne
  | cons s segments => rfl

lemma pathOf_append (segments : List Str) (name : Str) : pathOf (segments ++ [name]) = slashed segments ++ '/' :: name := by
  rw [pathOf_eq_slashed (by simp), slashed_append]

lemma splitSegments_slashed_eq_filter (hs : ∀ s ∈ segments, '/' ∉ s) : splitSegments (slashed segments) = segments.filter (· ≠ []) := by
  have hsplit : (slashed segments).splitOn '/' = [] :: segments := by
    rw [slashed_eq_intercalate]
    refine splitOn_intercalate '/' ?_ (by simp)
    intro l hl
    rcases mem_cons.mp hl with rfl | hl
    · simp
    · exact hs l hl
  rw [splitSegments, hsplit, filter_cons_of_neg (by simp)]

lemma splitSegments_slashed (hs : ∀ s ∈ segments, SegmentName s) : splitSegments (slashed segments) = segments := by
  rw [splitSegments_slashed_eq_filter fun s h => (hs s h).no_slash, filter_eq_self]
  intro s h
  simpa using (hs s h).ne_nil

lemma splitSegments_pathOf_of_segmentNames (hs : ∀ s ∈ segments, SegmentName s) : splitSegments (pathOf segments) = segments := by
  by_cases hne : segments = []
  · subst hne
    decide
  · rw [pathOf_eq_slashed hne, splitSegments_slashed hs]

lemma splitSegments_pathOf (hs : ∀ s ∈ segments, CleanName s) : splitSegments (pathOf segments) = segments :=
  splitSegments_pathOf_of_segmentNames fun s h => (hs s h).segmentName

variable {segments' : List Str}

lemma pathOf_inj_of_segmentNames (hs : ∀ s ∈ segments, SegmentName s) (hs' : ∀ s ∈ segments', SegmentName s)
    (h : pathOf segments = pathOf segments') : segments = segments' := by
  rw [← splitSegments_pathOf_of_segmentNames hs, h, splitSegments_pathOf_of_segmentNames hs']

lemma pathOf_inj (hs : ∀ s ∈ segments, CleanName s) (hs' : ∀ s ∈ segments', CleanName s)
    (h : pathOf segments = pathOf segments') : segments = segments' := by
  rw [← splitSegments_pathOf hs, h, splitSegments_pathOf hs']

lemma pathOf_ne_root_of_segmentNames (hs : ∀ s ∈ segments, SegmentName s) (hne : segments ≠ []) : pathOf segments ≠ ['/'] :=
  fun h => hne (pathOf_inj_of_segmentNames hs (by simp) (h.trans (show ['/'] = pathOf [] from rfl)))

lemma pathOf_ne_root (hs : ∀ s ∈ segments, CleanName s) (hne : segments ≠ []) : pathOf segments ≠ ['/'] :=
  pathOf_ne_root_of_segmentNames (fun s h => (hs s h).segmentName) hne

lemma NormalForm.slashed_last (h : NormalForm (segments ++ [name])) :
    ∃ t c, slashed (segments ++ [name]) = t ++ [c] ∧ isWhitespace c = false ∧ c ≠ '/' := by
  have hn := h.names name (by simp)
  obtain ⟨t, c, rfl⟩ : ∃ t c, name = t ++ [c] :=
    ⟨name.dropLast, name.getLast hn.ne_nil, (dropLast_append_getLast hn.ne_nil).symm⟩
  refine ⟨slashed segments ++ '/' :: t, c, by simp [slashed_append], h.last (t ++ [c]) (by simp) c (by simp), ?_⟩
  rintro rfl
  exact hn.no_slash (by simp)

lemma dropWhile_slashed (segments : List Str) : (slashed segments).dropWhile isWhitespace = slashed segments := by
  cases segments with
  | nil => rfl
  | cons s segments => exact dropWhile_cons_of_neg (by decide)

lemma NormalForm.trim_slashed (h : NormalForm segments) : trim (slashed segments) = slashed segments := by
  rcases eq_nil_or_concat' segments with rfl | ⟨segments, name, rfl⟩
  · rfl
  · obtain ⟨t, c, heq, hc, _⟩ := h.slashed_last
    rw [trim, dropWhile_slashed, heq, trimEnd_append hc]

lemma filter_nul_slashed (hs : ∀ s ∈ segments, SegmentName s) : (slashed segments).filter (· ≠ '\x00') = slashed segments := by
  rw [filter_eq_self]
  intro c hc
  obtain ⟨s, hmem, hc⟩ := mem_flatMap.mp hc
  rcases mem_cons.mp hc with rfl | hc
  · decide
  · simp only [ne_eq, decide_eq_true_eq]
    rintro rfl
    exact (hs s hmem).no_nul hc

lemma foldl_resolveSegment (hs : ∀ s ∈ segments, SegmentName s) (acc : List Str) : segments.foldl resolveSegment acc = acc ++ segments := by
  induction segments generalizing acc with
  | nil => simp
  | cons s segments ih =>
    obtain ⟨h, hs⟩ := forall_mem_cons.mp hs
    simp [resolveSegment, h.ne_dot, h.ne_dotdot, ih hs]

lemma NormalForm.normalizePath_eq (h : NormalForm segments) : normalizePath (pathOf segments) = pathOf segments := by
  by_cases hne : segments = []
  · subst hne
    decide
  · rw [normalizePath, pathOf_eq_slashed hne, filter_nul_slashed h.names, h.trim_slashed]
    simp only [if_neg (slashed_ne_nil hne)]
    rw [splitSegments_slashed h.names, foldl_resolveSegment h.names, nil_append, pathOf_eq_slashed hne]

lemma normalizePath_pathOf (hs : ∀ s ∈ segments, CleanName s) : normalizePath (pathOf segments) = pathOf segments :=
  (normalForm_of_clean hs).normalizePath_eq

lemma cleanNames_append (hs : ∀ s ∈ segments, CleanName s) (hn : CleanName name) : ∀ s ∈ segments ++ [name], CleanName s := by
  intro s h
  rcases mem_append.mp h with h | h
  · exact hs s h
  · exact (mem_singleton.mp h) ▸ hn

lemma parentPath_of_normalizePath {path : Str} (hs : ∀ s ∈ segments ++ [name], SegmentName s)
    (h : normalizePath path = pathOf (segments ++ [name])) : parentPath path = some (pathOf segments) := by
  rw [parentPath, h]
  simp only [if_neg (pathOf_ne_root_of_segmentNames hs (by simp))]
  rw [pathOf_append, rfind_append (hs name (by simp)).no_slash]
  by_cases hne : segments = []
  · subst hne
    rfl
  · rw [pathOf_eq_slashed hne]
    cases hlen : (slashed segments).length with
    | zero => exact absurd (length_eq_zero_iff.mp hlen) (slashed_ne_nil hne)
    | succ n => exact congrArg some (take_left' hlen)

lemma NormalForm.parentPath_eq (h : NormalForm (segments ++ [name])) : parentPath (pathOf (segments ++ [name])) = some (pathOf segments) :=
  parentPath_of_normalizePath h.names h.normalizePath_eq

lemma parentPath_append (hs : ∀ s ∈ segments, CleanName s) (hn : CleanName name) :
    parentPath (pathOf (segments ++ [name])) = some (pathOf segments) :=
  (normalForm_of_clean (cleanNames_append hs hn)).parentPath_eq

lemma NormalForm.trimEnd_slash (h : NormalForm segments) : trimEnd (· = '/') (pathOf segments) = slashed segments := by
  rcases eq_nil_or_concat' segments with rfl | ⟨segments, name, rfl⟩
  · rfl
  · obtain ⟨t, c, heq, _, hc⟩ := h.slashed_last
    rw [pathOf_eq_slashed (by simp), heq, trimEnd_append (by simpa using hc)]

lemma trimEnd_slash_pathOf (hs : ∀ s ∈ segments, CleanName s) : trimEnd (· = '/') (pathOf segments) = slashed segments :=
  (normalForm_of_clean hs).trimEnd_slash

lemma NormalForm.fileName_eq (h : NormalForm (segments ++ [name])) : fileName (pathOf (segments ++ [name])) = some name := by
  have hn := h.names name (by simp)
  have htrim : trim (pathOf (segments ++ [name])) = pathOf (segments ++ [name]) := by
    rw [pathOf_eq_slashed (by simp), h.trim_slashed]
  rw [fileName, htrim, h.trimEnd_slash, slashed_append]
  simp [rfind_append hn.no_slash, hn.ne_nil]

lemma fileName_append (hs : ∀ s ∈ segments, CleanName s) (hn : CleanName name) : fileName (pathOf (segments ++ [name])) = some name :=
  (normalForm_of_clean (cleanNames_append hs hn)).fileName_eq

lemma childPath_pathOf_of_segmentNames (hs : ∀ s ∈ segments, SegmentName s) (name : Str) :
    childPath (pathOf segments) name = pathOf (segments ++ [name]) := by
  rw [childPath, pathOf_append]
  by_cases hne : segments = []
  · subst hne
    rfl
  · rw [if_neg (pathOf_ne_root_of_segmentNames hs hne), pathOf_eq_slashed hne]

end AeorDb.Store
