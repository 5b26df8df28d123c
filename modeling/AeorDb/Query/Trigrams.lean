import AeorDb.Query.ExactLookup

/-! Trigrams of words, and the substring query on an index of them. -/

namespace AeorDb.Query

open Store Library List

structure Alphabet where
  lower : Str → Str
  isAlphanumeric : Char → Bool
  space : isAlphanumeric ' ' = false

def windows : Str → List Str
  | a :: b :: c :: rest => [a, b, c] :: windows (b :: c :: rest)
  | _ => []

variable {S F : Type} [LinearOrder S] [DecidableEq F]

section

variable (al : Alphabet) (sc : Scale S)

def wordsOf (s : Str) : List Str := (s.splitOnP fun c => !al.isAlphanumeric c).filter (· ≠ [])

def padded (word : Str) : Str := ' ' :: ' ' :: (word ++ [' '])

def extractTrigrams (s : Str) : List Str := ((wordsOf al (al.lower s)).flatMap fun word => windows (padded word)).eraseDups

def trigramConverter (toScalar : Str → S) : ScalarConverter Str S where
  toScalar := toScalar
  isOrderPreserving := false
  name := "trigram"
  typeTag := .trigram
  expandValue := extractTrigrams al

def hashesAt (ix : FieldIndex Str S F) (trigram : Str) : Finset F :=
  (files (ix.lookupByScalar sc (ix.converter.toScalar trigram))).toFinset

def containsCandidates (ix : FieldIndex Str S F) (query : Str) : Finset F :=
  let trigrams := extractTrigrams al query
  match trigrams.filter (' ' ∉ ·) with
  | [] => trigrams.foldl (fun all trigram => all ∪ hashesAt sc ix trigram) ∅
  | first :: rest => rest.foldl (fun candidates trigram => candidates ∩ hashesAt sc ix trigram) (hashesAt sc ix first)

def containsScore (query value : Str) : Bool := al.lower query <:+: al.lower value

def executeContains (hasRecord : F → Bool) (fallback : F → Option Str) (ix : FieldIndex Str S F) (query : Str) : Finset F :=
  (containsCandidates al sc ix query).filter fun file => hasRecord file = true ∧
    (((ix.values.get file).map (·.2)).or (fallback file)).any (containsScore al query) = true

end

variable {al : Alphabet} {s t : Str}

lemma windows_length (h : t ∈ windows s) : t.length = 3 := by
  induction s using windows.induct with
  | case1 a b c rest ih =>
    rcases mem_cons.mp h with rfl | h
    · rfl
    · exact ih h
  | case2 s hs =>
    rw [windows.eq_2 s hs] at h
    simp at h

lemma mem_windows : t ∈ windows s ↔ t.length = 3 ∧ t <:+: s := by
  refine ⟨fun h => ⟨windows_length h, ?_⟩, ?_⟩
  · induction s using windows.induct with
    | case1 a b c rest ih =>
      rcases mem_cons.mp h with rfl | h
      · exact ⟨[], rest, rfl⟩
      · exact (ih h).trans (suffix_cons a _).isInfix
    | case2 s hs =>
      rw [windows.eq_2 s hs] at h
      simp at h
  · rintro ⟨hlen, u, v, rfl⟩
    obtain ⟨a, b, c, rfl⟩ := length_eq_three.mp hlen
    induction u with
    | nil => exact mem_cons_self ..
    | cons x u ih =>
      cases u with
      | nil => exact mem_cons_of_mem _ ih
      | cons y u =>
        cases u with
        | nil => exact mem_cons_of_mem _ ih
        | cons z u => exact mem_cons_of_mem _ ih

lemma wordsOf_append_cons {c : Char} (hc : al.isAlphanumeric c = false) : wordsOf al (s ++ c :: t) = wordsOf al s ++ wordsOf al t := by
  rw [wordsOf, splitOnP_append_cons s t (by simpa using hc), filter_append]
  rfl

lemma word_induction (al : Alphabet) {motive : Str → Prop} (hword : ∀ w, (∀ c ∈ w, al.isAlphanumeric c = true) → motive w)
    (hcut : ∀ w c t, (∀ x ∈ w, al.isAlphanumeric x = true) → al.isAlphanumeric c = false → motive t → motive (w ++ c :: t)) (s : Str) : motive s := by
  have hgen : ∀ w s : Str, (∀ c ∈ w, al.isAlphanumeric c = true) → motive (w ++ s) := by
    intro w s
    induction s generalizing w with
    | nil =>
      intro hw
      rw [append_nil]
      exact hword w hw
    | cons c s ih =>
      intro hw
      by_cases hc : al.isAlphanumeric c = true
      · have hnext := ih (w ++ [c]) (by
          intro x hx
          rcases mem_append.mp hx with hx | hx
          · exact hw x hx
          · rw [mem_singleton.mp hx, hc])
        rwa [append_assoc] at hnext
      · exact hcut w c s hw (by simpa using hc) (ih [] (by simp))
  exact hgen [] s (by simp)

lemma wordsOf_word (w : Str) (hw : ∀ c ∈ w, al.isAlphanumeric c = true) : wordsOf al w = if w = [] then [] else [w] := by
  split_ifs with hne
  · subst hne
    simp [wordsOf]
  · rw [wordsOf, splitOnP_eq_singleton (by simpa using hw)]
    simp [hne]

lemma word_spec {s x : Str} (h : x ∈ wordsOf al s) : x ≠ [] ∧ (∀ c ∈ x, al.isAlphanumeric c = true) ∧ x <:+: s := by
  have hself : ∀ w : Str, (∀ c ∈ w, al.isAlphanumeric c = true) → x ∈ wordsOf al w → x = w ∧ x ≠ [] := by
    intro w hw hx
    rw [wordsOf_word w hw] at hx
    split_ifs at hx with hne
    · simp at hx
    · rw [mem_singleton.mp hx]
      exact ⟨rfl, hne⟩
  induction s using word_induction al with
  | hword w hw =>
    obtain ⟨rfl, hne⟩ := hself w hw h
    exact ⟨hne, hw, infix_rfl⟩
  | hcut w c t hw hc ih =>
    rw [wordsOf_append_cons hc] at h
    rcases mem_append.mp h with h | h
    · obtain ⟨rfl, hne⟩ := hself w hw h
      exact ⟨hne, hw, (prefix_append _ _).isInfix⟩
    · obtain ⟨hne, hchars, hinside⟩ := ih h
      exact ⟨hne, hchars, hinside.trans ⟨w ++ [c], [], by simp⟩⟩

lemma infix_append_cons {t w r : Str} {c : Char} (h : t <:+: w ++ c :: r) (hc : c ∉ t) : t <:+: w ∨ t <:+: r := by
  obtain ⟨u, v, heq⟩ := h
  rcases append_eq_append_iff.mp heq with ⟨a, rfl, _⟩ | ⟨b, hb, hcr⟩
  · exact .inl ⟨u, a, rfl⟩
  · cases b with
    | nil => exact .inl ⟨u, [], by simpa using hb⟩
    | cons c' b =>
      obtain ⟨rfl, rfl⟩ := List.cons.inj hcr
      rcases append_eq_append_iff.mp hb with ⟨a, _, rfl⟩ | ⟨a, _, ha⟩
      · exact absurd (by simp) hc
      · cases a with
        | nil =>
          obtain rfl : c :: b = t := ha
          exact absurd (by simp) hc
        | cons d a =>
          obtain ⟨_, rfl⟩ := List.cons.inj ha
          exact .inr ⟨a, v, rfl⟩

lemma exists_word (hinside : t <:+: s) (ht : ∀ c ∈ t, al.isAlphanumeric c = true) (hne : t ≠ []) :
    ∃ w ∈ wordsOf al s, t <:+: w := by
  have hself : ∀ w : Str, (∀ c ∈ w, al.isAlphanumeric c = true) → t <:+: w → w ∈ wordsOf al w := by
    intro w hw hinside
    rw [wordsOf_word w hw, if_neg]
    · simp
    · rintro rfl
      exact hne (infix_nil.mp hinside)
  induction s using word_induction al with
  | hword w hw => exact ⟨w, hself w hw hinside, hinside⟩
  | hcut w c r hw hc ih =>
    rw [wordsOf_append_cons hc]
    have hmem : c ∉ t := fun hmem => by simp [ht c hmem] at hc
    rcases infix_append_cons hinside hmem with hinside | hinside
    · exact ⟨w, mem_append_left _ (hself w hw hinside), hinside⟩
    · obtain ⟨x, hx, htx⟩ := ih hinside
      exact ⟨x, mem_append_right _ hx, htx⟩

end AeorDb.Query
