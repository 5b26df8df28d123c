import AeorDb.Query.Trigrams

/-! Which files a substring query finds. -/

namespace AeorDb.Query

open Store Library List FieldIndex

variable {S F : Type} [LinearOrder S] [DecidableEq F] {al : Alphabet} {sc : Scale S}

section

variable {w x t : Str}

lemma mem_extractTrigrams {s : Str} : t ∈ extractTrigrams al s ↔ ∃ w ∈ wordsOf al (al.lower s), t ∈ windows (padded w) := by
  rw [extractTrigrams, mem_eraseDups, mem_flatMap]

lemma no_space (hw : ∀ c ∈ w, al.isAlphanumeric c = true) : ' ' ∉ w := fun hmem => by
  simpa [al.space] using hw ' ' hmem

lemma mem_windows_padded (c : Char) (rest : Str) :
    t ∈ windows (padded (c :: rest)) ↔ t = [' ', ' ', c] ∨ (∃ d r, rest ++ [' '] = d :: r ∧ t = [' ', c, d]) ∨ t ∈ windows (c :: rest ++ [' ']) := by
  cases rest with
  | nil => simp [padded, windows]
  | cons d rest => simp [padded, windows]

lemma windows_before_space (h : t ∈ windows (x ++ [' '])) : (∃ a b, t = [a, b, ' '] ∧ [a, b] <:+ x) ∨ t ∈ windows x := by
  obtain ⟨hlen, u, v, heq⟩ := mem_windows.mp h
  rcases eq_nil_or_concat' v with rfl | ⟨v, c, rfl⟩
  · obtain ⟨a, b, c, rfl⟩ := length_eq_three.mp hlen
    have hcut : u ++ [a, b] ++ [c] = x ++ [' '] := by simpa using heq
    obtain ⟨hx', hc⟩ := append_inj' hcut rfl
    obtain rfl : c = ' ' := by simpa using hc
    exact .inl ⟨a, b, rfl, u, hx'⟩
  · rw [← append_assoc] at heq
    obtain ⟨hx', _⟩ := append_inj' heq rfl
    exact .inr (mem_windows.mpr ⟨hlen, u, v, hx'⟩)

variable {b p q : Char}

lemma front_window (hx : ' ' ∉ b :: x) (h : [' ', p, q] ∈ windows (padded (b :: x))) : p = ' ' ∧ q = b ∨ p = b := by
  rcases (mem_windows_padded b x).mp h with h | ⟨d, r, _, h⟩ | h
  · exact .inl (by simpa using h)
  · exact .inr (by simpa using (List.cons.inj (List.cons.inj h).2).1)
  · rcases windows_before_space h with ⟨a, c, heq, hsuffix⟩ | h
    · obtain rfl : ' ' = a := (List.cons.inj heq).1
      exact absurd (hsuffix.subset (by simp)) hx
    · exact absurd ((mem_windows.mp h).2.subset (by simp)) hx

lemma end_window (hx : ' ' ∉ b :: x) (hp : p ≠ ' ') (h : [p, q, ' '] ∈ windows (padded (b :: x))) : [p, q] <:+ b :: x := by
  rcases (mem_windows_padded b x).mp h with h | ⟨d, r, _, h⟩ | h
  · exact absurd (List.cons.inj h).1 hp
  · exact absurd (List.cons.inj h).1 hp
  · rcases windows_before_space h with ⟨a, c, heq, hsuffix⟩ | h
    · obtain ⟨rfl, rfl⟩ : p = a ∧ q = c := by simpa using heq
      exact hsuffix
    · exact absurd ((mem_windows.mp h).2.subset (by simp)) hx

lemma share_iff (hw : ' ' ∉ w) (hx : ' ' ∉ x) (hwne : w ≠ []) (hxne : x ≠ []) (hshort : w.length ≤ 2) :
    (∃ t ∈ windows (padded w), t ∈ windows (padded x)) ↔ x.head? = w.head? ∨ (w.length = 2 ∧ w <:+ x) := by
  obtain ⟨a, w, rfl⟩ := exists_cons_of_ne_nil hwne
  obtain ⟨b, x, rfl⟩ := exists_cons_of_ne_nil hxne
  have ha : a ≠ ' ' := fun h => hw (by simp [h])
  have hb : b ≠ ' ' := fun h => hx (by simp [h])
  constructor
  · rintro ⟨t, htw, htx⟩
    rcases (mem_windows_padded a w).mp htw with rfl | ⟨d, r, _, rfl⟩ | htw
    · rcases front_window hx htx with ⟨_, rfl⟩ | h
      · exact .inl rfl
      · exact absurd h.symm hb
    · rcases front_window hx htx with ⟨h, _⟩ | rfl
      · exact absurd h ha
      · exact .inl rfl
    · cases w with
      | nil => simp [windows] at htw
      | cons d w =>
        obtain rfl : w = [] := by simpa using hshort
        obtain rfl : t = [a, d, ' '] := by simpa [windows] using htw
        exact .inr ⟨rfl, end_window hx ha htx⟩
  · rintro (hhead | ⟨hlen, hsuffix⟩)
    · obtain rfl : b = a := by simpa using hhead
      exact ⟨[' ', ' ', b], by simp [mem_windows_padded], by simp [mem_windows_padded]⟩
    · obtain ⟨d, rfl⟩ : ∃ d, w = [d] := by simpa [length_eq_one_iff] using hlen
      refine ⟨[a, d, ' '], (mem_windows_padded _ _).mpr (.inr (.inr (by simp [windows]))), (mem_windows_padded _ _).mpr (.inr (.inr ?_))⟩
      obtain ⟨u, hu⟩ := hsuffix
      exact mem_windows.mpr ⟨rfl, u, [], by simp [← hu]⟩

lemma windows_subset_padded (h : t ∈ windows w) : t ∈ windows (padded w) := by
  obtain ⟨hlen, hinside⟩ := mem_windows.mp h
  exact mem_windows.mpr ⟨hlen, hinside.trans ⟨[' ', ' '], [' '], by simp [padded]⟩⟩

lemma interior_iff (hw : ∀ c ∈ w, al.isAlphanumeric c = true) (hne : w ≠ []) : t ∈ windows (padded w) ∧ ' ' ∉ t ↔ t ∈ windows w := by
  constructor
  · rintro ⟨h, hspace⟩
    obtain ⟨c, w, rfl⟩ := exists_cons_of_ne_nil hne
    rcases (mem_windows_padded c w).mp h with rfl | ⟨d, r, _, rfl⟩ | h
    · simp at hspace
    · simp at hspace
    · rcases windows_before_space h with ⟨a, b, rfl, _⟩ | h
      · simp at hspace
      · exact h
  · intro h
    exact ⟨windows_subset_padded h, fun hmem => no_space hw ((mem_windows.mp h).2.subset hmem)⟩

end

structure TrigramScalars (sc : Scale S) where
  toScalar : Str → S
  distinct : ∀ t t', t.length = 3 → t'.length = 3 → sc.near (toScalar t) (toScalar t') = true → t = t'

section

variable {ix : FieldIndex Str S F} {current : F → List Str} {ts : TrigramScalars sc} {q t : Str} {f : F} {s : Str}

lemma trigram_length (h : t ∈ extractTrigrams al s) : t.length = 3 := by
  obtain ⟨w, _, ht⟩ := mem_extractTrigrams.mp h
  exact windows_length ht

lemma Tracks.mem_hashesAt (h : Tracks sc ix current) (hconv : ix.converter = trigramConverter al ts.toScalar) (ht : t.length = 3) :
    f ∈ hashesAt sc ix t ↔ ∃ u ∈ current f, t ∈ extractTrigrams al u := by
  simp only [hashesAt, files, lookupByScalar, mem_toFinset, mem_map, mem_filter, h.mem_bucketEntries,
    hconv]
  constructor
  · rintro ⟨entry, ⟨⟨_, u, hu, token, htoken, hscalar⟩, hnear⟩, rfl⟩
    rw [← hscalar] at hnear
    obtain rfl := ts.distinct token t (trigram_length htoken) ht hnear
    exact ⟨u, hu, htoken⟩
  · rintro ⟨u, hu, htoken⟩
    exact ⟨⟨ts.toScalar t, f⟩, ⟨⟨rfl, u, hu, t, htoken, rfl⟩, sc.near_self _⟩, rfl⟩

lemma mem_foldl_union (hashes : Str → Finset F) (trigrams : List Str) (all : Finset F) :
    f ∈ trigrams.foldl (fun all trigram => all ∪ hashes trigram) all ↔ f ∈ all ∨ ∃ t ∈ trigrams, f ∈ hashes t := by
  induction trigrams generalizing all with
  | nil => simp
  | cons t trigrams ih => simp [ih, or_assoc]

lemma mem_foldl_inter (hashes : Str → Finset F) (trigrams : List Str) (candidates : Finset F) :
    f ∈ trigrams.foldl (fun candidates trigram => candidates ∩ hashes trigram) candidates ↔
      f ∈ candidates ∧ ∀ t ∈ trigrams, f ∈ hashes t := by
  induction trigrams generalizing candidates with
  | nil => simp
  | cons t trigrams ih => simp [ih, and_assoc]

def LongWord (al : Alphabet) (q : Str) : Prop := ∃ w ∈ wordsOf al (al.lower q), 3 ≤ w.length

def Touches (al : Alphabet) (q u : Str) : Prop :=
  ∃ w ∈ wordsOf al (al.lower q), ∃ x ∈ wordsOf al (al.lower u), x.head? = w.head? ∨ (w.length = 2 ∧ w <:+ x)

lemma mem_interior : t ∈ (extractTrigrams al q).filter (' ' ∉ ·) ↔ ∃ w ∈ wordsOf al (al.lower q), t ∈ windows w := by
  rw [mem_filter, mem_extractTrigrams]
  constructor
  · rintro ⟨⟨w, hw, ht⟩, hspace⟩
    obtain ⟨hne, hchars, _⟩ := word_spec hw
    exact ⟨w, hw, (interior_iff hchars hne).mp ⟨ht, by simpa using hspace⟩⟩
  · rintro ⟨w, hw, ht⟩
    obtain ⟨hne, hchars, _⟩ := word_spec hw
    obtain ⟨hpadded, hspace⟩ := (interior_iff hchars hne).mpr ht
    exact ⟨⟨w, hw, hpadded⟩, by simpa using hspace⟩

lemma interior_ne_nil_iff : (extractTrigrams al q).filter (' ' ∉ ·) ≠ [] ↔ LongWord al q := by
  constructor
  · intro hne
    obtain ⟨t, ht⟩ := exists_mem_of_ne_nil _ hne
    obtain ⟨w, hw, ht⟩ := mem_interior.mp ht
    obtain ⟨hlen, hinside⟩ := mem_windows.mp ht
    exact ⟨w, hw, hlen ▸ hinside.length_le⟩
  · rintro ⟨w, hw, hlen⟩
    refine ne_nil_of_mem (a := w.take 3) (mem_interior.mpr ⟨w, hw, mem_windows.mpr ⟨?_, (List.take_prefix 3 w).isInfix⟩⟩)
    simpa using hlen

variable (h : Tracks sc ix current) (hconv : ix.converter = trigramConverter al ts.toScalar)
include h hconv

lemma mem_containsCandidates_of_long (hlong : LongWord al q) (hs : s ∈ current f) (hcontains : al.lower q <:+: al.lower s) : f ∈ containsCandidates al sc ix q := by
  -- a trigram inside a word of the query is inside a word of the value
  have hfound : ∀ t ∈ (extractTrigrams al q).filter (' ' ∉ ·), f ∈ hashesAt sc ix t := by
    intro t ht
    obtain ⟨w, hw, ht⟩ := mem_interior.mp ht
    obtain ⟨hlen, hinside⟩ := mem_windows.mp ht
    obtain ⟨_, hchars, hword⟩ := word_spec hw
    have htne : t ≠ [] := by
      rintro rfl
      simp at hlen
    obtain ⟨x, hx, htx⟩ := exists_word ((hinside.trans hword).trans hcontains) (fun c hc => hchars c (hinside.subset hc)) htne
    exact (h.mem_hashesAt hconv hlen).mpr ⟨s, hs, mem_extractTrigrams.mpr ⟨x, hx, windows_subset_padded (mem_windows.mpr ⟨hlen, htx⟩)⟩⟩
  rw [containsCandidates]
  cases hinterior : (extractTrigrams al q).filter (' ' ∉ ·) with
  | nil => exact absurd hinterior (interior_ne_nil_iff.mpr hlong)
  | cons first rest =>
    rw [hinterior] at hfound
    exact (mem_foldl_inter _ rest _).mpr ⟨hfound first (by simp), fun t ht => hfound t (by simp [ht])⟩

lemma mem_containsCandidates_of_short (hshort : ¬ LongWord al q) :
    f ∈ containsCandidates al sc ix q ↔ ∃ u ∈ current f, Touches al q u := by
  have hnil : (extractTrigrams al q).filter (' ' ∉ ·) = [] := not_not.mp fun hne => hshort (interior_ne_nil_iff.mp hne)
  have hshare : ∀ w ∈ wordsOf al (al.lower q), ∀ u, ∀ x ∈ wordsOf al (al.lower u),
      ((∃ t ∈ windows (padded w), t ∈ windows (padded x)) ↔ x.head? = w.head? ∨ (w.length = 2 ∧ w <:+ x)) := by
    intro w hw u x hx
    obtain ⟨hwne, hwchars, _⟩ := word_spec hw
    obtain ⟨hxne, hxchars, _⟩ := word_spec hx
    refine share_iff (no_space hwchars) (no_space hxchars) hwne hxne ?_
    by_contra hlen
    exact hshort ⟨w, hw, by omega⟩
  rw [containsCandidates]
  simp only [hnil]
  rw [mem_foldl_union]
  constructor
  · rintro (hno | ⟨t, ht, hf⟩)
    · simp at hno
    · obtain ⟨u, hu, htu⟩ := (h.mem_hashesAt hconv (trigram_length ht)).mp hf
      obtain ⟨w, hw, htw⟩ := mem_extractTrigrams.mp ht
      obtain ⟨x, hx, htx⟩ := mem_extractTrigrams.mp htu
      exact ⟨u, hu, w, hw, x, hx, (hshare w hw u x hx).mp ⟨t, htw, htx⟩⟩
  · rintro ⟨u, hu, w, hw, x, hx, htouch⟩
    obtain ⟨t, htw, htx⟩ := (hshare w hw u x hx).mpr htouch
    have ht : t ∈ extractTrigrams al q := mem_extractTrigrams.mpr ⟨w, hw, htw⟩
    exact .inr ⟨t, ht, (h.mem_hashesAt hconv (trigram_length ht)).mpr ⟨u, hu, mem_extractTrigrams.mpr ⟨x, hx, htx⟩⟩⟩

end

section

variable (al) (ts : TrigramScalars sc) (hasRecord : F → Bool) (fallback : F → Option Str) (fieldName : Str) (ops : List (IndexOp Str F)) (q : Str)

def Matches (f : F) : Prop :=
  hasRecord f = true ∧ ∃ s, (assigned ops f).getLast? = some s ∧ al.lower q <:+: al.lower s

theorem executeContains_complete_iff :
    (∀ f, Matches al hasRecord ops q f →
      f ∈ executeContains al sc hasRecord fallback (runOps sc (new sc fieldName (trigramConverter al ts.toScalar)) ops) q) ↔
    ∀ f, Matches al hasRecord ops q f → LongWord al q ∨ ∃ u ∈ assigned ops f, Touches al q u := by
  have h := tracks_runOps sc fieldName (trigramConverter al ts.toScalar) ops
  have hconv := runOps_converter sc (new sc fieldName (trigramConverter al ts.toScalar)) ops
  refine forall_congr' fun f => imp_congr_right fun hmatch => ?_
  obtain ⟨hrecord, s, hs, hcontains⟩ := hmatch
  have hchecked : f ∈ executeContains al sc hasRecord fallback (runOps sc (new sc fieldName (trigramConverter al ts.toScalar)) ops) q ↔
      f ∈ containsCandidates al sc (runOps sc (new sc fieldName (trigramConverter al ts.toScalar)) ops) q := by
    simp [executeContains, hrecord, h.values, hs, containsScore, hcontains]
  rw [hchecked]
  by_cases hlong : LongWord al q
  · exact iff_of_true (mem_containsCandidates_of_long h hconv hlong (mem_of_getLast? hs) hcontains) (.inl hlong)
  · rw [mem_containsCandidates_of_short h hconv hlong]
    simp [hlong]

end

def asciiAlphabet : Alphabet where
  lower := List.map Char.toLower
  isAlphanumeric := Char.isAlphanum
  space := rfl

def natScalars : TrigramScalars natScale where
  toScalar t := t.foldl (fun n c => n * 2 ^ 32 + c.toNat) 0
  distinct t t' ht ht' h := by
    obtain ⟨a, b, c, rfl⟩ := length_eq_three.mp ht
    obtain ⟨a', b', c', rfl⟩ := length_eq_three.mp ht'
    have heq := of_decide_eq_true h
    have hsmall : ∀ d : Char, d.toNat < 2 ^ 32 := fun d => d.val.toNat_lt
    have ha := hsmall a
    have hb := hsmall b
    have hc := hsmall c
    have ha' := hsmall a'
    have hb' := hsmall b'
    have hc' := hsmall c'
    simp only [foldl_cons, foldl_nil] at heq
    have h1 : a.toNat = a'.toNat := by omega
    have h2 : b.toNat = b'.toNat := by omega
    have h3 : c.toNat = c'.toNat := by omega
    rw [Char.toNat_inj.mp h1, Char.toNat_inj.mp h2, Char.toNat_inj.mp h3]

set_option maxRecDepth 20000 in
theorem executeContains_misses :
    Matches asciiAlphabet (fun _ => true) [IndexOp.update 0 ["abc".toList]] "b".toList 0 ∧
      0 ∉ executeContains asciiAlphabet natScale (fun _ => true) (fun _ => none)
        (runOps natScale (new natScale [] (trigramConverter asciiAlphabet natScalars.toScalar)) [IndexOp.update 0 ["abc".toList]]) "b".toList := by
  constructor
  · exact ⟨rfl, "abc".toList, by decide, by decide⟩
  · decide

end AeorDb.Query
