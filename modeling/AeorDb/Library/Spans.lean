import Mathlib

/-! Spans of addresses: when two are apart, the gaps between them, and the union of touching ones. -/

namespace AeorDb.Library

open List

structure Span where
  start : ℕ
  size : ℕ
  deriving DecidableEq

namespace Span

def stop (a : Span) : ℕ := a.start + a.size

def Apart (a b : Span) : Prop := a.stop ≤ b.start ∨ b.stop ≤ a.start

instance (a b : Span) : Decidable (a.Apart b) := inferInstanceAs (Decidable (_ ∨ _))

variable {a b : Span}

lemma Apart.symm (h : a.Apart b) : b.Apart a := Or.symm h

def places (a : Span) : Set ℕ := Set.Ico a.start a.stop

lemma Apart.disjoint {a b : Span} (h : a.Apart b) : Disjoint a.places b.places := by
  rw [Set.disjoint_left]
  rintro i ⟨hlo, hhi⟩ ⟨hlo', hhi'⟩
  rcases h with h | h <;> omega

lemma not_disjoint_of_eq (h : a = b) (hpos : 0 < a.size) : ¬ Disjoint a.places b.places := by
  subst h
  rw [disjoint_self]
  exact Set.nonempty_iff_ne_empty.mp ⟨a.start, le_rfl, Nat.lt_add_of_pos_right hpos⟩

def shift (a : Span) (d : ℕ) : Span := ⟨a.start + d, a.size⟩

lemma Apart.shift (h : a.Apart b) (d : ℕ) : (a.shift d).Apart (b.shift d) := by
  simp only [Apart, stop, Span.shift] at *
  omega

lemma Apart.of_le {a b c : Span} (h : a.Apart b) (hlo : a.start ≤ c.start) (hhi : c.stop ≤ a.stop) : c.Apart b := by
  simp only [Apart, stop] at *
  omega

def Within (a : Span) (lo hi : ℕ) : Prop := lo ≤ a.start ∧ a.stop ≤ hi

section

def gaps (limit : ℕ) : ℕ → List Span → List Span
  | _, [] => []
  | cursor, s :: spans =>
    let rest := gaps limit (max s.stop cursor) spans
    if cursor < s.start then ⟨cursor, min (s.start - cursor) limit⟩ :: rest else rest

variable {limit cursor : ℕ} {spans : List Span} {g : Span}

lemma le_start_of_mem_gaps (h : g ∈ gaps limit cursor spans) : cursor ≤ g.start := by
  induction spans generalizing cursor with
  | nil => cases h
  | cons s spans ih =>
    simp only [gaps] at h
    split_ifs at h
    · rcases mem_cons.mp h with rfl | h
      · exact le_rfl
      · exact (le_max_right _ _).trans (ih h)
    · exact (le_max_right _ _).trans (ih h)

lemma gaps_apart (hsorted : spans.Pairwise fun a b => a.start ≤ b.start) (hg : g ∈ gaps limit cursor spans) {s : Span}
    (hs : s ∈ spans) : g.Apart s := by
  induction spans generalizing cursor with
  | nil => cases hs
  | cons t spans ih =>
    obtain ⟨hle, hsorted⟩ := pairwise_cons.mp hsorted
    -- a later gap starts behind the first span
    have hlater : g ∈ gaps limit (max t.stop cursor) spans → g.Apart s := by
      intro hg
      rcases mem_cons.mp hs with rfl | hs
      · exact Or.inr ((le_max_left _ _).trans (le_start_of_mem_gaps hg))
      · exact ih hsorted hg hs
    simp only [gaps] at hg
    split_ifs at hg with hlt
    · rcases mem_cons.mp hg with rfl | hg
      · have hstart : t.start ≤ s.start := by
          rcases mem_cons.mp hs with rfl | hs
          · exact le_rfl
          · exact hle s hs
        exact Or.inl (by simp only [stop]; omega)
      · exact hlater hg
    · exact hlater hg

lemma gaps_pairwise (limit cursor : ℕ) (spans : List Span) : (gaps limit cursor spans).Pairwise Apart := by
  induction spans generalizing cursor with
  | nil => exact .nil
  | cons s spans ih =>
    simp only [gaps]
    split_ifs with hlt
    · refine pairwise_cons.mpr ⟨fun g hg => Or.inl ?_, ih _⟩
      have hstart := le_start_of_mem_gaps hg
      simp only [stop] at *
      omega
    · exact ih _

lemma gaps_stop_le {hi : ℕ} (hhi : ∀ s ∈ spans, s.start ≤ hi) (hg : g ∈ gaps limit cursor spans) : g.stop ≤ hi := by
  induction spans generalizing cursor with
  | nil => cases hg
  | cons s spans ih =>
    obtain ⟨hs, hspans⟩ := forall_mem_cons.mp hhi
    simp only [gaps] at hg
    split_ifs at hg with hlt
    · rcases mem_cons.mp hg with rfl | hg
      · simp only [stop]
        omega
      · exact ih hspans hg
    · exact ih hspans hg

end

/-- The spans of a list that is sorted by their starts, with overlapping and touching ones joined. The first
argument is the span that the next one is compared with. -/
def mergeInto (a : Span) : List Span → List Span
  | [] => [a]
  | b :: spans => if b.start ≤ a.stop then mergeInto ⟨a.start, max a.stop b.stop - a.start⟩ spans else a :: mergeInto b spans

def merged : List Span → List Span
  | [] => []
  | a :: spans => mergeInto a spans

def meets (spans : List Span) (lo hi : ℕ) : Bool :=
  match spans.find? fun a => lo < a.stop with
  | some a => a.start < hi
  | none => false

variable {a b s : Span} {spans : List Span} {i lo hi : ℕ}

lemma sorted_joined (hsorted : (a :: b :: spans).Pairwise fun a b => a.start ≤ b.start) (size : ℕ) :
    (⟨a.start, size⟩ :: spans : List Span).Pairwise fun a b => a.start ≤ b.start := by
  obtain ⟨hle, hrest⟩ := pairwise_cons.mp hsorted
  exact pairwise_cons.mpr ⟨fun c hc => hle c (mem_cons_of_mem _ hc), (pairwise_cons.mp hrest).2⟩

lemma mergeInto_apart (hsorted : (a :: spans).Pairwise fun a b => a.start ≤ b.start) (hpos : ∀ s ∈ a :: spans, 0 < s.size) :
    (mergeInto a spans).Pairwise (fun a b => a.stop < b.start) ∧ ∀ m ∈ mergeInto a spans, a.start ≤ m.start ∧ 0 < m.size := by
  induction spans generalizing a with
  | nil => simpa [mergeInto] using hpos
  | cons b spans ih =>
    obtain ⟨hle, hrest⟩ := pairwise_cons.mp hsorted
    obtain ⟨ha, hpos⟩ := forall_mem_cons.mp hpos
    rw [mergeInto]
    split_ifs with hjoin
    · refine ih (sorted_joined hsorted _) (forall_mem_cons.mpr ⟨?_, fun s hs => hpos s (mem_cons_of_mem _ hs)⟩)
      simp only [stop]
      omega
    · obtain ⟨hapart, hfrom⟩ := ih hrest hpos
      have hab := hle b mem_cons_self
      refine ⟨pairwise_cons.mpr ⟨fun m hm => ?_, hapart⟩, forall_mem_cons.mpr ⟨⟨le_rfl, ha⟩, fun m hm => ?_⟩⟩
      · exact (Nat.lt_of_not_le hjoin).trans_le (hfrom m hm).1
      · exact ⟨hab.trans (hfrom m hm).1, (hfrom m hm).2⟩

lemma mem_places_mergeInto (hsorted : (a :: spans).Pairwise fun a b => a.start ≤ b.start) :
    (∃ m ∈ mergeInto a spans, i ∈ m.places) ↔ ∃ s ∈ a :: spans, i ∈ s.places := by
  induction spans generalizing a with
  | nil => rw [mergeInto]
  | cons b spans ih =>
    obtain ⟨hle, hrest⟩ := pairwise_cons.mp hsorted
    rw [mergeInto]
    split_ifs with hjoin
    · have hab := hle b mem_cons_self
      -- the joined span stands for the two it was made of
      have hjoined : i ∈ (⟨a.start, max a.stop b.stop - a.start⟩ : Span).places ↔ i ∈ a.places ∨ i ∈ b.places := by
        simp only [places, Set.mem_Ico, stop] at *
        omega
      rw [ih (sorted_joined hsorted _)]
      simp only [exists_mem_cons_iff, hjoined, or_assoc]
    · simp only [exists_mem_cons_iff, ih hrest]

lemma merged_spec (hsorted : spans.Pairwise fun a b => a.start ≤ b.start) (hpos : ∀ s ∈ spans, 0 < s.size) :
    (merged spans).Pairwise (fun a b => a.stop < b.start) ∧ (∀ m ∈ merged spans, 0 < m.size) ∧
      ∀ i, (∃ m ∈ merged spans, i ∈ m.places) ↔ ∃ s ∈ spans, i ∈ s.places := by
  cases spans with
  | nil => simp [merged]
  | cons a spans =>
    obtain ⟨hapart, hfrom⟩ := mergeInto_apart hsorted hpos
    exact ⟨hapart, fun m hm => (hfrom m hm).2, fun _ => mem_places_mergeInto hsorted⟩

lemma meets_iff (hsorted : spans.Pairwise fun a b => a.start ≤ b.start) :
    meets spans lo hi = true ↔ ∃ s ∈ spans, lo < s.stop ∧ s.start < hi := by
  induction spans with
  | nil => simp [meets]
  | cons a spans ih =>
    obtain ⟨hle, hrest⟩ := pairwise_cons.mp hsorted
    rw [exists_mem_cons_iff, ← ih hrest, meets, find?_cons]
    by_cases hfirst : lo < a.stop
    · simp only [hfirst, decide_true, decide_eq_true_eq, true_and]
      refine ⟨.inl, ?_⟩
      rintro (hhi | hmeets)
      · exact hhi
      · obtain ⟨s, hs, -, hhi⟩ := (ih hrest).mp hmeets
        exact (hle s hs).trans_lt hhi
    · simp [hfirst, meets]

lemma inter_nonempty_iff (hpos : 0 < s.size) (h : lo < hi) : (s.places ∩ Set.Ico lo hi).Nonempty ↔ lo < s.stop ∧ s.start < hi := by
  constructor
  · rintro ⟨i, ⟨hstart, hstop⟩, hlo, hhi⟩
    exact ⟨hlo.trans_lt hstop, hstart.trans_lt hhi⟩
  · rintro ⟨hlo, hhi⟩
    exact ⟨max lo s.start, ⟨le_max_right _ _, max_lt hlo (Nat.lt_add_of_pos_right hpos)⟩, le_max_left _ _, max_lt h hhi⟩

lemma meets_merged_iff (hsorted : spans.Pairwise fun a b => a.start ≤ b.start) (hpos : ∀ s ∈ spans, 0 < s.size) (h : lo < hi) :
    meets (merged spans) lo hi = true ↔ ∃ s ∈ spans, (s.places ∩ Set.Ico lo hi).Nonempty := by
  obtain ⟨hapart, hsizes, hplaces⟩ := merged_spec hsorted hpos
  rw [meets_iff (hapart.imp fun h => (Nat.le_add_right _ _).trans h.le)]
  have hinter (m) (hm : m ∈ merged spans) := inter_nonempty_iff (hsizes m hm) h
  constructor
  · rintro ⟨m, hm, hmeet⟩
    obtain ⟨i, hi, hin⟩ := (hinter m hm).mpr hmeet
    obtain ⟨s, hs, hi⟩ := (hplaces i).mp ⟨m, hm, hi⟩
    exact ⟨s, hs, i, hi, hin⟩
  · rintro ⟨s, hs, i, hi, hin⟩
    obtain ⟨m, hm, hi⟩ := (hplaces i).mpr ⟨s, hs, hi⟩
    exact ⟨m, hm, (hinter m hm).mp ⟨i, hi, hin⟩⟩

end Span

end AeorDb.Library
