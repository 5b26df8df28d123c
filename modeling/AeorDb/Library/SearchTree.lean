import AeorDb.Library.SortedList

/-! Search trees whose nodes live in a store and refer to each other by address. The store is given by two
relations: which addresses hold a leaf, and which hold an internal node. -/

namespace AeorDb.Library.SearchTree

open SortedList List

variable {A E K : Type} [LinearOrder K]

inductive Chain (key : E → K) (D : A → List E → Prop) : List K → List A → List E → Prop where
  | single {c : A} {es : List E} : D c es → es ≠ [] → Chain key D [] [c] es
  | cons {k : K} {ks : List K} {c : A} {cs : List A} {es rest : List E} : D c es → es ≠ [] →
      (∀ x ∈ es, key x < k) → (∀ x ∈ rest, k ≤ key x) → Chain key D ks cs rest →
      Chain key D (k :: ks) (c :: cs) (es ++ rest)

def Denotes (key : E → K) (leaf : A → List E → Prop) (internal : A → List K → List A → Prop) :
    ℕ → A → List E → Prop
  | 0, a, es => leaf a es ∧ Sorted key es
  | n + 1, a, es => (leaf a es ∧ Sorted key es) ∨
      ∃ ks cs, internal a ks cs ∧ Chain key (Denotes key leaf internal n) ks cs es

variable {key : E → K} {D D' : A → List E → Prop} {cs : List A} {es : List E} {ks : List K}

lemma Chain.mono (hD : ∀ a ∈ cs, ∀ es, D a es → D' a es) (h : Chain key D ks cs es) : Chain key D' ks cs es := by
  induction h with
  | single hc hne => exact .single (hD _ (by simp) _ hc) hne
  | cons hc hne hl hr _ ih =>
    exact .cons (hD _ (by simp) _ hc) hne hl hr (ih fun a ha => hD a (mem_cons_of_mem _ ha))

lemma Chain.length_eq (h : Chain key D ks cs es) : cs.length = ks.length + 1 := by
  induction h with
  | single => rfl
  | cons _ _ _ _ _ ih => simp [ih]

lemma Chain.exists_of_mem {c : A} (h : Chain key D ks cs es) (hc : c ∈ cs) : ∃ es, D c es := by
  induction h with
  | @single c' es hc' _ => exact ⟨es, by rwa [mem_singleton.mp hc]⟩
  | @cons k ks c' cs es rest hc' _ _ _ _ ih =>
    rcases mem_cons.mp hc with rfl | hc
    · exact ⟨es, hc'⟩
    · exact ih hc

lemma Chain.parts (h : Chain key D ks cs es) : ∃ parts, List.Forall₂ D cs parts ∧ es = parts.flatten := by
  induction h with
  | @single c es hc _ => exact ⟨[es], .cons hc .nil, by simp⟩
  | @cons k ks c cs es rest hc _ _ _ _ ih =>
    obtain ⟨parts, hp, rfl⟩ := ih
    exact ⟨es :: parts, .cons hc hp, rfl⟩

lemma Chain.ne_nil (h : Chain key D ks cs es) : es ≠ [] := by
  cases h with
  | single _ hne => exact hne
  | cons _ hne => simp [hne]

lemma Chain.sorted (hD : ∀ a es, D a es → Sorted key es) (h : Chain key D ks cs es) : Sorted key es := by
  induction h with
  | single hc _ => exact hD _ _ hc
  | cons hc _ hl hr _ ih =>
    exact (Sorted.append_iff _ _).mpr ⟨hD _ _ hc, ih, fun x hx y hy => (hl x hx).trans_le (hr y hy)⟩

lemma Chain.append {k : K} {ks ks' : List K} {cs cs' : List A} {es es' : List E} (h : Chain key D ks cs es)
    (hl : ∀ x ∈ es, key x < k) (hr : ∀ x ∈ es', k ≤ key x) (h' : Chain key D ks' cs' es') :
    Chain key D (ks ++ k :: ks') (cs ++ cs') (es ++ es') := by
  induction h with
  | single hc hne => exact .cons hc hne hl hr h'
  | @cons j ks c cs es rest hc hne hl' hr' hrest ih =>
    have hj : ∀ x ∈ rest ++ es', j ≤ key x := by
      intro x hx
      rcases mem_append.mp hx with hx | hx
      · exact hr' x hx
      · obtain ⟨y, hy⟩ := exists_mem_of_ne_nil rest hrest.ne_nil
        exact (hr' y hy).trans ((hl y (mem_append_right _ hy)).le.trans (hr x hx))
    rw [append_assoc]
    exact .cons hc hne hl' hj (ih fun x hx => hl x (mem_append_right _ hx))

lemma Chain.lt_keys {k : K} (h : Chain key D ks cs es) (hk : ∀ x ∈ es, k ≤ key x) : ∀ j ∈ ks, k < j := by
  induction h with
  | single => simp
  | @cons j ks c cs es rest _ hne hl _ _ ih =>
    intro i hi
    rcases mem_cons.mp hi with rfl | hi
    · obtain ⟨y, hy⟩ := exists_mem_of_ne_nil es hne
      exact (hk y (mem_append_left _ hy)).trans_lt (hl y hy)
    · exact ih (fun x hx => hk x (mem_append_right _ hx)) i hi

lemma Chain.split {ks₁ ks₂ : List K} {k : K} (h : Chain key D (ks₁ ++ k :: ks₂) cs es) :
    ∃ es₁ es₂, es = es₁ ++ es₂ ∧ Chain key D ks₁ (cs.take (ks₁.length + 1)) es₁ ∧
      Chain key D ks₂ (cs.drop (ks₁.length + 1)) es₂ ∧ (∀ x ∈ es₁, key x < k) ∧ ∀ x ∈ es₂, k ≤ key x := by
  induction ks₁ generalizing cs es with
  | nil =>
    cases h with
    | @cons _ _ c cs es rest hc hne hl hr hrest => exact ⟨es, rest, rfl, .single hc hne, by simpa using hrest, hl, hr⟩
  | cons j ks₁ ih =>
    cases h with
    | @cons _ _ c cs es rest hc hne hl hr hrest =>
      have hjk : j < k := hrest.lt_keys hr k (by simp)
      obtain ⟨es₁, es₂, rfl, h₁, h₂, hl₁, hr₂⟩ := ih hrest
      refine ⟨es ++ es₁, es₂, by simp, ?_, by simpa using h₂, ?_, hr₂⟩
      · exact .cons hc hne hl (fun x hx => hr x (mem_append_left _ hx)) h₁
      · intro x hx
        rcases mem_append.mp hx with hx | hx
        · exact (hl x hx).trans hjk
        · exact hl₁ x hx

lemma Chain.keys_sorted (h : Chain key D ks cs es) : Sorted id ks := by
  induction h with
  | single => exact Sorted.nil
  | cons _ _ _ hr hrest ih => exact pairwise_cons.mpr ⟨hrest.lt_keys hr, ih⟩

structure Focus (key : E → K) (D : A → List E → Prop) (x : K) (ks₁ ks₂ : List K) (cs₁ : List A) (c : A)
    (cs₂ : List A) (es₁ em es₂ : List E) : Prop where
  length_left : cs₁.length = ks₁.length
  left_nil : ks₁ = [] → es₁ = []
  right_nil : ks₂ = [] → cs₂ = [] ∧ es₂ = []
  here : D c em
  ne_nil : em ≠ []
  keys_le : ∀ k ∈ ks₁, k ≤ x
  lt_keys : ∀ k ∈ ks₂, x < k
  left_lt : ∀ y ∈ es₁, key y < x
  lt_right : ∀ y ∈ es₂, x < key y
  within : ∀ y ∈ em, (∀ k ∈ ks₁, k ≤ key y) ∧ ∀ k ∈ ks₂, key y < k
  replace : ∀ {D' : A → List E → Prop} {ks' : List K} {cs' : List A} {em' : List E},
    (∀ a ∈ cs₁ ++ cs₂, ∀ es, D a es → D' a es) → Chain key D' ks' cs' em' →
    (∀ y ∈ em', (∀ k ∈ ks₁, k ≤ key y) ∧ ∀ k ∈ ks₂, key y < k) →
    Chain key D' (ks₁ ++ ks' ++ ks₂) (cs₁ ++ cs' ++ cs₂) (es₁ ++ em' ++ es₂)
  drop_right : ∀ k ks, ks₂ = k :: ks → Chain key D (ks₁ ++ ks) (cs₁ ++ cs₂) (es₁ ++ es₂)
  drop_left : ks₂ = [] → ks₁ ≠ [] → Chain key D ks₁.dropLast cs₁ es₁

variable {cs₁ cs₂ : List A} {ks₁ ks₂ : List K}

lemma Focus.cons {x k : K} {c c₀ : A} {es es₁ em es₂ : List E}
    (hf : Focus key D x ks₁ ks₂ cs₁ c cs₂ es₁ em es₂) (hc : D c₀ es) (hne : es ≠ [])
    (hl : ∀ y ∈ es, key y < k) (hr : ∀ y ∈ es₁ ++ em ++ es₂, k ≤ key y) (hk : k ≤ x) :
    Focus key D x (k :: ks₁) ks₂ (c₀ :: cs₁) c cs₂ (es ++ es₁) em es₂ := by
  have hr₁ : ∀ y ∈ es₁, k ≤ key y := fun y hy => hr y (by simp [hy])
  have hrm : ∀ y ∈ em, k ≤ key y := fun y hy => hr y (by simp [hy])
  have hr₂ : ∀ y ∈ es₂, k ≤ key y := fun y hy => hr y (by simp [hy])
  refine ⟨by simp [hf.length_left], by simp, hf.right_nil, hf.here, hf.ne_nil, ?_, hf.lt_keys, ?_,
    hf.lt_right, ?_, ?_, ?_, ?_⟩
  · simpa [hk] using hf.keys_le
  · intro y hy
    rcases mem_append.mp hy with hy | hy
    · exact (hl y hy).trans_le hk
    · exact hf.left_lt y hy
  · intro y hy
    refine ⟨fun j hj => ?_, (hf.within y hy).2⟩
    rcases mem_cons.mp hj with rfl | hj
    · exact hrm y hy
    · exact (hf.within y hy).1 j hj
  · intro D' ks' cs' em' hD hchain hb
    have hin := hf.replace (fun a ha => hD a (mem_cons_of_mem _ ha)) hchain fun y hy =>
      ⟨fun j hj => (hb y hy).1 j (mem_cons_of_mem _ hj), (hb y hy).2⟩
    have hbound : ∀ y ∈ es₁ ++ em' ++ es₂, k ≤ key y := by
      intro y hy
      rcases mem_append.mp hy with hy | hy
      · rcases mem_append.mp hy with hy | hy
        · exact hr₁ y hy
        · exact (hb y hy).1 k (mem_cons_self ..)
      · exact hr₂ y hy
    simpa using Chain.cons (hD _ (mem_cons_self ..) _ hc) hne hl hbound hin
  · intro j ks hj
    have hbound : ∀ y ∈ es₁ ++ es₂, k ≤ key y := by
      intro y hy
      exact (mem_append.mp hy).elim (hr₁ y) (hr₂ y)
    simpa using Chain.cons hc hne hl hbound (hf.drop_right j ks hj)
  · intro hks₂ _
    by_cases hks₁ : ks₁ = []
    · subst hks₁
      have hcs : cs₁ = [] := eq_nil_of_length_eq_zero hf.length_left
      simpa [hcs, hf.left_nil rfl] using Chain.single hc hne
    · obtain ⟨j, ks, rfl⟩ := exists_cons_of_ne_nil hks₁
      simpa using Chain.cons hc hne hl hr₁ (hf.drop_left hks₂ hks₁)

lemma Chain.focus (h : Chain key D ks cs es) (x : K) :
    ∃ ks₁ ks₂ cs₁ c cs₂ es₁ em es₂, ks = ks₁ ++ ks₂ ∧ cs = cs₁ ++ c :: cs₂ ∧ es = es₁ ++ em ++ es₂ ∧
      Focus key D x ks₁ ks₂ cs₁ c cs₂ es₁ em es₂ := by
  induction h with
  | @single c es hc hne =>
    refine ⟨[], [], [], c, [], [], es, [], rfl, rfl, by simp, ?_⟩
    refine ⟨rfl, by simp, by simp, hc, hne, by simp, by simp, by simp, by simp, by simp, ?_, by simp, by simp⟩
    intro D' ks' cs' em' _ hchain _
    simpa using hchain
  | @cons k ks c cs es rest hc hne hl hr hrest ih =>
    by_cases hk : k ≤ x
    · obtain ⟨ks₁, ks₂, cs₁, c', cs₂, es₁, em, es₂, rfl, rfl, rfl, hf⟩ := ih
      exact ⟨k :: ks₁, ks₂, c :: cs₁, c', cs₂, es ++ es₁, em, es₂, rfl, rfl, by simp, hf.cons hc hne hl hr hk⟩
    · have hxk : x < k := not_le.mp hk
      have hkeys : ∀ j ∈ k :: ks, k ≤ j := by
        intro j hj
        rcases mem_cons.mp hj with rfl | hj
        · exact le_rfl
        · exact (hrest.lt_keys hr j hj).le
      refine ⟨[], k :: ks, [], c, cs, [], es, rest, rfl, rfl, by simp, ?_⟩
      refine ⟨rfl, by simp, by simp, hc, hne, by simp, fun j hj => hxk.trans_le (hkeys j hj), by simp,
        fun y hy => hxk.trans_le (hr y hy), fun y hy => ⟨by simp, fun j hj => (hl y hy).trans_le (hkeys j hj)⟩,
        ?_, ?_, by simp⟩
      · intro D' ks' cs' em' hD hchain hb
        exact hchain.append (fun y hy => (hb y hy).2 k (mem_cons_self ..)) hr
          (hrest.mono fun a ha => hD a (by simpa using ha))
      · rintro j js ⟨⟩
        simpa using hrest

def childIndex (ks : List K) (x : K) : ℕ :=
  match binarySearch ks x with
  | .ok i => i + 1
  | .error i => i

lemma Focus.childIndex_eq {x : K} {c : A} {es₁ em es₂ : List E}
    (hf : Focus key D x ks₁ ks₂ cs₁ c cs₂ es₁ em es₂) (hs : Sorted id (ks₁ ++ ks₂)) : childIndex (ks₁ ++ ks₂) x = ks₁.length := by
  have hcount : (ks₁ ++ ks₂).countP (· ≤ x) = ks₁.length := by
    rw [countP_append, countP_eq_length.mpr fun k hk => by simpa using hf.keys_le k hk,
      countP_eq_zero.mpr fun k hk => by simpa using hf.lt_keys k hk, Nat.add_zero]
  obtain ⟨xs, ys, hxs, hys, h | ⟨b, hb, h⟩⟩ := hs.split x
  · have hsearch : binarySearch (xs ++ ys) x = .error xs.length := by
      simpa using @binarySearch_missing K K _ id xs ys x hxs hys
    rw [childIndex, h, hsearch]
    rw [h, countP_append, countP_eq_length.mpr fun k hk => by simpa using (hxs k hk).le,
      countP_eq_zero.mpr fun k hk => by simpa using hys k hk] at hcount
    simpa using hcount
  · have hsearch : binarySearch (xs ++ b :: ys) x = .ok xs.length := by
      simpa using @binarySearch_found K K _ id xs ys b x hxs hb hys
    rw [childIndex, h, hsearch]
    rw [h, countP_append, countP_cons_of_pos (by simpa using hb.le),
      countP_eq_length.mpr fun k hk => by simpa using (hxs k hk).le,
      countP_eq_zero.mpr fun k hk => by simpa using hys k hk] at hcount
    simpa using hcount

variable {leaf leaf' : A → List E → Prop} {internal internal' : A → List K → List A → Prop}

lemma Denotes.mono (hl : ∀ a es, leaf a es → leaf' a es) (hi : ∀ a ks cs, internal a ks cs → internal' a ks cs) (n : ℕ) (a : A)
    (es : List E) (h : Denotes key leaf internal n a es) : Denotes key leaf' internal' n a es := by
  induction n generalizing a es with
  | zero => exact ⟨hl a es h.1, h.2⟩
  | succ n ih =>
    rcases h with h | ⟨ks, cs, hnode, hchain⟩
    · exact Or.inl ⟨hl a es h.1, h.2⟩
    · exact Or.inr ⟨ks, cs, hi a ks cs hnode, hchain.mono fun c _ => ih c⟩

lemma Denotes.succ (n : ℕ) (a : A) (es : List E) (h : Denotes key leaf internal n a es) : Denotes key leaf internal (n + 1) a es := by
  induction n generalizing a es with
  | zero => exact Or.inl h
  | succ n ih =>
    rcases h with h | ⟨ks, cs, hnode, hchain⟩
    · exact Or.inl h
    · exact Or.inr ⟨ks, cs, hnode, hchain.mono fun c _ => ih c⟩

variable {a : A}

lemma Denotes.le {n m : ℕ} (h : Denotes key leaf internal n a es) (hnm : n ≤ m) :
    Denotes key leaf internal m a es := by
  induction m, hnm using Nat.le_induction with
  | base => exact h
  | succ m _ ih => exact ih.succ

lemma Denotes.sorted (n : ℕ) (a : A) (es : List E) (h : Denotes key leaf internal n a es) : Sorted key es := by
  induction n generalizing a es with
  | zero => exact h.2
  | succ n ih =>
    rcases h with h | ⟨ks, cs, _, hchain⟩
    · exact h.2
    · exact hchain.sorted ih

lemma Chain.det {ks : List K} {cs : List A} {es es' : List E} (hD : ∀ a es es', D a es → D' a es' → es = es')
    (h : Chain key D ks cs es) (h' : Chain key D' ks cs es') : es = es' := by
  induction h generalizing es' with
  | single hc _ =>
    cases h' with
    | single hc' _ => exact hD _ _ _ hc hc'
  | cons hc _ _ _ _ ih =>
    cases h' with
    | cons hc' _ _ _ hrest' => rw [hD _ _ _ hc hc', ih hrest']

structure Functional (leaf : A → List E → Prop) (internal : A → List K → List A → Prop) : Prop where
  leaf_eq : ∀ a es es', leaf a es → leaf a es' → es = es'
  internal_eq : ∀ a ks cs ks' cs', internal a ks cs → internal a ks' cs' → ks = ks' ∧ cs = cs'
  disjoint : ∀ a es ks cs, leaf a es → ¬ internal a ks cs

lemma Denotes.det (hf : Functional leaf internal) (n : ℕ) (a : A) (es es' : List E)
    (h : Denotes key leaf internal n a es) (h' : Denotes key leaf internal n a es') : es = es' := by
  induction n generalizing a es es' with
  | zero => exact hf.leaf_eq a es es' h.1 h'.1
  | succ n ih =>
    rcases h with ⟨hl, _⟩ | ⟨ks, cs, hi, hchain⟩ <;> rcases h' with ⟨hl', _⟩ | ⟨ks', cs', hi', hchain'⟩
    · exact hf.leaf_eq a es es' hl hl'
    · exact absurd hi' (hf.disjoint a es ks' cs' hl)
    · exact absurd hi (hf.disjoint a es' ks cs hl')
    · obtain ⟨rfl, rfl⟩ := hf.internal_eq a ks cs ks' cs' hi hi'
      exact hchain.det ih hchain'

def Ranked (key : E → K) (leaf : A → List E → Prop) (internal : A → List K → List A → Prop) (n : ℕ) (a : A) : Prop :=
  (∃ es, Denotes key leaf internal n a es) ∧ ∀ m < n, ¬ ∃ es, Denotes key leaf internal m a es

lemma exists_ranked {n : ℕ} (h : Denotes key leaf internal n a es) : ∃ m ≤ n, Ranked key leaf internal m a := by
  classical
  have hex : ∃ m, ∃ es, Denotes key leaf internal m a es := ⟨n, es, h⟩
  exact ⟨Nat.find hex, Nat.find_min' hex ⟨es, h⟩, Nat.find_spec hex, fun m hm => Nat.find_min hex hm⟩

lemma Ranked.pred (hf : Functional leaf internal) (n : ℕ) (a : A) (h : Ranked key leaf internal (n + 1) a) :
    ∃ c, Ranked key leaf internal n c := by
  obtain ⟨⟨es, hl | ⟨ks, cs, hi, hchain⟩⟩, hmin⟩ := h
  · exact absurd ⟨es, (show Denotes key leaf internal 0 a es from hl)⟩ (hmin 0 (Nat.succ_pos n))
  · by_contra hno
    push Not at hno
    cases n with
    | zero =>
      obtain ⟨c, hc⟩ : ∃ c, c ∈ cs := exists_mem_of_length_pos (by rw [hchain.length_eq]; omega)
      have hden : ∃ es, Denotes key leaf internal 0 c es := hchain.exists_of_mem hc
      exact hno c ⟨hden, by simp⟩
    | succ n =>
      -- every child has a smaller height, so `a` has one too
      refine hmin (n + 1) (Nat.lt_succ_self _) ⟨es, Or.inr ⟨ks, cs, hi, hchain.mono fun c _ ec hc => ?_⟩⟩
      obtain ⟨m, hm, hrank⟩ := exists_ranked hc
      have hlt : m < n + 1 := lt_of_le_of_ne hm fun heq => hno c (heq ▸ hrank)
      obtain ⟨ec', hc'⟩ := hrank.1
      have heq : ec = ec' := Denotes.det hf (n + 1) c ec ec' hc (hc'.le hm)
      exact heq ▸ hc'.le (Nat.lt_succ_iff.mp hlt)

lemma Ranked.exists_of_le (hf : Functional leaf internal) (n : ℕ) (a : A) (h : Ranked key leaf internal n a) (i : ℕ)
    (hi : i ≤ n) : ∃ c, Ranked key leaf internal i c := by
  induction n generalizing a with
  | zero => exact ⟨a, by rwa [Nat.le_zero.mp hi]⟩
  | succ n ih =>
    rcases Nat.le_succ_iff.mp hi with hi | rfl
    · obtain ⟨c, hc⟩ := h.pred hf
      exact ih c hc hi
    · exact ⟨a, h⟩

theorem Denotes.height_lt_card (hf : Functional leaf internal) (S : Finset A)
    (hS : ∀ a, (∃ es, leaf a es) ∨ (∃ ks cs, internal a ks cs) → a ∈ S) {n : ℕ}
    (h : Denotes key leaf internal n a es) : ∃ m < S.card, Denotes key leaf internal m a es := by
  obtain ⟨m, hmn, hrank⟩ := exists_ranked h
  obtain ⟨es', hes'⟩ := hrank.1
  have heq : es = es' := Denotes.det hf n a es es' h (hes'.le hmn)
  refine ⟨m, ?_, heq ▸ hes'⟩
  have : Nonempty A := ⟨a⟩
  choose! f hfr using hrank.exists_of_le hf
  have hmem : ∀ i ∈ Finset.range (m + 1), f i ∈ S := by
    intro i hi
    obtain ⟨⟨es, hden⟩, _⟩ := hfr i (Nat.lt_succ_iff.mp (Finset.mem_range.mp hi))
    refine hS _ ?_
    cases i with
    | zero => exact Or.inl ⟨es, hden.1⟩
    | succ i =>
      rcases hden with hl | ⟨ks, cs, hi, _⟩
      · exact Or.inl ⟨es, hl.1⟩
      · exact Or.inr ⟨ks, cs, hi⟩
  have hinj : Set.InjOn f (Finset.range (m + 1)) := by
    intro i hi j hj hij
    have hi' := hfr i (Nat.lt_succ_iff.mp (Finset.mem_range.mp hi))
    have hj' := hfr j (Nat.lt_succ_iff.mp (Finset.mem_range.mp hj))
    rcases lt_trichotomy i j with hlt | heq | hlt
    · exact absurd hi'.1 (hij ▸ hj'.2 i hlt)
    · exact heq
    · exact absurd hj'.1 (hij ▸ hi'.2 j hlt)
  have hcard := Finset.card_le_card_of_injOn f hmem hinj
  rw [Finset.card_range] at hcard
  omega

end AeorDb.Library.SearchTree
