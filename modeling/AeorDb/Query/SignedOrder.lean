import AeorDb.Query.SignedScans

/-! Minima and maxima of signed integers, and all comparisons together. -/

namespace AeorDb.Query

open Store Library List Option

variable {S F : Type} [LinearOrder S] [DecidableEq F]

section

variable {better : List UInt8 → List UInt8 → Bool} {text : TextCodec} {indexes : FieldIndexMap F}
  {sc : Scale S} {conv : SignedConverter S} {ops : List (F × Option Int64)} {hashSet : List F} {fields : List Str} {field : Str}
  (hindex : indexes field = some ((signedIndex sc conv ops).values, (signedIndex sc conv ops).converter.typeTag))

include hindex in
lemma fieldBytes_signed (f : F) :
    fieldBytes indexes f field = (held ops f).map fun x => (signedBytes x, (signedIndex sc conv ops).converter.typeTag) := by
  have h : Tracks sc (signedIndex sc conv ops) _ := tracks_runOps sc [] conv.converter (ops.map signedOp)
  rw [fieldBytes, hindex]
  simp only [bind_eq_bind, bind_some, h.values, assigned_signedOp]
  cases held ops f <;> rfl

lemma bytesToJsonValue_signed (x : Int64) :
    bytesToJsonValue (signedBytes x) text (signedIndex sc conv ops).converter.typeTag = signedJson x := by
  have htag : (signedIndex sc conv ops).converter.typeTag = .i64 ∨ (signedIndex sc conv ops).converter.typeTag = .timestamp := by
    rw [signedIndex, runOps_converter]
    change conv.converter.typeTag = _ ∨ conv.converter.typeTag = _
    rw [SignedConverter.converter]
    split_ifs <;> simp [wholeValue]
  rcases htag with htag | htag <;> rw [htag, bytesToJsonValue, signedOf_signedBytes]

section

variable (hirrefl : ∀ b, better b b = false)

include hirrefl

lemma improve_improve (kept : Option (JsonValue × List UInt8)) (found : List UInt8 × ConverterType) :
    improve better text (improve better text kept found) found = improve better text kept found := by
  cases kept with
  | none => simp [improve, hirrefl]
  | some current =>
    simp only [improve]
    split_ifs with h <;> simp [hirrefl, h]

lemma foldl_extremeStep (file : F) (fields : List Str) (kept : Str → Option (JsonValue × List UInt8))
    {field : Str} (hfield : field ∈ fields) : fields.foldl (extremeStep better text indexes file) kept field =
      ((fieldBytes indexes file field).elim (kept field) (improve better text (kept field))) := by
  have hstep : ∀ kept g, extremeStep better text indexes file kept g field =
      if g = field then (fieldBytes indexes file field).elim (kept field) (improve better text (kept field)) else kept field := by
    intro kept g
    rw [extremeStep]
    split_ifs with hg
    · subst hg
      cases fieldBytes indexes file g <;> simp
    · cases fieldBytes indexes file g <;> simp [Function.update_of_ne (Ne.symm hg)]
  have hskip : ∀ (fields : List Str) kept, field ∉ fields → fields.foldl (extremeStep better text indexes file) kept field = kept field := by
    intro fields
    induction fields with
    | nil => simp
    | cons g fields ih =>
      intro kept hmem
      rw [mem_cons, not_or] at hmem
      rw [foldl_cons, ih _ hmem.2, hstep, if_neg (Ne.symm hmem.1)]
  induction fields generalizing kept with
  | nil => simp at hfield
  | cons g fields ih =>
    rw [foldl_cons]
    by_cases hmem : field ∈ fields
    · rw [ih _ hmem, hstep]
      split_ifs with hg
      · cases fieldBytes indexes file field with
        | none => rfl
        | some found => exact improve_improve hirrefl _ found
      · rfl
    · obtain rfl : field = g := (mem_cons.mp hfield).resolve_right hmem
      rw [hskip _ _ hmem, hstep, if_pos rfl]

lemma foldl_files (hashSet : List F) (fields : List Str) {field : Str} (hfield : field ∈ fields) :
    hashSet.foldl (fun kept file => fields.foldl (extremeStep better text indexes file) kept) (fun _ => none) field =
      (hashSet.filterMap fun file => fieldBytes indexes file field).foldl (improve better text) none := by
  induction hashSet using List.reverseRecOn with
  | nil => rfl
  | append_singleton hashSet file ih =>
    rw [List.foldl_append, foldl_cons, foldl_nil, foldl_extremeStep hirrefl file fields _ hfield, filterMap_append,
      List.foldl_append, ih]
    cases hbytes : fieldBytes indexes file field <;> simp [hbytes]

variable (htrans : ∀ a b c, better a b = true → better c b = false → better c a = false)

include htrans

lemma foldl_improve (text : TextCodec) (found : List (List UInt8 × ConverterType)) (hne : found ≠ []) :
    ∃ best ∈ found, found.foldl (improve better text) none = some (bytesToJsonValue best.1 text best.2, best.1) ∧
      ∀ x ∈ found, better x.1 best.1 = false := by
  induction found using List.reverseRecOn with
  | nil => exact absurd rfl hne
  | append_singleton found x ih =>
    rw [List.foldl_append, foldl_cons, foldl_nil]
    rcases eq_or_ne found [] with rfl | hfound
    · exact ⟨x, by simp, rfl, by simp [hirrefl]⟩
    · obtain ⟨best, hbest, hkept, hnone⟩ := ih hfound
      rw [hkept, improve]
      by_cases hx : better x.1 best.1 = true
      · refine ⟨x, by simp, by simp [hx], fun y hy => ?_⟩
        rcases mem_append.mp hy with hy | hy
        · exact htrans x.1 best.1 y.1 hx (hnone y hy)
        · rw [mem_singleton.mp hy, hirrefl]
      · refine ⟨best, mem_append_left _ hbest, by simp [hx], fun y hy => ?_⟩
        rcases mem_append.mp hy with hy | hy
        · exact hnone y hy
        · rw [mem_singleton.mp hy]
          simpa using hx

include hindex in
lemma shown_extreme (text : TextCodec) (hashSet : List F) (hfield : field ∈ fields) :
    let shown := (hashSet.foldl (fun kept file => fields.foldl (extremeStep better text indexes file) kept) (fun _ => none) field).map (·.1)
    ((∀ f ∈ hashSet, held ops f = none) ∧ shown = none) ∨ ∃ f ∈ hashSet, ∃ x, held ops f = some x ∧ shown = some (signedJson x) ∧
      ∀ g ∈ hashSet, ∀ y, held ops g = some y → better (signedBytes y) (signedBytes x) = false := by
  dsimp only
  rw [foldl_files hirrefl hashSet fields hfield]
  rcases eq_or_ne (hashSet.filterMap fun file => fieldBytes indexes file field) [] with hnil | hne
  · refine .inl ⟨fun f hf => ?_, by rw [hnil]; rfl⟩
    have hnone := filterMap_eq_nil_iff.mp hnil f hf
    rw [fieldBytes_signed hindex] at hnone
    simpa using hnone
  · obtain ⟨best, hbest, hkept, hnone⟩ := foldl_improve hirrefl htrans text _ hne
    obtain ⟨f, hf, hbytes⟩ := mem_filterMap.mp hbest
    rw [fieldBytes_signed hindex] at hbytes
    obtain ⟨x, hx, rfl⟩ := Option.map_eq_some_iff.mp hbytes
    refine .inr ⟨f, hf, x, hx, ?_, fun g hg y hy => ?_⟩
    · rw [hkept, map_some, bytesToJsonValue_signed]
    · exact hnone _ (mem_filterMap.mpr ⟨g, hg, by rw [fieldBytes_signed hindex, hy]; rfl⟩)

def ShowsLeast (ops : List (F × Option Int64)) (hashSet : List F) (below : ℤ → ℤ → Prop) (shown : Option JsonValue) : Prop :=
  ((∀ f ∈ hashSet, held ops f = none) ∧ shown = none) ∨ ∃ f ∈ hashSet, ∃ x, held ops f = some x ∧ shown = some (signedJson x) ∧
    ∀ g ∈ hashSet, ∀ y, held ops g = some y → below x.toInt y.toInt

def SameSign (ops : List (F × Option Int64)) (hashSet : List F) : Prop :=
  ∀ f ∈ hashSet, ∀ g ∈ hashSet, ∀ x y, held ops f = some x → held ops g = some y → (x.toInt < 0 ↔ y.toInt < 0)

include hindex in
lemma showsLeast_iff {below : ℤ → ℤ → Prop}
    (hmixed : ∀ x y z : Int64, y.toInt < 0 → 0 ≤ z.toInt → below x.toInt y.toInt → below x.toInt z.toInt →
      ¬ (better (signedBytes y) (signedBytes x) = false ∧ better (signedBytes z) (signedBytes x) = false))
    (hsame : ∀ x y : Int64, (x.toInt < 0 ↔ y.toInt < 0) → better (signedBytes y) (signedBytes x) = false → below x.toInt y.toInt)
    (hfield : field ∈ fields) : ShowsLeast ops hashSet below
      ((hashSet.foldl (fun kept file => fields.foldl (extremeStep better text indexes file) kept) (fun _ => none) field).map (·.1)) ↔
      SameSign ops hashSet := by
  have hshown := shown_extreme hindex hirrefl htrans text hashSet hfield
  dsimp only at hshown
  generalize (hashSet.foldl (fun kept file => fields.foldl (extremeStep better text indexes file) kept) (fun _ => none) field).map (·.1) = shown at *
  constructor
  · rintro (⟨hnone, _⟩ | ⟨f, hf, x, hx, rfl, hleast⟩)
    · intro f hf g hg x y hx
      simp [hnone f hf] at hx
    · rcases hshown with ⟨_, hno⟩ | ⟨f', hf', x', hx', heq, hbest⟩
      · simp at hno
      · obtain rfl := signedJson_injective (some.inj heq)
        intro g hg k hk y z hy hz
        have hyz := hmixed x y z
        have hzy := hmixed x z y
        have hly := hleast g hg y hy
        have hlz := hleast k hk z hz
        have hby := hbest g hg y hy
        have hbz := hbest k hk z hz
        constructor
        · intro hneg
          by_contra hpos
          exact hyz hneg (by omega) hly hlz ⟨hby, hbz⟩
        · intro hneg
          by_contra hpos
          exact hzy hneg (by omega) hlz hly ⟨hbz, hby⟩
  · intro hsign
    rcases hshown with hnone | ⟨f, hf, x, hx, heq, hbest⟩
    · exact .inl hnone
    · exact .inr ⟨f, hf, x, hx, heq, fun g hg y hy => hsame x y (hsign f hf g hg x y hx hy) (hbest g hg y hy)⟩

end

lemma signedBytes_not_lt (x y : Int64) : decide (signedBytes y < signedBytes x) = false ↔
    (if x.toInt < 0 then x.toInt + 2 ^ 64 else x.toInt) ≤ if y.toInt < 0 then y.toInt + 2 ^ 64 else y.toInt := by
  rw [decide_eq_false_iff_not, signedBytes_lt_iff, not_lt, ← toNat_toUInt64, ← toNat_toUInt64, Nat.cast_le]

variable {agg : AggregateQuery}

include hindex

lemma min_iff (hfield : field ∈ agg.min) :
    ShowsLeast ops hashSet (· ≤ ·) ((computeAggregates text hashSet agg indexes).min field) ↔ SameSign ops hashSet := by
  refine showsLeast_iff hindex (fun b => by simp) (fun a b c hab hcb => ?_) (fun x y z hy hz hxy _ hbest => ?_) (fun x y hsign hbest => ?_) hfield
  · simp only [decide_eq_true_eq, decide_eq_false_iff_not, not_lt] at hab hcb ⊢
    exact hab.le.trans hcb
  · rw [signedBytes_not_lt, signedBytes_not_lt] at hbest
    have hbounds := x.le_toInt
    have hzlt := z.toInt_lt
    split_ifs at hbest <;> omega
  · rw [signedBytes_not_lt] at hbest
    split_ifs at hbest <;> omega

lemma max_iff (hfield : field ∈ agg.max) :
    ShowsLeast ops hashSet (· ≥ ·) ((computeAggregates text hashSet agg indexes).max field) ↔ SameSign ops hashSet := by
  refine showsLeast_iff hindex (fun b => by simp) (fun a b c hab hcb => ?_) (fun x y z hy hz _ hxz hbest => ?_) (fun x y hsign hbest => ?_) hfield
  · simp only [decide_eq_true_eq, decide_eq_false_iff_not, not_lt] at hab hcb ⊢
    exact hcb.trans hab.le
  · rw [signedBytes_not_lt, signedBytes_not_lt] at hbest
    have hbounds := y.le_toInt
    have hxlt := x.toInt_lt
    split_ifs at hbest <;> omega
  · rw [signedBytes_not_lt] at hbest
    split_ifs at hbest <;> omega

end

variable (sc : Scale S) (conv : SignedConverter S) (ops : List (F × Option Int64))

theorem signed_comparisons_iff (v a b : Int64) (text : TextCodec) (hashSet : List F) (agg : AggregateQuery) (indexes : FieldIndexMap F)
    (field : Str) (hindex : indexes field = some ((signedIndex sc conv ops).values, (signedIndex sc conv ops).converter.typeTag))
    (hmin : field ∈ agg.min) (hmax : field ∈ agg.max) :
    (Answers ops ((signedIndex sc conv ops).lookupGt sc (signedBytes v)) (fun x => v.toInt < x.toInt) ↔
      ∀ f x, held ops f = some x →
        ¬ (v.toInt < 0 ∧ 0 ≤ x.toInt) ∧ ¬ (x.toInt < 0 ∧ 0 ≤ v.toInt ∧ conv.bucket sc x = conv.bucket sc v)) ∧
    (Answers ops ((signedIndex sc conv ops).lookupLt sc (signedBytes v)) (fun x => x.toInt < v.toInt) ↔
      ∀ f x, held ops f = some x →
        ¬ (x.toInt < 0 ∧ 0 ≤ v.toInt) ∧ ¬ (v.toInt < 0 ∧ 0 ≤ x.toInt ∧ conv.bucket sc x = conv.bucket sc v)) ∧
    (Answers ops ((signedIndex sc conv ops).lookupRange sc (signedBytes a) (signedBytes b)) (fun x => a.toInt ≤ x.toInt ∧ x.toInt ≤ b.toInt) ↔
      ∀ f x, held ops f = some x →
        ¬ (a.toInt < 0 ∧ 0 ≤ b.toInt ∧ a.toInt ≤ x.toInt ∧ x.toInt ≤ b.toInt) ∧
        ¬ (b.toInt < 0 ∧ 0 ≤ a.toInt ∧ (a.toInt ≤ x.toInt ∨ x.toInt ≤ b.toInt) ∧
          conv.bucket sc x = conv.bucket sc a ∧ conv.bucket sc x = conv.bucket sc b)) ∧
    (ShowsLeast ops hashSet (· ≤ ·) ((computeAggregates text hashSet agg indexes).min field) ↔ SameSign ops hashSet) ∧
    (ShowsLeast ops hashSet (· ≥ ·) ((computeAggregates text hashSet agg indexes).max field) ↔ SameSign ops hashSet) :=
  ⟨lookupGt_iff v, lookupLt_iff v, lookupRange_iff a b, min_iff hindex hmin, max_iff hindex hmax⟩

def shifted : SignedConverter ℕ where
  toScalar bytes := (((signedOf bytes).getD 0).toInt + 2 ^ 63).toNat
  timestamp := false
  mono x y h := by
    rw [signedOf_signedBytes, signedOf_signedBytes]
    exact Int.toNat_le_toNat (by simpa using h)

theorem signed_comparisons_positive :
    let ops : List (ℕ × Option Int64) := [(0, some 5), (1, some 7)]
    let indexes : FieldIndexMap ℕ := fun _ => some ((signedIndex natScale shifted ops).values, (signedIndex natScale shifted ops).converter.typeTag)
    ShowsLeast ops [0, 1] (· ≤ ·) ((computeAggregates ⟨fun _ => none, fun _ => [], fun _ => []⟩ [0, 1] ⟨[], [], [[]], [[]]⟩ indexes).min []) := by
  intro ops indexes
  refine (signed_comparisons_iff natScale shifted ops 6 0 9 _ [0, 1] _ indexes [] rfl (by decide) (by decide)).2.2.2.1.mpr ?_
  have hheld : ∀ f ∈ [0, 1], ∀ x, held ops f = some x → 0 ≤ x.toInt := by
    intro f hf x hx
    rcases mem_pair.mp hf with rfl | rfl
    · obtain rfl : 5 = x := some.inj hx
      decide
    · obtain rfl : 7 = x := some.inj hx
      decide
  intro f hf g hg x y hx hy
  have hx' := hheld f hf x hx
  have hy' := hheld g hg y hy
  omega

set_option maxRecDepth 20000 in
theorem signed_comparisons_cross :
    ((signedIndex natScale shifted [(0, some (-1))]).lookupGt natScale (signedBytes 0)).map files = .ok [0] ∧
      (-1 : Int64).toInt < (0 : Int64).toInt := by
  constructor <;> decide

end AeorDb.Query
