import AeorDb.Query.ExactLookup
import AeorDb.Query.Aggregates

/-! Comparisons on signed integers, which are decided by the order of their unsigned bytes. -/

namespace AeorDb.Query

open Store Library List

def signedBytes (x : Int64) : List UInt8 := beBytes 8 x.toUInt64.toNat

lemma jsonQueryValueToBytes_signedJson (x : Int64) : jsonQueryValueToBytes (signedJson x) = .ok (signedBytes x) := by
  rw [signedJson]
  split_ifs <;> rfl

lemma toNat_toUInt64 (x : Int64) : (x.toUInt64.toNat : ℤ) = if x.toInt < 0 then x.toInt + 2 ^ 64 else x.toInt := by
  have hcond : x.toInt = if 2 * x.toUInt64.toNat < 2 ^ 64 then (x.toUInt64.toNat : ℤ) else x.toUInt64.toNat - (2 ^ 64 : ℕ) :=
    BitVec.toInt_eq_toNat_cond x.toBitVec
  have hlt : x.toUInt64.toNat < 2 ^ 64 := x.toUInt64.toNat_lt
  split_ifs at hcond ⊢ <;> omega

lemma signedBytes_lt_iff (x y : Int64) : signedBytes x < signedBytes y ↔ x.toUInt64.toNat < y.toUInt64.toNat :=
  beBytes_lt_iff x.toUInt64.toNat_lt y.toUInt64.toNat_lt

lemma signedOf_signedBytes (x : Int64) : signedOf (signedBytes x) = some x := by
  have hlen := length_beBytes 8 x.toUInt64.toNat
  have hlt : x.toUInt64.toNat < 256 ^ 8 := x.toUInt64.toNat_lt
  rw [signedOf, unsignedOf, signedBytes, if_pos hlen.ge, take_of_length_le hlen.le, beValue_beBytes, Nat.mod_eq_of_lt hlt,
    Option.map_some, UInt64.ofNat_toNat, Int64.toInt64_toUInt64]

lemma signedJson_injective : Function.Injective signedJson := by
  intro x y h
  have hbytes := (jsonQueryValueToBytes_signedJson x).symm.trans ((congrArg jsonQueryValueToBytes h).trans (jsonQueryValueToBytes_signedJson y))
  have hsigned := congrArg signedOf (Except.ok.inj hbytes)
  rw [signedOf_signedBytes, signedOf_signedBytes] at hsigned
  exact Option.some.inj hsigned

structure SignedConverter (S : Type) [LinearOrder S] where
  toScalar : List UInt8 → S
  timestamp : Bool
  mono : ∀ x y : Int64, x.toInt ≤ y.toInt → toScalar (signedBytes x) ≤ toScalar (signedBytes y)

variable {S F : Type} [LinearOrder S] [DecidableEq F]

def SignedConverter.converter (conv : SignedConverter S) : ScalarConverter (List UInt8) S :=
  if conv.timestamp then wholeValue conv.toScalar true "timestamp" .timestamp else wholeValue conv.toScalar true "i64" .i64

def signedOp : F × Option Int64 → IndexOp (List UInt8) F
  | (file, some x) => .update file [signedBytes x]
  | (file, none) => .remove file

def held (ops : List (F × Option Int64)) : F → Option Int64 := ops.foldl (fun current op => Function.update current op.1 op.2) fun _ => none

def signedIndex (sc : Scale S) (conv : SignedConverter S) (ops : List (F × Option Int64)) : FieldIndex (List UInt8) S F :=
  runOps sc (FieldIndex.new sc [] conv.converter) (ops.map signedOp)

variable {sc : Scale S} {conv : SignedConverter S} {ops : List (F × Option Int64)}

def SignedConverter.bucket (sc : Scale S) (conv : SignedConverter S) (x : Int64) : ℕ := sc.bucketOf (conv.toScalar (signedBytes x))

lemma SignedConverter.bucket_mono (conv : SignedConverter S) {x y : Int64} (h : x.toInt ≤ y.toInt) : conv.bucket sc x ≤ conv.bucket sc y :=
  sc.bucketOf_mono (conv.mono x y h)

lemma assigned_signedOp (ops : List (F × Option Int64)) (f : F) : assigned (ops.map signedOp) f = (held ops f).toList.map signedBytes := by
  induction ops using List.reverseRecOn generalizing f with
  | nil => rfl
  | append_singleton ops op ih =>
    rw [map_append, assigned, List.foldl_append, held, List.foldl_append]
    obtain ⟨g, x⟩ := op
    by_cases hf : f = g
    · subst hf
      cases x <;> simp [signedOp, assignOp]
    · have hsame := ih f
      rw [assigned, held] at hsame
      cases x <;> simpa [signedOp, assignOp, hf] using hsame

lemma SignedConverter.converter_eq (conv : SignedConverter S) :
    conv.converter.toScalar = conv.toScalar ∧ conv.converter.isOrderPreserving = true ∧ ∀ v, conv.converter.expandValue v = [v] := by
  rw [SignedConverter.converter]
  split_ifs <;> exact ⟨rfl, rfl, fun v => rfl⟩

lemma mem_takeWhile_range' {c b : ℕ} (s n : ℕ) : b ∈ (List.range' s n).takeWhile (· < c) ↔ (s ≤ b ∧ b < s + n) ∧ b < c := by
  induction n generalizing s with
  | zero => simp
  | succ n ih =>
    rw [range'_succ, takeWhile_cons]
    split_ifs with hs
    · rw [mem_cons, ih]
      have hs : s < c := by simpa using hs
      omega
    · have hs : c ≤ s := by simpa using hs
      simp only [not_mem_nil, false_iff]
      omega

lemma mem_lookupBuckets (first last : ℕ) (accepts : List UInt8 → Bool) (acceptsScalar : S → Bool) (f : F) :
    f ∈ files (((signedIndex sc conv ops).ensureNvtCurrent sc).lookupBuckets sc first last accepts acceptsScalar) ↔
      ∃ x, held ops f = some x ∧ (first ≤ conv.bucket sc x ∧ conv.bucket sc x ≤ last) ∧ accepts (signedBytes x) = true := by
  have h : Tracks sc (signedIndex sc conv ops) _ := tracks_runOps sc [] conv.converter (ops.map signedOp)
  obtain ⟨htracks, _⟩ := h.ensureNvtCurrent
  have hconv : (signedIndex sc conv ops).converter = conv.converter := runOps_converter sc _ _
  simp only [files, FieldIndex.lookupBuckets, mem_map, mem_filter, mem_flatMap, mem_takeWhile_range', h.mem_bucketEntries,
    htracks.values, hconv, conv.converter_eq.1, conv.converter_eq.2.2, assigned_signedOp, mem_singleton, exists_eq_left]
  constructor
  · rintro ⟨entry, ⟨⟨b, ⟨hb, _⟩, hbucket, v, hv, hscalar⟩, haccept⟩, rfl⟩
    obtain ⟨x, hx, rfl⟩ := hv
    have hheld : held ops entry.fileHash = some x := by simpa using hx
    refine ⟨x, hheld, ?_, by simpa [hheld] using haccept⟩
    rw [SignedConverter.bucket, hscalar, hbucket]
    omega
  · rintro ⟨x, hheld, hbounds, haccept⟩
    refine ⟨⟨conv.toScalar (signedBytes x), f⟩, ⟨⟨_, ⟨⟨hbounds.1, ?_⟩, sc.bucketOf_lt _⟩, rfl, signedBytes x, by simp [hheld], rfl⟩, ?_⟩, rfl⟩
    · have hfirst : first ≤ sc.bucketOf (conv.toScalar (signedBytes x)) := hbounds.1
      have hlast : sc.bucketOf (conv.toScalar (signedBytes x)) ≤ last := hbounds.2
      omega
    · simpa [hheld] using haccept

def Answers (ops : List (F × Option Int64)) (answer : EngineResult (List (IndexEntry S F))) (P : Int64 → Prop) : Prop :=
  ∃ entries, answer = .ok entries ∧ ∀ f, f ∈ files entries ↔ ∃ x, held ops f = some x ∧ P x

lemma answers_scan_iff {answer : EngineResult (List (IndexEntry S F))} {P : Int64 → Prop} {first last : ℕ} {accepts : List UInt8 → Bool}
    {acceptsScalar : S → Bool}
    (h : answer = .ok (((signedIndex sc conv ops).ensureNvtCurrent sc).lookupBuckets sc first last accepts acceptsScalar)) :
    Answers ops answer P ↔ ∀ f x, held ops f = some x →
      ((first ≤ conv.bucket sc x ∧ conv.bucket sc x ≤ last) ∧ accepts (signedBytes x) = true ↔ P x) := by
  constructor
  · rintro ⟨entries, heq, hfiles⟩ f x hheld
    obtain rfl := Except.ok.inj (h.symm.trans heq)
    have hboth := (mem_lookupBuckets first last accepts acceptsScalar f).symm.trans (hfiles f)
    simpa [hheld] using hboth
  · intro hjudged
    refine ⟨_, h, fun f => (mem_lookupBuckets first last accepts acceptsScalar f).trans ?_⟩
    constructor
    · rintro ⟨x, hheld, haccepted⟩
      exact ⟨x, hheld, (hjudged f x hheld).mp haccepted⟩
    · rintro ⟨x, hheld, hp⟩
      exact ⟨x, hheld, (hjudged f x hheld).mpr hp⟩

lemma signed_facts (sc : Scale S) (conv : SignedConverter S) (x y : Int64) :
    ((signedBytes x < signedBytes y) ↔ (if x.toInt < 0 then x.toInt + 2 ^ 64 else x.toInt) < if y.toInt < 0 then y.toInt + 2 ^ 64 else y.toInt) ∧
      (x.toInt ≤ y.toInt → conv.bucket sc x ≤ conv.bucket sc y) ∧ (y.toInt ≤ x.toInt → conv.bucket sc y ≤ conv.bucket sc x) ∧
      (-2 ^ 63 ≤ x.toInt ∧ x.toInt < 2 ^ 63) ∧ -2 ^ 63 ≤ y.toInt ∧ y.toInt < 2 ^ 63 := by
  refine ⟨?_, conv.bucket_mono, conv.bucket_mono, ⟨x.le_toInt, x.toInt_lt⟩, y.le_toInt, y.toInt_lt⟩
  rw [signedBytes_lt_iff, ← toNat_toUInt64, ← toNat_toUInt64, Nat.cast_lt]

lemma lookupGt_iff (v : Int64) : Answers ops ((signedIndex sc conv ops).lookupGt sc (signedBytes v)) (fun x => v.toInt < x.toInt) ↔
    ∀ f x, held ops f = some x →
      ¬ (v.toInt < 0 ∧ 0 ≤ x.toInt) ∧ ¬ (x.toInt < 0 ∧ 0 ≤ v.toInt ∧ conv.bucket sc x = conv.bucket sc v) := by
  have hconv : (signedIndex sc conv ops).converter = conv.converter := runOps_converter sc _ _
  rw [answers_scan_iff (by rw [FieldIndex.lookupGt, hconv, conv.converter_eq.2.1, if_neg (by simp)])]
  refine forall_congr' fun f => forall_congr' fun x => imp_congr_right fun _ => ?_
  have hlast : conv.bucket sc x ≤ sc.bucketCount - 1 := Nat.le_sub_one_of_lt (sc.bucketOf_lt _)
  obtain ⟨hbytes, hup, hdown, hv, hx⟩ := signed_facts sc conv v x
  rw [ensureNvtCurrent_converter, hconv, conv.converter_eq.1]
  simp only [decide_eq_true_eq, hbytes]
  change ((conv.bucket sc v ≤ conv.bucket sc x ∧ conv.bucket sc x ≤ _) ∧ _ ↔ _) ↔ _
  split_ifs <;> omega

lemma lookupLt_iff (v : Int64) : Answers ops ((signedIndex sc conv ops).lookupLt sc (signedBytes v)) (fun x => x.toInt < v.toInt) ↔
    ∀ f x, held ops f = some x →
      ¬ (x.toInt < 0 ∧ 0 ≤ v.toInt) ∧ ¬ (v.toInt < 0 ∧ 0 ≤ x.toInt ∧ conv.bucket sc x = conv.bucket sc v) := by
  have hconv : (signedIndex sc conv ops).converter = conv.converter := runOps_converter sc _ _
  rw [answers_scan_iff (by rw [FieldIndex.lookupLt, hconv, conv.converter_eq.2.1, if_neg (by simp)])]
  refine forall_congr' fun f => forall_congr' fun x => imp_congr_right fun _ => ?_
  obtain ⟨hbytes, hup, hdown, hx, hv⟩ := signed_facts sc conv x v
  rw [ensureNvtCurrent_converter, hconv, conv.converter_eq.1]
  simp only [decide_eq_true_eq, hbytes]
  change ((_ ≤ conv.bucket sc x ∧ conv.bucket sc x ≤ conv.bucket sc v) ∧ _ ↔ _) ↔ _
  split_ifs <;> omega

lemma lookupRange_iff (a b : Int64) :
    Answers ops ((signedIndex sc conv ops).lookupRange sc (signedBytes a) (signedBytes b)) (fun x => a.toInt ≤ x.toInt ∧ x.toInt ≤ b.toInt) ↔
    ∀ f x, held ops f = some x →
      ¬ (a.toInt < 0 ∧ 0 ≤ b.toInt ∧ a.toInt ≤ x.toInt ∧ x.toInt ≤ b.toInt) ∧
      ¬ (b.toInt < 0 ∧ 0 ≤ a.toInt ∧ (a.toInt ≤ x.toInt ∨ x.toInt ≤ b.toInt) ∧
        conv.bucket sc x = conv.bucket sc a ∧ conv.bucket sc x = conv.bucket sc b) := by
  have hconv : (signedIndex sc conv ops).converter = conv.converter := runOps_converter sc _ _
  rw [answers_scan_iff (by rw [FieldIndex.lookupRange, hconv, conv.converter_eq.2.1, if_neg (by simp)])]
  refine forall_congr' fun f => forall_congr' fun x => imp_congr_right fun _ => ?_
  obtain ⟨hbytesa, hupa, hdowna, hx, ha⟩ := signed_facts sc conv x a
  obtain ⟨hbytesb, hupb, hdownb, hb, -⟩ := signed_facts sc conv b x
  obtain ⟨-, hupab, hdownab, -, -⟩ := signed_facts sc conv a b
  rw [ensureNvtCurrent_converter, hconv, conv.converter_eq.1]
  simp only [decide_eq_true_eq, ← not_lt (a := signedBytes x), ← not_lt (b := signedBytes x), hbytesa, hbytesb]
  change ((conv.bucket sc a ≤ conv.bucket sc x ∧ conv.bucket sc x ≤ conv.bucket sc b) ∧ _ ↔ _) ↔ _
  split_ifs <;> omega

end AeorDb.Query
