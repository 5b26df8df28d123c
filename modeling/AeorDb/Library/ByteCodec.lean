import Mathlib

/-! Fixed-width little-endian fields and a reader that takes them off the front of a byte string. -/

namespace AeorDb.Library

open List

def leBytes : ℕ → ℕ → List UInt8
  | 0, _ => []
  | n + 1, k => UInt8.ofNat k :: leBytes n (k / 256)

def leValue : List UInt8 → ℕ
  | [] => 0
  | b :: bytes => b.toNat + 256 * leValue bytes

@[simp] lemma length_leBytes (n k : ℕ) : (leBytes n k).length = n := by
  induction n generalizing k with
  | zero => rfl
  | succ n ih => rw [leBytes, length_cons, ih]

lemma leValue_leBytes (n k : ℕ) : leValue (leBytes n k) = k % 256 ^ n := by
  induction n generalizing k with
  | zero => simp [leBytes, leValue, Nat.mod_one]
  | succ n ih =>
    have hhead : (UInt8.ofNat k).toNat = k % 256 := by simp
    rw [leBytes, leValue, ih, hhead, Nat.pow_succ', Nat.mod_mul]

lemma leValue_leBytes_of_lt {n k : ℕ} (h : k < 256 ^ n) : leValue (leBytes n k) = k := by
  rw [leValue_leBytes, Nat.mod_eq_of_lt h]

lemma leValue_lt (bytes : List UInt8) : leValue bytes < 256 ^ bytes.length := by
  induction bytes with
  | nil => decide
  | cons b bytes ih =>
    have hb := b.toNat_lt
    rw [leValue, length_cons, Nat.pow_succ']
    omega

def fixedBytes (n : ℕ) (bytes : List UInt8) : List UInt8 := bytes.take n ++ List.replicate (n - bytes.length) 0

@[simp] lemma length_fixedBytes (n : ℕ) (bytes : List UInt8) : (fixedBytes n bytes).length = n := by
  rw [fixedBytes, length_append, length_take, length_replicate]
  omega

lemma fixedBytes_of_length {n : ℕ} {bytes : List UInt8} (h : bytes.length = n) : fixedBytes n bytes = bytes := by
  rw [fixedBytes, h, Nat.sub_self, replicate_zero, append_nil, take_of_length_le h.le]

section

variable {α : Type}

def readMany (read : List UInt8 → α) (width : ℕ) : ℕ → List UInt8 → List α
  | 0, _ => []
  | n + 1, data => read data :: readMany read width n (data.drop width)

lemma readMany_eq_map (read : List UInt8 → α) (width n : ℕ) (data : List UInt8) :
    readMany read width n data = (List.range n).map fun i => read (data.drop (i * width)) := by
  induction n generalizing data with
  | zero => rfl
  | succ n ih =>
    rw [readMany, ih, range_succ_eq_map, map_cons, map_map, Nat.zero_mul, drop_zero]
    congr 1
    refine map_congr_left fun i _ => ?_
    rw [drop_drop, Function.comp_apply, Nat.succ_mul, Nat.add_comm]

variable {l : List α} {width : ℕ} {write : α → List UInt8}

lemma length_flatMap_records (h : ∀ a ∈ l, (write a).length = width) :
    (l.flatMap write).length = l.length * width := by
  induction l with
  | nil => simp
  | cons a l ih =>
    obtain ⟨ha, hl⟩ := forall_mem_cons.mp h
    rw [flatMap_cons, length_append, ih hl, ha, length_cons, Nat.succ_mul, Nat.add_comm]

lemma readMany_flatMap {read : List UInt8 → α}
    (hwidth : ∀ a ∈ l, (write a).length = width) (hread : ∀ a ∈ l, ∀ rest, read (write a ++ rest) = a) (rest : List UInt8) :
    readMany read width l.length (l.flatMap write ++ rest) = l := by
  induction l with
  | nil => rfl
  | cons a l ih =>
    obtain ⟨ha, hl⟩ := forall_mem_cons.mp hwidth
    obtain ⟨hra, hrl⟩ := forall_mem_cons.mp hread
    rw [length_cons, readMany, flatMap_cons, append_assoc, hra, drop_left' ha, ih hl hrl]

end

abbrev Reader (ε : Type) := StateT (List UInt8) (Except ε)

namespace Reader

variable {ε α β : Type}

def takeBytes (short : ε) (n : ℕ) : Reader ε (List UInt8) := fun bytes =>
  if n ≤ bytes.length then .ok (bytes.take n, bytes.drop n) else .error short

def takeU8 (short : ε) : Reader ε UInt8 := do return UInt8.ofNat (leValue (← takeBytes short 1))
def takeU16 (short : ε) : Reader ε UInt16 := do return UInt16.ofNat (leValue (← takeBytes short 2))
def takeU64 (short : ε) : Reader ε UInt64 := do return UInt64.ofNat (leValue (← takeBytes short 8))
def takeI64 (short : ε) : Reader ε Int64 := do return (UInt64.ofNat (leValue (← takeBytes short 8))).toInt64

variable {bytes rest : List UInt8} {f : α → Reader ε β} {x : Reader ε α} {r : β × List UInt8} {n : ℕ} {short : ε}
  {a : α}

lemma bind_of_ok (h : x bytes = .ok (a, rest)) :
    (x >>= f) bytes = f a rest := by
  change (x bytes >>= fun p => f p.1 p.2) = f a rest
  rw [h]
  rfl

lemma bind_eq_ok :
    (x >>= f) bytes = .ok r ↔ ∃ a rest, x bytes = .ok (a, rest) ∧ f a rest = .ok r := by
  change (x bytes >>= fun p => f p.1 p.2) = .ok r ↔ _
  cases x bytes with
  | error err => simp [bind, Except.bind]
  | ok p =>
    obtain ⟨a, rest⟩ := p
    simp [bind, Except.bind]

lemma takeBytes_eq_ok {bytes taken rest : List UInt8} :
    takeBytes short n bytes = .ok (taken, rest) ↔ n ≤ bytes.length ∧ taken = bytes.take n ∧ rest = bytes.drop n := by
  rw [takeBytes]
  split_ifs with hle
  · simp [hle, eq_comm]
  · simp [hle]

lemma map_takeBytes_eq_ok {g : List UInt8 → α}
    (h : (do return g (← takeBytes short n) : Reader ε α) bytes = .ok (a, rest)) : a = g (bytes.take n) ∧ rest = bytes.drop n := by
  obtain ⟨taken, rest', htaken, ha⟩ := bind_eq_ok.mp h
  cases ha
  obtain ⟨-, rfl, hrest⟩ := takeBytes_eq_ok.mp htaken
  exact ⟨rfl, hrest⟩

def Skips (x : Reader ε α) (n : ℕ) : Prop := ∀ bytes a rest, x bytes = .ok (a, rest) → rest = bytes.drop n

lemma Skips.bind (hx : Skips x n)
    (h : (x >>= f) bytes = .ok r) : ∃ a, x bytes = .ok (a, bytes.drop n) ∧ f a (bytes.drop n) = .ok r := by
  obtain ⟨a, rest, ha, hf⟩ := bind_eq_ok.mp h
  obtain rfl := hx bytes a rest ha
  exact ⟨a, ha, hf⟩

lemma skips_takeBytes (short : ε) (n : ℕ) : Skips (takeBytes short n) n := fun _ _ _ h => (takeBytes_eq_ok.mp h).2.2

lemma skips_takeU8 (short : ε) : Skips (takeU8 short) 1 := fun _ _ _ h => (map_takeBytes_eq_ok h).2

lemma skips_takeU16 (short : ε) : Skips (takeU16 short) 2 := fun _ _ _ h => (map_takeBytes_eq_ok h).2

lemma skips_takeU64 (short : ε) : Skips (takeU64 short) 8 := fun _ _ _ h => (map_takeBytes_eq_ok h).2

lemma skips_takeI64 (short : ε) : Skips (takeI64 short) 8 := fun _ _ _ h => (map_takeBytes_eq_ok h).2

lemma length_of_takeBytes {bytes taken rest : List UInt8} (h : takeBytes short n bytes = .ok (taken, rest)) :
    taken.length = n := by
  rw [takeBytes] at h
  split_ifs at h with hle
  obtain ⟨rfl, -⟩ := Prod.mk.inj (Except.ok.inj h)
  exact length_take_of_le hle

lemma takeBytes_append (short : ε) (rest : List UInt8) (h : bytes.length = n) :
    takeBytes short n (bytes ++ rest) = .ok (bytes, rest) := by
  subst h
  rw [takeBytes, if_pos (by simp), take_left, List.drop_left]

lemma takeU8_append (short : ε) (v : UInt8) (rest : List UInt8) : takeU8 short (leBytes 1 v.toNat ++ rest) = .ok (v, rest) := by
  rw [takeU8, bind_of_ok (takeBytes_append short rest (length_leBytes _ _)), leValue_leBytes_of_lt v.toNat_lt, UInt8.ofNat_toNat]
  rfl

lemma takeU16_append (short : ε) (v : UInt16) (rest : List UInt8) : takeU16 short (leBytes 2 v.toNat ++ rest) = .ok (v, rest) := by
  rw [takeU16, bind_of_ok (takeBytes_append short rest (length_leBytes _ _)), leValue_leBytes_of_lt v.toNat_lt, UInt16.ofNat_toNat]
  rfl

lemma takeU64_append (short : ε) (v : UInt64) (rest : List UInt8) : takeU64 short (leBytes 8 v.toNat ++ rest) = .ok (v, rest) := by
  rw [takeU64, bind_of_ok (takeBytes_append short rest (length_leBytes _ _)), leValue_leBytes_of_lt v.toNat_lt, UInt64.ofNat_toNat]
  rfl

lemma takeI64_append (short : ε) (v : Int64) (rest : List UInt8) : takeI64 short (leBytes 8 v.toUInt64.toNat ++ rest) = .ok (v, rest) := by
  rw [takeI64, bind_of_ok (takeBytes_append short rest (length_leBytes _ _)), leValue_leBytes_of_lt v.toUInt64.toNat_lt,
    UInt64.ofNat_toNat]
  rfl

end Reader

structure Field where
  width : ℕ
  bytes : List UInt8

namespace Field

variable {ε : Type} {f : Field} {fields : List Field} {pre buffer : List UInt8} {offset n : ℕ}

def padded (f : Field) : List UInt8 := fixedBytes f.width f.bytes

def copyAt (buffer : List UInt8) (offset : ℕ) (bytes : List UInt8) : List UInt8 :=
  buffer.take offset ++ bytes ++ buffer.drop (offset + bytes.length)

def write (short : ε) : List Field → ℕ → List UInt8 → Except ε (List UInt8)
  | [], _, buffer => .ok buffer
  | f :: fields, offset, buffer =>
    if offset + f.bytes.length ≤ buffer.length then write short fields (offset + f.width) (copyAt buffer offset f.bytes)
    else .error short

def total (fields : List Field) : ℕ := (fields.map width).sum

lemma copyAt_zeros (hpre : pre.length = offset) (hbytes : f.bytes.length ≤ f.width) (hfit : f.width ≤ n) :
    copyAt (pre ++ List.replicate n 0) offset f.bytes = (pre ++ f.padded) ++ List.replicate (n - f.width) 0 := by
  have hrest : n - f.bytes.length = (f.width - f.bytes.length) + (n - f.width) := by omega
  rw [copyAt, take_left' hpre, ← hpre, drop_append, drop_replicate, padded, fixedBytes,
    take_of_length_le hbytes, drop_eq_nil_of_le (Nat.le_add_right _ _), Nat.add_sub_cancel_left, hrest,
    ← replicate_append_replicate]
  simp only [nil_append, append_assoc]

lemma write_zeros (short : ε) (fields : List Field) (hpre : pre.length = offset) (hbytes : ∀ f ∈ fields, f.bytes.length ≤ f.width)
    (hfit : total fields ≤ n) : write short fields offset (pre ++ List.replicate n 0) =
      .ok (pre ++ fields.flatMap padded ++ List.replicate (n - total fields) 0) := by
  induction fields generalizing pre offset n with
  | nil => simp [write, total]
  | cons f fields ih =>
    have hf := hbytes f mem_cons_self
    have htotal : total (f :: fields) = f.width + total fields := rfl
    have hcopy : offset + f.bytes.length ≤ (pre ++ List.replicate n 0).length := by
      rw [length_append, length_replicate]
      omega
    have hpre' : (pre ++ f.padded).length = offset + f.width := by
      rw [length_append, hpre, padded, length_fixedBytes]
    rw [write, if_pos hcopy, copyAt_zeros hpre hf (by omega),
      ih hpre' (fun g hg => hbytes g (mem_cons_of_mem f hg)) (by omega), htotal, Nat.sub_sub, flatMap_cons,
      append_assoc pre]

lemma write_empty (short : ε) (hbytes : ∀ f ∈ fields, f.bytes.length ≤ f.width) (hfit : total fields ≤ n) :
    write short fields 0 (List.replicate n 0) = .ok (fields.flatMap padded ++ List.replicate (n - total fields) 0) := by
  have hwrite := write_zeros short fields (length_nil (α := UInt8)) hbytes hfit
  rwa [nil_append, nil_append] at hwrite

lemma write_append (short : ε) (fields later : List Field) (offset : ℕ) (buffer : List UInt8) :
    write short (fields ++ later) offset buffer = write short fields offset buffer >>= write short later (offset + total fields) := by
  induction fields generalizing offset buffer with
  | nil => rfl
  | cons f fields ih =>
    rw [cons_append, write, write]
    split_ifs with hfit
    · rw [ih, total, total, map_cons, sum_cons, Nat.add_assoc]
    · rfl

end Field

end AeorDb.Library
