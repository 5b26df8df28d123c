import Mathlib

/-! The bytes under the keys of all objects of a database. A text is given by its UTF-8 bytes. -/

namespace AeorDb.Store.Keys

open List

abbrev Bytes := List UInt8

def ascii (s : String) : Bytes := s.toList.map fun c => UInt8.ofNat c.toNat

inductive Object where
  | filePath (path : Bytes)
  | directoryPath (path : Bytes)
  | symlinkPath (path : Bytes)
  | fileIdentity (path : Bytes) (contentType : Option Bytes) (chunkHashes : List Bytes)
  | systemFileIdentity (path : Bytes) (contentType : Option Bytes) (chunkHashes : List Bytes)
  | symlinkIdentity (path target : Bytes)
  | fileContent (data : Bytes)
  | directoryContent (data : Bytes)
  | btreeNode (data : Bytes)
  | symlinkContent (data : Bytes)
  | chunk (data : Bytes)
  | systemChunk (data : Bytes)
  | snapshot (name : Bytes)
  | fork (name : Bytes)
  | deletion (path : Bytes) (timestamp : ℤ)
  deriving DecidableEq

inductive Kind where
  | filePath | directoryPath | symlinkPath | fileIdentity | systemFileIdentity | symlinkIdentity | fileContent | directoryContent
  | btreeNode | symlinkContent | chunk | systemChunk | snapshot | fork | deletion
  deriving DecidableEq

def Kind.domain : Kind → Bytes
  | .filePath => ascii "file:"
  | .directoryPath => ascii "dir:"
  | .symlinkPath => ascii "symlink:"
  | .fileIdentity => ascii "fileid:"
  | .systemFileIdentity => ascii "sysfileid:"
  | .symlinkIdentity => ascii "symlinkid:"
  | .fileContent => ascii "filec:"
  | .directoryContent => ascii "dirc:"
  | .btreeNode => ascii "btree:"
  | .symlinkContent => ascii "symlinkc:"
  | .chunk => ascii "chunk:"
  | .systemChunk => ascii "system::"
  | .snapshot => ascii "snap:"
  | .fork => ascii "::aeordb:fork:"
  | .deletion => ascii "del:"

def identityBody (path : Bytes) (contentType : Option Bytes) (chunkHashes : List Bytes) : Bytes :=
  path ++ 0 :: (contentType.getD [] ++ 0 :: chunkHashes.flatten)

def Object.kind : Object → Kind
  | .filePath _ => .filePath
  | .directoryPath _ => .directoryPath
  | .symlinkPath _ => .symlinkPath
  | .fileIdentity _ _ _ => .fileIdentity
  | .systemFileIdentity _ _ _ => .systemFileIdentity
  | .symlinkIdentity _ _ => .symlinkIdentity
  | .fileContent _ => .fileContent
  | .directoryContent _ => .directoryContent
  | .btreeNode _ => .btreeNode
  | .symlinkContent _ => .symlinkContent
  | .chunk _ => .chunk
  | .systemChunk _ => .systemChunk
  | .snapshot _ => .snapshot
  | .fork _ => .fork
  | .deletion _ _ => .deletion

def Object.body : Object → Bytes
  | .filePath path | .directoryPath path | .symlinkPath path => path
  | .fileIdentity path contentType chunkHashes | .systemFileIdentity path contentType chunkHashes =>
    identityBody path contentType chunkHashes
  | .symlinkIdentity path target => path ++ 0 :: target
  | .fileContent data | .directoryContent data | .btreeNode data | .symlinkContent data | .chunk data | .systemChunk data => data
  | .snapshot name | .fork name => name
  | .deletion path timestamp => path ++ 58 :: ascii (toString timestamp)

/-- What the hash is computed of. -/
def Object.input (a : Object) : Bytes := a.kind.domain ++ a.body

def Object.key {H : Type} (computeHash : Bytes → H) (a : Object) : H := computeHash a.input

/-- An identity hash takes a missing content type for an empty one. -/
def Object.defining : Object → Object
  | .fileIdentity path contentType chunkHashes => .fileIdentity path (some (contentType.getD [])) chunkHashes
  | .systemFileIdentity path contentType chunkHashes => .systemFileIdentity path (some (contentType.getD [])) chunkHashes
  | a => a

/-- No NUL byte in the texts that one ends, and chunk hashes of the algorithm's length. -/
def Object.Plain (hashLength : ℕ) : Object → Prop
  | .fileIdentity path contentType chunkHashes | .systemFileIdentity path contentType chunkHashes =>
    0 ∉ path ∧ (∀ t ∈ contentType, 0 ∉ t) ∧ ∀ h ∈ chunkHashes, h.length = hashLength
  | .symlinkIdentity path _ => 0 ∉ path
  | _ => True

section

variable {α : Type} {a : α} {x x' y y' : List α}

lemma append_cons_inj_of_notMem_left (hx : a ∉ x) (hx' : a ∉ x')
    (h : x ++ a :: y = x' ++ a :: y') : x = x' ∧ y = y' := by
  rcases append_eq_append_iff.mp h with ⟨z, rfl, hz⟩ | ⟨z, rfl, hz⟩
  · cases z with
    | nil => simpa using hz
    | cons b z =>
      obtain rfl : a = b := by simpa using congrArg List.head? hz
      simp at hx'
  · cases z with
    | nil => simpa [eq_comm] using hz
    | cons b z =>
      obtain rfl : a = b := by simpa using congrArg List.head? hz
      simp at hx

lemma append_cons_inj_of_notMem_right (hy : a ∉ y) (hy' : a ∉ y')
    (h : x ++ a :: y = x' ++ a :: y') : x = x' ∧ y = y' := by
  have hrev : y.reverse ++ a :: x.reverse = y'.reverse ++ a :: x'.reverse := by simpa using congrArg List.reverse h
  obtain ⟨hyy, hxx⟩ := append_cons_inj_of_notMem_left (by simpa using hy) (by simpa using hy') hrev
  exact ⟨reverse_injective hxx, reverse_injective hyy⟩

lemma flatten_inj_of_length {n : ℕ} (hn : 0 < n) {xs ys : List (List α)} (hxs : ∀ x ∈ xs, x.length = n)
    (hys : ∀ y ∈ ys, y.length = n) (h : xs.flatten = ys.flatten) : xs = ys := by
  have hmap : ∀ {zs : List (List α)}, (∀ z ∈ zs, z.length = n) → zs.map List.length = List.replicate zs.length n := fun {zs} hzs =>
    eq_replicate_iff.mpr ⟨by simp, by simpa using hzs⟩
  have hlength : xs.length * n = ys.length * n := by
    simpa [length_flatten, hmap hxs, hmap hys] using congrArg List.length h
  rw [eq_iff_flatten_eq]
  refine ⟨h, ?_⟩
  rw [hmap hxs, hmap hys, Nat.eq_of_mul_eq_mul_right hn hlength]

end

variable {c : Char}

lemma toString_char {t : ℤ} (hc : c ∈ (toString t).toList) : c.isDigit ∨ c = '-' := by
  have hdigit : ∀ {n : ℕ}, c ∈ n.repr.toList → c.isDigit := fun {n} hmem =>
    Nat.isDigit_of_mem_toDigits (by decide) (by decide) (Nat.toList_repr ▸ hmem)
  cases t with
  | ofNat n => exact .inl (hdigit hc)
  | negSucc n =>
    have hmem : c = '-' ∨ c ∈ (n + 1).repr.toList := by
      simpa [toString, Int.repr] using hc
    exact hmem.symm.imp_left hdigit

lemma toNat_lt_colon (hc : c.isDigit ∨ c = '-') : c.toNat < 58 := by
  rcases hc with hc | rfl
  · simp only [Char.isDigit, Bool.and_eq_true, decide_eq_true_eq] at hc
    have hle : c.val.toNat ≤ 57 := hc.2
    exact Nat.lt_succ_of_le hle
  · decide

lemma colon_notMem_decimal (t : ℤ) : 58 ∉ ascii (toString t) := by
  intro hmem
  obtain ⟨c, hc, heq⟩ := mem_map.mp hmem
  have hlt := toNat_lt_colon (toString_char hc)
  have hval : c.toNat % 256 = 58 := by simpa using congrArg UInt8.toNat heq
  omega

lemma decimal_injective : Function.Injective fun t : ℤ => ascii (toString t) := by
  intro t t' h
  -- every character of a decimal can be read back from its byte
  have hback : ∀ t : ℤ, (ascii (toString t)).map (fun b => Char.ofNat b.toNat) = (toString t).toList := by
    intro t
    rw [ascii, map_map]
    refine (map_congr_left fun c hc => ?_).trans (map_id _)
    have hlt := toNat_lt_colon (toString_char hc)
    have hmod : c.toNat % 256 = c.toNat := Nat.mod_eq_of_lt (by omega)
    simp [hmod]
  have hlist : (toString t).toList = (toString t').toList := by
    rw [← hback t, ← hback t']
    exact congrArg _ h
  exact Int.repr_inj.mp (String.toList_injective hlist)

variable {hashLength : ℕ}

lemma domain_prefixFree : ∀ k k' : Kind, k.domain <+: k'.domain → k = k' := by
  intro k k' h
  cases k <;> cases k' <;> first | rfl | exact absurd h (by decide +kernel)

variable {a b : Object}

lemma kind_body_of_input (h : a.input = b.input) : a.kind = b.kind ∧ a.body = b.body := by
  have hkind : a.kind = b.kind := by
    have ha : a.kind.domain <+: b.input := h ▸ prefix_append _ _
    rcases List.prefix_or_prefix_of_prefix ha (prefix_append b.kind.domain b.body) with hp | hp
    · exact domain_prefixFree _ _ hp
    · exact (domain_prefixFree _ _ hp).symm
  rw [Object.input, Object.input, hkind] at h
  exact ⟨hkind, append_cancel_left h⟩

lemma identityBody_inj (hn : 0 < hashLength) {path path' : Bytes} {contentType contentType' : Option Bytes} {hashes hashes' : List Bytes}
    (ha : (Object.fileIdentity path contentType hashes).Plain hashLength)
    (hb : (Object.fileIdentity path' contentType' hashes').Plain hashLength)
    (h : identityBody path contentType hashes = identityBody path' contentType' hashes') :
    path = path' ∧ contentType.getD [] = contentType'.getD [] ∧ hashes = hashes' := by
  have hplain : ∀ {t : Option Bytes}, (∀ x ∈ t, 0 ∉ x) → 0 ∉ t.getD [] := by
    rintro (_ | x) hx
    · simp
    · exact hx x rfl
  obtain ⟨hpath, hrest⟩ := append_cons_inj_of_notMem_left ha.1 hb.1 h
  obtain ⟨htype, hflat⟩ := append_cons_inj_of_notMem_left (hplain ha.2.1) (hplain hb.2.1) hrest
  exact ⟨hpath, htype, flatten_inj_of_length hn ha.2.2 hb.2.2 hflat⟩

lemma defining_of_body (hn : 0 < hashLength) (ha : a.Plain hashLength) (hb : b.Plain hashLength)
    (hkind : a.kind = b.kind) (hbody : a.body = b.body) : a.defining = b.defining := by
  cases a <;> cases b <;> simp only [Object.kind, reduceCtorEq] at hkind <;> simp only [Object.body] at hbody
  case fileIdentity.fileIdentity | systemFileIdentity.systemFileIdentity =>
    obtain ⟨hpath, htype, hhashes⟩ := identityBody_inj hn ha hb hbody
    simp only [Object.defining, hpath, htype, hhashes]
  case symlinkIdentity.symlinkIdentity =>
    obtain ⟨hpath, htarget⟩ := append_cons_inj_of_notMem_left ha hb hbody
    rw [hpath, htarget]
  case deletion.deletion =>
    obtain ⟨hpath, htime⟩ := append_cons_inj_of_notMem_right (colon_notMem_decimal _) (colon_notMem_decimal _) hbody
    rw [hpath, decimal_injective htime]
  all_goals rw [hbody]

lemma input_defining (a : Object) : a.defining.input = a.input := by cases a <;> rfl

theorem key_eq_iff {H : Type} {computeHash : Bytes → H} (hinjective : Function.Injective computeHash) (hn : 0 < hashLength)
    {a b : Object} (ha : a.Plain hashLength) (hb : b.Plain hashLength) :
    a.key computeHash = b.key computeHash ↔ a.defining = b.defining := by
  rw [Object.key, Object.key, hinjective.eq_iff]
  constructor
  · intro h
    obtain ⟨hkind, hbody⟩ := kind_body_of_input h
    exact defining_of_body hn ha hb hkind hbody
  · intro h
    rw [← input_defining a, ← input_defining b, h]

theorem key_eq_iff_deletions : (Object.deletion [47, 97] 12).key id ≠ (Object.deletion [47, 97, 58, 49] 2).key id := by
  intro h
  have hsame := (key_eq_iff (a := .deletion [47, 97] 12) (b := .deletion [47, 97, 58, 49] 2) Function.injective_id
    (show 0 < 32 by decide) trivial trivial).mp h
  simp [Object.defining] at hsame

/-- Two files that differ in having no content type and an empty one. -/
theorem key_contentType_missing : (Object.fileIdentity [47, 97] none []).Plain 32 ∧
    (Object.fileIdentity [47, 97] (some []) []).Plain 32 ∧
    (Object.fileIdentity [47, 97] none []).key id = (Object.fileIdentity [47, 97] (some []) []).key id ∧
    Object.fileIdentity [47, 97] none [] ≠ .fileIdentity [47, 97] (some []) [] := by
  refine ⟨?_, ?_, rfl, by simp⟩ <;> simp [Object.Plain]

end AeorDb.Store.Keys
