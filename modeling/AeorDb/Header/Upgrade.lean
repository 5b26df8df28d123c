import AeorDb.Header.Repair

/-! What a repair makes of a file of an older version: everything behind the header moves back by one slot. -/

namespace AeorDb.Header

open Library FileHeader Reader ByteFile List Except

def storedHeader (bytes : List UInt8) : Except HeaderError FileHeader :=
  (readFields supportedHeaderVersion ((withSequence bytes).drop 5)).map Prod.fst

variable {crc32 : Crc32} {f g : ByteFile} {h : FileHeader} {r : ByteFile × HeaderRepairReport}

lemma shiftChunks_data {shift n remaining : ℕ} (hfuel : remaining ≤ n * shiftChunkSize) (hok : shiftChunks shift n f remaining = some g) :
    (∀ i, i < remaining → g.data (fileHeaderSize + i + shift) = f.data (fileHeaderSize + i)) ∧
      (∀ i, fileHeaderSize + remaining + shift ≤ i → g.data i = f.data i) ∧
      g.size = if remaining = 0 then f.size else max f.size (fileHeaderSize + remaining + shift) := by
  induction n generalizing f remaining with
  | zero =>
    obtain rfl : remaining = 0 := by omega
    cases hok
    exact ⟨fun i hi => absurd hi (Nat.not_lt_zero i), fun _ _ => rfl, rfl⟩
  | succ n ih =>
    rw [shiftChunks] at hok
    by_cases hzero : remaining = 0
    · rw [if_pos hzero] at hok
      cases hok
      exact ⟨fun i hi => by omega, fun _ _ => rfl, (if_pos hzero).symm⟩
    · rw [if_neg hzero] at hok
      obtain ⟨buf, hread, hok⟩ := Option.bind_eq_some_iff.mp hok
      obtain ⟨-, rfl⟩ := readExact_eq_some.mp hread
      have hchunk : 0 < shiftChunkSize := by decide
      rw [Nat.succ_mul] at hfuel
      generalize shiftChunkSize = chunk at *
      obtain ⟨hdata, hrest, hsize⟩ := ih (by omega) hok
      generalize hc : min chunk remaining = c at *
      generalize hsrc : fileHeaderSize + remaining - c = src at *
      have hlength : (f.region src c).length = c := f.length_region src c
      refine ⟨?_, ?_, ?_⟩
      · intro i hi
        by_cases hold : i < remaining - c
        · rw [hdata i hold, data_write_of_lt _ _ (by omega)]
        · -- the chunk that was copied first is not touched again
          have hcopied : (f.write (src + shift) (f.region src c)).data (src + shift + (fileHeaderSize + i - src)) =
              f.data (src + (fileHeaderSize + i - src)) := f.data_write_region f (by omega)
          rw [hrest _ (by omega), show fileHeaderSize + i + shift = src + shift + (fileHeaderSize + i - src) by omega, hcopied]
          congr 1
          omega
      · intro i hi
        rw [hrest i (by omega), data_write_of_ge _ _ (by omega)]
      · rw [hsize, size_write _ _ (by omega), hlength, if_neg hzero]
        split_ifs <;> omega

lemma moved_shiftDataRegionForward {shift : ℕ} (hsize : fileHeaderSize < f.size) (hok : shiftDataRegionForward f shift = some g) :
    f.Moved fileHeaderSize shift g := by
  have hfuel : f.size - fileHeaderSize ≤ ((f.size - fileHeaderSize) / shiftChunkSize + 1) * shiftChunkSize := by
    have hdiv := Nat.lt_div_mul_add (a := f.size - fileHeaderSize) (show 0 < shiftChunkSize by decide)
    rw [Nat.succ_mul]
    exact hdiv.le
  obtain ⟨hdata, -, hgrown⟩ := shiftChunks_data hfuel hok
  rw [if_neg (by omega)] at hgrown
  have hgsize : g.size = f.size + shift := by omega
  refine ⟨hgsize, ?_⟩
  intro i hi
  by_cases hin : i < f.size
  · have hmoved := hdata (i - fileHeaderSize) (by omega)
    rwa [Nat.add_sub_cancel' hi] at hmoved
  · rw [g.beyond _ (by omega), f.beyond _ (by omega)]

lemma moved_writeInitialHeaderTo (hsize : fileHeaderSize ≤ f.size) (hmoved : f.Moved fileHeaderSize fileHeaderSize g)
    (hfits : h.hashAlgo.hashLength = 32) {g' : ByteFile} (hwrite : writeInitialHeaderTo crc32 g h = .ok g') :
    f.Moved fileHeaderSize fileHeaderSize g' := by
  obtain ⟨bytes, hbytes, hg'⟩ := Result.bind_eq_ok.mp hwrite
  have hfirst : h.first.hashAlgo.hashLength = 32 := hfits
  rw [serializeChecked_eq crc32 hfirst] at hbytes
  cases hbytes
  obtain rfl := ok.inj hg'
  have hlength := length_serialize crc32 h.first
  have hzeros : (List.replicate fileHeaderSize (0 : UInt8)).length = fileHeaderSize := length_replicate
  have hpos : 0 < fileHeaderSize := by decide
  have hgsize := hmoved.size
  refine ⟨?_, ?_⟩
  · rw [size_write _ _ (by omega), size_write _ _ (by omega)]
    omega
  · intro i hi
    rw [data_write_of_ge _ _ (by omega), data_write_of_ge _ _ (by omega), hmoved.data i hi]

lemma hotTailOffset_of_readFields {version : UInt8} {bytes rest : List UInt8} (hread : readFields version bytes = .ok (h, rest))
    (hfits : h.hashAlgo.hashLength = 32) : h.hotTailOffset = UInt64.ofNat (leValue ((bytes.drop 117).take 8)) := by
  rw [readFields] at hread
  obtain ⟨raw, -, hread⟩ := (skips_takeU16 _).bind hread
  cases halgo : HashAlgorithm.fromU16 raw with
  | none =>
    rw [halgo] at hread
    cases hread
  | some algo =>
    rw [halgo] at hread
    obtain ⟨_, -, hread⟩ := (skips_takeU64 _).bind hread
    obtain ⟨_, -, hread⟩ := (skips_takeI64 _).bind hread
    obtain ⟨_, -, hread⟩ := (skips_takeI64 _).bind hread
    obtain ⟨_, -, hread⟩ := (skips_takeU64 _).bind hread
    obtain ⟨_, -, hread⟩ := (skips_takeU64 _).bind hread
    obtain ⟨_, -, hread⟩ := (skips_takeU8 _).bind hread
    obtain ⟨_, -, hread⟩ := (skips_takeU64 _).bind hread
    obtain ⟨_, -, hread⟩ := (skips_takeU64 _).bind hread
    obtain ⟨_, -, hread⟩ := (skips_takeU8 _).bind hread
    obtain ⟨_, -, hread⟩ := (skips_takeBytes _ _).bind hread
    obtain ⟨_, -, hread⟩ := (skips_takeU64 _).bind hread
    obtain ⟨_, -, hread⟩ := (skips_takeU8 _).bind hread
    obtain ⟨_, -, hread⟩ := (skips_takeU64 _).bind hread
    obtain ⟨_, -, hread⟩ := (skips_takeU64 _).bind hread
    obtain ⟨hot, hhot, hread⟩ := (skips_takeU64 _).bind hread
    iterate 5 obtain ⟨_, _, -, hread⟩ := bind_eq_ok.mp hread
    obtain ⟨rfl, -⟩ := Prod.mk.inj (ok.inj hread)
    have halgo' : algo.hashLength = 32 := hfits
    rw [halgo'] at hhot
    simpa only [drop_drop] using (map_takeBytes_eq_ok hhot).1

lemma storedHotTail_eq (hsize : (slots f .a).length = fileHeaderSize) (hversion : headerVersion (slots f .a) ≤ 2)
    (hstored : storedHeader (slots f .a) = .ok h) (hfits : h.hashAlgo.hashLength = 32) : storedHotTail (slots f .a) = h.hotTailOffset.toNat := by
  obtain ⟨⟨_, rest⟩, hread, rfl⟩ := Result.map_eq_ok.mp hstored
  have hold : ¬ 3 ≤ headerVersion (slots f .a) := by
    intro hthree
    exact absurd (UInt8.le_trans hthree hversion) (by decide)
  have hplace : ((withSequence (slots f .a)).drop 5).drop 117 = (slots f .a).drop 114 := by
    have hhead : ((slots f .a).take 7 ++ List.replicate 8 0).length = 15 := by
      rw [length_append, length_take, length_replicate, hsize]
      rfl
    rw [withSequence, if_neg hold, drop_drop, drop_append, hhead, drop_drop,
      drop_eq_nil_of_le (hhead.trans_le (by decide)), nil_append]
  have hbound : leValue (((slots f .a).drop 114).take 8) < 2 ^ 64 := by
    refine (leValue_lt _).trans_le (Nat.pow_le_pow_right (by decide) (length_take_le 8 _) |>.trans_eq ?_)
    norm_num
  rw [hotTailOffset_of_readFields hread hfits, hplace, storedHotTail, if_neg hold]
  exact (UInt64.toNat_ofNat_of_lt' hbound).symm

structure OldFile (f : ByteFile) (h : FileHeader) : Prop where
  magic : (slots f .a).take 4 = fileMagic
  version : headerVersion (slots f .a) ≤ 2
  header : storedHeader (slots f .a) = .ok h
  size : f.size + fileHeaderSize < 2 ^ 64
  block : fileHeaderSize ≤ h.kvBlockOffset.toNat
  inside : h.kvBlockOffset.toNat < f.size
  hotTail : h.kvBlockOffset.toNat < h.hotTailOffset.toNat

structure Upgraded (f : ByteFile) (h new : FileHeader) : Prop where
  hashAlgo : new.hashAlgo = h.hashAlgo
  kvBlockOffset : new.kvBlockOffset.toNat = h.kvBlockOffset.toNat + fileHeaderSize
  kvBlockLength : new.kvBlockLength = h.kvBlockLength
  kvBlockVersion : new.kvBlockVersion = h.kvBlockVersion
  kvBlockStage : new.kvBlockStage = h.kvBlockStage
  resizeTargetStage : new.resizeTargetStage = h.resizeTargetStage
  hotTailOffset : new.hotTailOffset.toNat = min h.hotTailOffset.toNat f.size + fileHeaderSize

lemma toNat_bumped {offset : UInt64} (hpos : 0 < offset.toNat) (hlt : offset.toNat + fileHeaderSize < 2 ^ 64) :
    (bumped offset).toNat = offset.toNat + fileHeaderSize := by
  have hpos' : 0 < offset := UInt64.lt_iff_toNat_lt.mpr hpos
  rw [bumped, if_pos hpos', UInt64.toNat_add]
  exact Nat.mod_eq_of_lt hlt

lemma OldFile.upgraded (hf : OldFile f h) (hfits : h.hashAlgo.hashLength = 32) :
    Upgraded f h (repairedHeader h.bump true (inspectBytes crc32 (slots f .a) f.size)).first := by
  have hinside := hf.inside
  have hblock := hf.block
  have hsize := hf.size
  have hhot := hf.hotTail
  have hheader : 0 < fileHeaderSize := by decide
  have hkv : (bumped h.kvBlockOffset).toNat = h.kvBlockOffset.toNat + fileHeaderSize := toNat_bumped (by omega) (by omega)
  have hstored : storedHotTail (slots f .a) = h.hotTailOffset.toNat := storedHotTail_eq (length_region _ _ _) hf.version hf.header hfits
  have hreport : (inspectBytes crc32 (slots f .a) f.size).hotTailPastEof =
      if f.size < h.hotTailOffset.toNat then some ⟨h.hotTailOffset.toNat, f.size, h.hotTailOffset.toNat - f.size⟩ else none := by
    rw [← hstored]
    rfl
  rw [repairedHeader, hreport]
  by_cases hpast : f.size < h.hotTailOffset.toNat
  · rw [if_pos hpast]
    refine ⟨rfl, hkv, rfl, rfl, rfl, rfl, ?_⟩
    rw [Nat.min_eq_right hpast.le]
    exact UInt64.toNat_ofNat_of_lt' hsize
  · rw [if_neg hpast]
    refine ⟨rfl, hkv, rfl, rfl, rfl, rfl, ?_⟩
    rw [Nat.min_eq_left (not_lt.mp hpast)]
    exact toNat_bumped (by omega) (by omega)

lemma OldFile.not_inOrder (hf : OldFile f h) (crc32 : Crc32) : ¬ InOrder crc32 f :=
  fun hok => absurd (hok.version ▸ hf.version) (by decide)

lemma OldFile.trusted (hf : OldFile f h) : trustedHeader (slots f .a) = .ok h.bump := by
  change (if headerVersion (slots f .a) ≤ 2 then (storedHeader (slots f .a)).map bump else storedHeader (slots f .a)) = _
  rw [if_pos hf.version, hf.header]
  rfl

lemma OldFile.repaired (hf : OldFile f h) (hrepair : repairHeaderInPlace crc32 f = .ok r) :
    f.Moved fileHeaderSize fileHeaderSize r.1 ∧ ∃ new, openHeader crc32 r.1 = .ok (new, .a) ∧ Upgraded f h new := by
  have hinside := hf.inside
  have hblock := hf.block
  have hsize : fileHeaderSize ≤ f.size := by omega
  have hnot := hf.not_inOrder crc32
  rw [repairHeaderInPlace_eq hsize hf.magic, if_neg hnot] at hrepair
  have hshift : decide (headerVersion (slots f .a) ≤ 2) = true := decide_eq_true hf.version
  have htrusted := hf.trusted
  obtain ⟨trusted, htrusted', hfits, hopen⟩ := openHeader_rewritten hrepair
  obtain ⟨trusted', moved, htrusted'', hmoved, hwritten⟩ := rewriteHeader_ok hrepair
  obtain rfl := ok.inj (htrusted.symm.trans htrusted')
  obtain rfl := ok.inj (htrusted.symm.trans htrusted'')
  rw [hshift] at hopen hmoved hwritten
  refine ⟨moved_writeInitialHeaderTo hsize ?_ ?_ hwritten, _, hopen, hf.upgraded hfits⟩
  · rw [moveData, if_pos rfl] at hmoved
    cases hshifted : shiftDataRegionForward f fileHeaderSize with
    | none =>
      rw [hshifted] at hmoved
      cases hmoved
    | some g =>
      rw [hshifted] at hmoved
      cases hmoved
      exact moved_shiftDataRegionForward (by omega) hshifted
  · rw [hashAlgo_repairedHeader]
    exact hfits

end AeorDb.Header
