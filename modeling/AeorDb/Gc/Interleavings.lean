import AeorDb.Gc.CollectorSafety
import AeorDb.Store.Digest

/-! A collection beside writers: what the recheck set protects, and a run in which it does not. -/

namespace AeorDb.Gc

open Store BTree Dir Library Digest List Relation.ReflTransGen World

variable {ι H : Type} [DecidableEq H] {hs : Hasher H} {st : World ι H} [DecidableEq ι]

lemma Inv.step {st' : World ι H} (hinv : Inv hs st) (h : ShieldedStep hs st st') : Inv hs st' := by
  obtain ⟨a, hshield, h⟩ := h
  cases h with
  | readHead w hw =>
    have hneeded : ∀ k ∈ st.head.toFinset, Needed st k := fun k hk => Or.inl ⟨k, by simpa using hk, .refl⟩
    refine hinv.hold (fun k hk => ?_) (fun k hk c hc => hinv.present c ((hneeded k hk).of_reach hc)) fun _ => hneeded
    exact (hinv.head k (by simpa using hk)).ne_snapshotKey
  | readRef w k c hw hk hc =>
    have hneeded : ∀ x ∈ ({c} : Finset H), Needed st x := by
      intro x hx
      obtain rfl := Finset.mem_singleton.mp hx
      exact (needed_of_held hk).of_reach (.single hc)
    refine hinv.hold (fun x hx => ?_) (fun x hx y hy => hinv.present y ((hneeded x hx).of_reach hy)) fun _ => hneeded
    obtain rfl := Finset.mem_singleton.mp hx
    exact (hinv.sound.treeKey_of_points hc).ne_snapshotKey
  | checkChunk w bytes hw =>
    unfold checkChunk
    split_ifs with hsome
    · obtain ⟨r, hr⟩ := Option.isSome_iff_exists.mp hsome
      refine hinv.hold (fun x hx => ?_) (fun x hx c hc => ?_) fun hsweeping x hx => ?_
      · obtain rfl := Finset.mem_singleton.mp hx
        exact (TreeKey.chunk bytes).ne_snapshotKey
      · obtain rfl := Finset.mem_singleton.mp hx
        obtain rfl | ⟨y, hy, -⟩ := cases_head hc
        · exact ⟨r, hr⟩
        · exact (hinv.sound.not_points_chunkHash bytes y hy).elim
      · obtain rfl := Finset.mem_singleton.mp hx
        obtain h | ⟨v, h⟩ | h := hshield hsweeping
        · exact Or.inl h
        · exact needed_of_held h
        · rw [h] at hr
          cases hr
    · exact hinv
  | storeEntry w r void hw hr hvoid => exact hinv.storeEntry hw hr hvoid hshield
  | report w k hk => exact hinv.report hk
  | flushBatch w rs hw hrs => exact hinv.flushBatch hrs hshield
  | flushBatchAndUpdateHead w rs root hw hrs htree hroot => exact (hinv.flushBatch hrs hshield).updateHead htree hroot
  | updateHead w root hw htree hroot => exact hinv.updateHead htree hroot
  | beginGcRecheck hp => exact hinv.beginGcRecheck
  | preGcSnapshot name metadata now hp => exact hinv.record hp ⟨rfl, rfl, hinv.head⟩ rfl
  | pruneSnapshot name now hp => exact (hinv.pruneSnapshot hp).record hp ⟨rfl, rfl⟩ rfl
  | mark hp => exact hinv.mark hp hshield
  | drain live pending hp hpending => exact hinv.drain hp hpending
  | scan live hp => exact hinv.scan hp hshield
  | verify candidates hp => exact hinv.verify hp
  | remove freed hp => exact hinv.remove hp
  | registerVoids freed hp => exact hinv.registerVoids hp
  | endGcRecheck hp => exact hinv.aborted

omit [DecidableEq ι] [DecidableEq H] in
lemma Start.inv (h : Start hs st) : Inv hs st := by
  refine ⟨⟨h.sound, fun root hroot => (h.head root hroot).1, by simp [h.held], fun c hc => ?_, h.voids, fun k hk => ?_⟩, ?_⟩
  · obtain ⟨root, hroot, hc⟩ | ⟨w, k, hk, -⟩ := hc
    · exact (h.head root hroot).2 c hc
    · simp [h.held] at hk
  · obtain hk | ⟨w, hw⟩ := hk
    · simp [h.recheck] at hk
    · simp [h.unreported] at hw
  · simp [PhaseSafe, h.phase]

theorem head_readable_beside_collection {st' : World ι H} (hstart : Start hs st)
    (hrun : Relation.ReflTransGen (ShieldedStep hs) st st') : Readable st' := by
  have hinv : Inv hs st' := by
    induction hrun with
    | refl => exact hstart.inv
    | tail _ hstep ih => exact ih.step hstep
  intro root c hroot hc
  obtain ⟨r, hr⟩ := hinv.present c (Or.inl ⟨root, hroot, hc⟩)
  exact ⟨r, hr, hinv.sound.key_eq hr⟩

abbrev emptyRoot : Digest := hasher.directoryContentHash (.flat [])

def newDatabase : World Unit Digest where
  heap := ⟨fun h => if h = emptyRoot then some ⟨0, false⟩ else none, [⟨.directoryIndex, emptyRoot, .dir (.flat []), 0⟩]⟩
  head := some emptyRoot
  voids := ∅
  recheck := none
  phase := .idle
  held _ := ∅
  unreported _ := none

def exampleChunk : LogEntry Digest := ⟨.chunk, hasher.chunkHash [7], .chunk [7], 0⟩

def exampleFile : LogEntry Digest where
  entryType := .fileRecord
  key := hasher.fileIdentityHash ['/', 'f'] none [exampleChunk.key]
  value := .file ⟨['/', 'f'], none, 1, 0, 0, [], hasher.compute (.whole [7]), [exampleChunk.key]⟩
  timestamp := 0

def exampleChildren : List (ChildEntry Digest) := [⟨.fileRecord, exampleFile.key, 1, 0, 0, ['f'], none, 0, 0⟩]

def exampleRoot : LogEntry Digest :=
  ⟨.directoryIndex, hasher.directoryContentHash (.flat exampleChildren), .dir (.flat exampleChildren), 0⟩

def storeAndReport (st : World Unit Digest) (r : LogEntry Digest) : World Unit Digest :=
  (st.storeEntry () r none).recordGcRecheck () r.key

def publish (st : World Unit Digest) : World Unit Digest := (st.flushBatch () [exampleRoot]).updateHead exampleRoot.key

def collectTimes (n : ℕ) (st : World Unit Digest) : World Unit Digest := (collect hasher)^[n] st

def sweptPublish : World Unit Digest :=
  collectTimes 7 (publish (storeAndReport (storeAndReport (collectTimes 2 newDatabase) exampleChunk) exampleFile))

def latePublish : World Unit Digest :=
  publish (storeAndReport (collectTimes 7 (storeAndReport (collectTimes 2 newDatabase) exampleChunk)) exampleFile)

section

variable {st : World Unit Digest} {r : LogEntry Digest}

def undisturbed (st : World Unit Digest) : Bool :=
  (match st.phase with
  | .done => false
  | .begun => st.held () = ∅
  | _ => true) && st.unreported () = none

lemma shieldedStep_collect (h : undisturbed st = true) : ShieldedStep hasher st (st.collect hasher) := by
  obtain ⟨hphase, hunreported⟩ := Bool.and_eq_true_iff.mp h
  have hunreported : ∀ w, st.unreported w = none := fun _ => of_decide_eq_true hunreported
  cases hp : st.phase with
  | idle => exact ⟨.beginGcRecheck, trivial, by simp only [collect, hp]; exact .beginGcRecheck hp⟩
  | begun =>
    refine ⟨.mark, fun _ k hk => ?_, by simp only [collect, hp]; exact .mark hp⟩
    have hheld : st.held () = ∅ := by simpa [hp] using hphase
    simp [hheld] at hk
  | marked live => exact ⟨.drain, trivial, by simp only [collect, hp]; exact .drain live _ hp fun _ => Iff.rfl⟩
  | drained live => exact ⟨.scan, hunreported, by simp only [collect, hp]; exact .scan live hp⟩
  | scanned candidates => exact ⟨.verify, trivial, by simp only [collect, hp]; exact .verify candidates hp⟩
  | verified freed => exact ⟨.remove, trivial, by simp only [collect, hp]; exact .remove freed hp⟩
  | removed freed => exact ⟨.registerVoids, trivial, by simp only [collect, hp]; exact .registerVoids freed hp⟩
  | registered => exact ⟨.endGcRecheck, trivial, by simp only [collect, hp]; exact .endGcRecheck hp⟩
  | done => simp [hp] at hphase

lemma shieldedRun_collectTimes (n : ℕ) (h : ∀ i < n, undisturbed (collectTimes i st) = true) :
    Relation.ReflTransGen (ShieldedStep hasher) st (collectTimes n st) := by
  induction n with
  | zero => exact .refl
  | succ n ih =>
    refine (ih fun i hi => h i (by omega)).tail ?_
    have hsucc : collectTimes (n + 1) st = (collectTimes n st).collect Digest.hasher := Function.iterate_succ_apply' _ _ _
    rw [hsucc]
    exact shieldedStep_collect (h n (by omega))

lemma shieldedRun_storeAndReport (hw : st.unreported () = none) (hr : Writable hasher (st.held ()) [r])
    (hphase : (st.phase matches .verified _) = false) : Relation.ReflTransGen (ShieldedStep hasher) st (storeAndReport st r) := by
  have hstore : ShieldedStep hasher st (st.storeEntry () r none) :=
    ⟨.storeEntry () r none, fun freed hp => by simp [hp] at hphase, .storeEntry () r none hw hr (by simp)⟩
  have hreport : ShieldedStep hasher (st.storeEntry () r none) (storeAndReport st r) :=
    ⟨.report (), trivial, .report () r.key (by simp [storeEntry])⟩
  exact (single hstore).tail hreport

lemma writable_exampleChunk (held : Finset Digest) : Writable hasher held [exampleChunk] := by
  refine ⟨fun r hr => ?_, fun r hr => ?_, fun r hr c hc => ?_⟩ <;> obtain rfl := mem_singleton.mp hr
  · exact ⟨rfl, rfl⟩
  · simp [exampleChunk]
  · cases hc

variable {held : Finset Digest}

lemma writable_exampleFile (h : exampleChunk.key ∈ held) : Writable hasher held [exampleFile] := by
  refine ⟨fun r hr => ?_, fun r hr => ?_, fun r hr c hc => ?_⟩ <;> obtain rfl := mem_singleton.mp hr
  · refine ⟨rfl, Or.inr (Or.inr ⟨_, _, rfl⟩), fun c hc => ?_⟩
    obtain rfl := mem_singleton.mp hc
    exact ⟨[7], rfl⟩
  · simp [exampleFile]
  · obtain rfl := mem_singleton.mp hc
    exact Or.inl h

lemma writable_exampleRoot (h : exampleFile.key ∈ held) : Writable hasher held [exampleRoot] := by
  refine ⟨fun r hr => ?_, fun r hr => ?_, fun r hr c hc => ?_⟩ <;> obtain rfl := mem_singleton.mp hr
  · refine ⟨rfl, Or.inl rfl, fun c hc => ?_⟩
    obtain rfl := mem_singleton.mp hc
    exact ⟨rfl, .file _ _ _⟩
  · simp [exampleRoot]
  · obtain rfl := mem_singleton.mp hc
    exact Or.inl h

variable (st) in
lemma step_publish (hw : st.unreported () = none) (h : exampleFile.key ∈ st.held ()) :
    Step hasher st (.flushBatchAndUpdateHead () [exampleRoot] exampleRoot.key) (publish st) :=
  .flushBatchAndUpdateHead () [exampleRoot] exampleRoot.key hw (writable_exampleRoot h) (.directory _)
    (mem_hold_self (mem_toFinset.mpr (mem_singleton_self _)))

end

lemma start_newDatabase : Start hasher newDatabase := by
  have hentry {h : Digest} {r : LogEntry Digest} (hr : newDatabase.heap.entry h = some r) : h = emptyRoot ∧ r.value = .dir (.flat []) := by
    obtain ⟨i, hi, hr⟩ := Option.bind_eq_some_iff.mp hr
    obtain ⟨hi, -⟩ := Option.filter_eq_some_iff.mp hi
    have hh : h = emptyRoot := by
      by_contra hne
      simp [newDatabase, hne] at hi
    subst hh
    simp only [newDatabase, if_true, Option.some.injEq] at hi
    subst hi
    obtain rfl : _ = r := Option.some.inj hr
    exact ⟨rfl, rfl⟩
  refine ⟨⟨fun r hr => ?_, fun h i hi => ?_⟩, fun root hroot => ?_, by simp [newDatabase], rfl, rfl, fun _ => rfl, fun _ => rfl⟩
  · obtain rfl := mem_singleton.mp hr
    exact ⟨rfl, Or.inl rfl, by simp⟩
  · obtain ⟨hi, -⟩ := Option.filter_eq_some_iff.mp hi
    have hh : h = emptyRoot := by
      by_contra hne
      simp [newDatabase, hne] at hi
    subst hh
    simp only [newDatabase, if_true, Option.some.injEq] at hi
    subst hi
    exact ⟨_, rfl, rfl⟩
  · obtain rfl : emptyRoot = root := Option.some.inj hroot
    refine ⟨.directory _, fun c hc => ?_⟩
    obtain rfl | ⟨k, ⟨r, hr, hk⟩, -⟩ := cases_head hc
    · exact ⟨_, rfl⟩
    · rw [(hentry hr).2] at hk
      cases hk

theorem published_root_swept :
    Start Digest.hasher newDatabase ∧
      Relation.ReflTransGen (fun a b => ∃ action, Step Digest.hasher a action b) newDatabase sweptPublish ∧
      (sweptPublish.phase matches .done) = true ∧ sweptPublish.unreported () = none ∧ ¬ Readable sweptPublish := by
  have hany {a b : World Unit Digest} (h : Relation.ReflTransGen (ShieldedStep hasher) a b) :
      Relation.ReflTransGen (fun a b => ∃ action, Step hasher a action b) a b :=
    mono (fun _ _ ⟨action, _, hstep⟩ => ⟨action, hstep⟩) _ _ h
  have hstored : Relation.ReflTransGen (ShieldedStep hasher) newDatabase
      (storeAndReport (storeAndReport (collectTimes 2 newDatabase) exampleChunk) exampleFile) :=
    ((shieldedRun_collectTimes 2 (by decide)).trans
      (shieldedRun_storeAndReport (by decide) (writable_exampleChunk _) (by decide))).trans
      (shieldedRun_storeAndReport (by decide) (writable_exampleFile (by decide)) (by decide))
  have hpublish := step_publish (storeAndReport (storeAndReport (collectTimes 2 newDatabase) exampleChunk) exampleFile)
    (by decide) (by decide)
  refine ⟨start_newDatabase, ?_, by decide, by decide, fun hreadable => ?_⟩
  · exact ((hany hstored).tail ⟨_, hpublish⟩).trans (hany (shieldedRun_collectTimes 7 (by decide)))
  · obtain ⟨r, hr, -⟩ := hreadable exampleRoot.key exampleRoot.key (by decide) .refl
    have hnone : (sweptPublish.heap.entry exampleRoot.key).isNone = true := by decide
    rw [hr] at hnone
    cases hnone

theorem late_publish_readable :
    (Start Digest.hasher newDatabase ∧ Relation.ReflTransGen (ShieldedStep Digest.hasher) newDatabase latePublish) ∧ Readable latePublish := by
  have hrun : Relation.ReflTransGen (ShieldedStep hasher) newDatabase
      (storeAndReport (collectTimes 7 (storeAndReport (collectTimes 2 newDatabase) exampleChunk)) exampleFile) :=
    (((shieldedRun_collectTimes 2 (by decide)).trans
      (shieldedRun_storeAndReport (by decide) (writable_exampleChunk _) (by decide))).trans
      (shieldedRun_collectTimes 7 (by decide))).trans
      (shieldedRun_storeAndReport (by decide) (writable_exampleFile (by decide)) (by decide))
  have hsweeping : (storeAndReport (collectTimes 7 (storeAndReport (collectTimes 2 newDatabase) exampleChunk)) exampleFile).phase.sweeping = false := by
    decide
  have hpublish : ShieldedStep hasher _ latePublish :=
    ⟨.flushBatchAndUpdateHead () [exampleRoot] exampleRoot.key, fun h => (Bool.false_ne_true (hsweeping.symm.trans h)).elim,
      step_publish _ (by decide) (by decide)⟩
  exact ⟨⟨start_newDatabase, hrun.tail hpublish⟩, head_readable_beside_collection start_newDatabase (hrun.tail hpublish)⟩

end AeorDb.Gc
