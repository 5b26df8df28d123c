import AeorDb.Gc.Coverage

/-! One garbage collection beside any number of file writers, as steps on what they share. -/

namespace AeorDb.Gc

open Store BTree Dir Library

/-- Where the collection stands. `live` is its mark set; `candidates` and `freed` pair a key with the position
it was indexed for. -/
inductive Phase (H : Type) where
  | idle
  | begun
  | marked (live : Finset H)
  | drained (live : Finset H)
  | scanned (candidates : List (H × ℕ))
  | verified (freed : List (H × ℕ))
  | removed (freed : List (H × ℕ))
  | registered
  | done

/-- The shared state, and what each writer keeps for itself: the keys it has read, stored or found present, and
the key it has stored but not yet reported to the collection. -/
structure World (ι H : Type) where
  heap : Heap H
  head : Option H
  voids : Finset ℕ
  recheck : Option (List H)
  phase : Phase H
  held : ι → Finset H
  unreported : ι → Option H

variable {ι H : Type} [DecidableEq ι] [DecidableEq H]

namespace Heap

variable (s : Heap H)

def append (r : LogEntry H) : Heap H := ⟨Function.update s.index r.key (some ⟨s.cells.length, false⟩), s.cells ++ [r]⟩

def overwrite (p : ℕ) (r : LogEntry H) : Heap H := ⟨Function.update s.index r.key (some ⟨p, false⟩), s.cells.set p r⟩

def remove (k : H) : Heap H := ⟨Function.update s.index k ((s.index k).map fun i => { i with deleted := true }), s.cells⟩

def put (void : Option ℕ) (r : LogEntry H) : Heap H :=
  match void with
  | none => s.append r
  | some p => s.overwrite p r

end Heap

namespace World

variable (hs : Hasher H) (st : World ι H)

section

variable (w : ι)

def hold (ks : Finset H) : World ι H := { st with held := Function.update st.held w (ks ∪ st.held w) }

def readHead : World ι H := st.hold w st.head.toFinset

def checkChunk (bytes : List UInt8) : World ι H :=
  if (st.heap.entry (hs.chunkHash bytes)).isSome then st.hold w {hs.chunkHash bytes} else st

def storeEntry (r : LogEntry H) (void : Option ℕ) : World ι H :=
  { st.hold w {r.key} with
    heap := st.heap.put void r
    voids := st.voids \ void.toFinset
    unreported := Function.update st.unreported w (some r.key) }

def recordGcRecheck (k : H) : World ι H :=
  { st with recheck := st.recheck.map (k :: ·), unreported := Function.update st.unreported w none }

def flushBatch (rs : List (LogEntry H)) : World ι H :=
  { st.hold w (rs.map LogEntry.key).toFinset with heap := rs.foldl Heap.append st.heap }

def updateHead (root : H) : World ι H := { st with head := some root }

end

def aborted : World ι H := { st with phase := .done, recheck := none }

def beginGcRecheck : World ι H := { st with phase := .begun, recheck := some [] }

def record (r : LogEntry H) : World ι H := { st with heap := st.heap.append r, recheck := st.recheck.map (r.key :: ·) }

def dropSnapshot (name : Str) : World ι H := { st with heap := st.heap.remove (hs.snapshotKey name) }

def mark : World ι H :=
  match gcMark hs st.heap st.head with
  | .ok live => { st with phase := .marked live }
  | .error _ => st.aborted

def drain (live : Finset H) (pending : List H) : World ι H :=
  if pending = [] then { st with phase := .drained live }
  else
    match pending.foldlM (fun live h => markEntry hs st.heap h [] live) live with
    | .ok live => { st with phase := .marked live, recheck := some [] }
    | .error _ => st.aborted

def candidates (live : Finset H) : List (H × ℕ) :=
  (st.heap.iterKvEntries.map fun (r, p) => (r.key, p)).filter fun x => x.1 ∉ live ∧ x.1 ∉ st.recheck.getD []

def scan (live : Finset H) : World ι H := { st with phase := .scanned (st.candidates live) }

def verify (candidates : List (H × ℕ)) : World ι H :=
  { st with phase := .verified (candidates.filter fun x => (st.heap.getKvEntry x.1).map IndexEntry.offset = some x.2) }

def remove (freed : List (H × ℕ)) : World ι H :=
  { st with heap := (freed.map Prod.fst).foldl Heap.remove st.heap, phase := .removed freed }

def registerVoids (freed : List (H × ℕ)) : World ι H :=
  { st with voids := (freed.map Prod.snd).toFinset ∪ st.voids, phase := .registered }

end World

inductive Action (ι H : Type) where
  | readHead (w : ι)
  | readRef (w : ι) (k c : H)
  | checkChunk (w : ι) (bytes : List UInt8)
  | storeEntry (w : ι) (r : LogEntry H) (void : Option ℕ)
  | report (w : ι)
  | flushBatch (w : ι) (rs : List (LogEntry H))
  | flushBatchAndUpdateHead (w : ι) (rs : List (LogEntry H)) (root : H)
  | updateHead (w : ι) (root : H)
  | beginGcRecheck
  | preGcSnapshot (name : Str) (metadata : List (Str × Str)) (now : ℤ)
  | pruneSnapshot (name : Str) (now : ℤ)
  | mark
  | drain
  | scan
  | verify
  | remove
  | registerVoids
  | endGcRecheck

structure Writable (hs : Hasher H) (held : Finset H) (rs : List (LogEntry H)) : Prop where
  typed : ∀ r ∈ rs, Typed hs r
  kind : ∀ r ∈ rs, r.entryType ≠ .snapshot
  refs : ∀ r ∈ rs, ∀ c ∈ refs r.value, c ∈ held ∨ ∃ r' ∈ rs, r'.key = c

inductive Step (hs : Hasher H) (st : World ι H) : Action ι H → World ι H → Prop
  | readHead (w : ι) (hw : st.unreported w = none) : Step hs st (.readHead w) (st.readHead w)
  | readRef (w : ι) (k c : H) (hw : st.unreported w = none) (hk : k ∈ st.held w) (hc : Points st.heap k c) :
    Step hs st (.readRef w k c) (st.hold w {c})
  | checkChunk (w : ι) (bytes : List UInt8) (hw : st.unreported w = none) :
    Step hs st (.checkChunk w bytes) (st.checkChunk hs w bytes)
  | storeEntry (w : ι) (r : LogEntry H) (void : Option ℕ) (hw : st.unreported w = none) (hr : Writable hs (st.held w) [r])
    (hvoid : ∀ p, void = some p → p ∈ st.voids ∧ r.entryType = .chunk) :
    Step hs st (.storeEntry w r void) (st.storeEntry w r void)
  | report (w : ι) (k : H) (hk : st.unreported w = some k) : Step hs st (.report w) (st.recordGcRecheck w k)
  | flushBatch (w : ι) (rs : List (LogEntry H)) (hw : st.unreported w = none) (hrs : Writable hs (st.held w) rs) :
    Step hs st (.flushBatch w rs) (st.flushBatch w rs)
  | flushBatchAndUpdateHead (w : ι) (rs : List (LogEntry H)) (root : H) (hw : st.unreported w = none)
    (hrs : Writable hs (st.held w) rs) (htree : TreeKey hs root) (hroot : root ∈ (st.flushBatch w rs).held w) :
    Step hs st (.flushBatchAndUpdateHead w rs root) ((st.flushBatch w rs).updateHead root)
  | updateHead (w : ι) (root : H) (hw : st.unreported w = none) (htree : TreeKey hs root) (hroot : root ∈ st.held w) :
    Step hs st (.updateHead w root) (st.updateHead root)
  | beginGcRecheck (hp : st.phase = .idle) : Step hs st .beginGcRecheck st.beginGcRecheck
  | preGcSnapshot (name : Str) (metadata : List (Str × Str)) (now : ℤ) (hp : st.phase = .begun) :
    Step hs st (.preGcSnapshot name metadata now)
      (st.record ⟨.snapshot, hs.snapshotKey name, .snapshot ⟨name, st.head, now, metadata⟩, now⟩)
  | pruneSnapshot (name : Str) (now : ℤ) (hp : st.phase = .begun) :
    Step hs st (.pruneSnapshot name now)
      ((st.dropSnapshot hs name).record
        ⟨.deletionRecord, hs.deletionKey ("snap:".toList ++ name) now, .deletion ⟨"snap:".toList ++ name, now, none⟩, now⟩)
  | mark (hp : st.phase = .begun) : Step hs st .mark (st.mark hs)
  | drain (live : Finset H) (pending : List H) (hp : st.phase = .marked live)
    (hpending : ∀ h, h ∈ pending ↔ h ∈ st.recheck.getD []) : Step hs st .drain (st.drain hs live pending)
  | scan (live : Finset H) (hp : st.phase = .drained live) : Step hs st .scan (st.scan live)
  | verify (candidates : List (H × ℕ)) (hp : st.phase = .scanned candidates) : Step hs st .verify (st.verify candidates)
  | remove (freed : List (H × ℕ)) (hp : st.phase = .verified freed) : Step hs st .remove (st.remove freed)
  | registerVoids (freed : List (H × ℕ)) (hp : st.phase = .removed freed) : Step hs st .registerVoids (st.registerVoids freed)
  | endGcRecheck (hp : st.phase = .registered) : Step hs st .endGcRecheck st.aborted

def World.collect (hs : Hasher H) (st : World ι H) : World ι H :=
  match st.phase with
  | .idle => st.beginGcRecheck
  | .begun => st.mark hs
  | .marked live => st.drain hs live (st.recheck.getD [])
  | .drained live => st.scan live
  | .scanned candidates => st.verify candidates
  | .verified freed => st.remove freed
  | .removed freed => st.registerVoids freed
  | .registered | .done => st.aborted

def Dead (s : Heap H) (p : ℕ) : Prop := ∀ h i, s.getKvEntry h = some i → i.offset ≠ p

structure Start (hs : Hasher H) (st : World ι H) : Prop where
  sound : Sound hs st.heap
  head : ∀ root, st.head = some root → TreeKey hs root ∧ ∀ c, Reach st.heap root c → ∃ r, st.heap.entry c = some r
  voids : ∀ p ∈ st.voids, p < st.heap.cells.length ∧ Dead st.heap p
  phase : st.phase = .idle
  recheck : st.recheck = none
  held : ∀ w, st.held w = ∅
  unreported : ∀ w, st.unreported w = none

def Readable (st : World ι H) : Prop :=
  ∀ root c, st.head = some root → Reach st.heap root c → ∃ r, st.heap.entry c = some r ∧ r.key = c

def InHead (st : World ι H) (h : H) : Prop := ∃ root, st.head = some root ∧ Reach st.heap root h

def Pending (st : World ι H) (h : H) : Prop := h ∈ st.recheck.getD [] ∨ ∃ w, st.unreported w = some h

def Phase.sweeping : Phase H → Bool
  | .marked _ | .drained _ | .scanned _ | .verified _ => true
  | _ => false

/-- The steps that the recheck set protects. While the marks are taken, everything a writer works with belongs
to HEAD or was stored by it since the collection began; after that, batches bring no new keys and only chunks of
HEAD or of some writer are reused; nothing is left unreported when the index is scanned; and a key about to be
removed is not stored again. -/
def Shielded (hs : Hasher H) (st : World ι H) : Action ι H → Prop
  | .mark => ∀ w, ∀ h ∈ st.held w, InHead st h ∨ Pending st h
  | .checkChunk _ bytes => st.phase.sweeping = true →
    InHead st (hs.chunkHash bytes) ∨ (∃ w, hs.chunkHash bytes ∈ st.held w) ∨ st.heap.entry (hs.chunkHash bytes) = none
  | .flushBatch _ rs | .flushBatchAndUpdateHead _ rs _ => st.phase.sweeping = true →
    ∀ r ∈ rs, InHead st r.key ∨ ∃ w, r.key ∈ st.held w
  | .scan => ∀ w, st.unreported w = none
  | .storeEntry _ r _ => ∀ freed, st.phase = .verified freed → ∀ x ∈ freed, x.1 ≠ r.key
  | _ => True

def ShieldedStep (hs : Hasher H) (st st' : World ι H) : Prop := ∃ a, Shielded hs st a ∧ Step hs st a st'

end AeorDb.Gc
