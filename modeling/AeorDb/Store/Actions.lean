import AeorDb.Library.Result
import AeorDb.Library.Trace
import AeorDb.Store.Engine

/-! The changes an engine goes through, one at a time, and programs made of them. -/

namespace AeorDb.Store

open Library List Engine

inductive Action (H : Type) where
  | store (t : EntryType) (k : H) (v : Value H)
  | markDeleted (k : H)
  | updateHead (r : Option H)
  | claimAutoSnapshot (time : ℤ)
  | tick

variable {H α : Type} [DecidableEq H]

def Engine.act (e : Engine H) : Action H → Engine H
  | .store t k v => e.storeEntry t k v
  | .markDeleted k => e.markDeleted k
  | .updateHead r => e.updateHead r
  | .claimAutoSnapshot t => { e with lastAutoSnapshotDelete := t }
  | .tick => e.tick

namespace EngineM

def query (f : Engine H → EngineResult α) : EngineM H α := fun e =>
  match f e with
  | .ok a => .ok a e
  | .error err => .error err e

def perform (a : Action H) : EngineM H Unit := fun e => .ok () (e.act a)

def now : EngineM H ℤ := fun e => .ok e.now e.tick

def ignore (m : EngineM H α) : EngineM H Unit := fun e => .ok () (Trace.final (m e))

def flush (batch : WriteBatch H) : EngineM H Unit := batch.forM fun w => perform (.store w.1 w.2.1 w.2.2)

def attempt (r : EngineResult α) : EngineM H α := query fun _ => r

section

variable {e e' : Engine H} {a : α} {f : Engine H → EngineResult α}

omit [DecidableEq H] in
lemma query_eq_ok : query f e = .ok a e' ↔ f e = .ok a ∧ e' = e := by
  unfold query
  cases h : f e with
  | ok b => simp [eq_comm]
  | error err => simp

lemma perform_eq_ok {b : Action H} {u : Unit} : perform b e = .ok u e' ↔ e' = e.act b := by
  simp [perform, eq_comm]

omit [DecidableEq H] in
lemma now_eq_ok {t : ℤ} : now e = .ok t e' ↔ t = e.now ∧ e' = e.tick := by
  simp [now, eq_comm]

lemma flush_eq_ok {batch : WriteBatch H} {u : Unit} : flush batch e = .ok u e' ↔ e' = e.flushBatch batch := by
  induction batch generalizing e with
  | nil => simp [flush, flushBatch, Result.estate_pure_eq_ok, eq_comm]
  | cons w batch ih =>
    have hbind : flush (w :: batch) = perform (.store w.1 w.2.1 w.2.2) >>= fun _ => flush batch := rfl
    rw [hbind, Result.estate_bind_eq_ok]
    simp only [perform_eq_ok, ih]
    simp [flushBatch, act]

end

variable {P : Action H → Prop}

lemma performs_query (f : Engine H → EngineResult α) : Trace.Performs act P (query f) := by
  intro e
  unfold query
  cases f e with
  | ok a => exact .refl
  | error err => exact .refl

lemma performs_perform {a : Action H} (ha : P a) : Trace.Performs act P (perform a) := fun _ => .single ha

lemma performs_now (h : P .tick) : Trace.Performs act P now := fun _ => .single h

lemma performs_ignore {m : EngineM H α} (h : Trace.Performs act P m) : Trace.Performs act P (ignore m) := h

lemma performs_flush {batch : WriteBatch H} (h : ∀ w ∈ batch, P (.store w.1 w.2.1 w.2.2)) : Trace.Performs act P (flush batch) := by
  induction batch with
  | nil => exact .pure _
  | cons w batch ih =>
    obtain ⟨hw, hb⟩ := forall_mem_cons.mp h
    exact .bind (performs_perform hw) fun _ => ih hb

end EngineM

def Engine.Sound (G : H → Value H → Prop) (e : Engine H) : Prop := ∀ k v, e.get k = some v → G k v

namespace EngineM

variable {G : H → Value H → Prop} {Q : α → Prop}

omit [DecidableEq H] in
lemma maintains_query {f : Engine H → EngineResult α}
    (h : ∀ e, Engine.Sound G e → ∀ a, f e = .ok a → Q a) : Trace.Maintains (Engine.Sound G) (query f) Q := by
  refine fun e he => ⟨?_, fun a t ha => h e he a (query_eq_ok.mp ha).1⟩
  unfold query
  cases f e with
  | ok a => exact he
  | error err => exact he

omit [DecidableEq H] in
lemma maintains_attempt {r : EngineResult α} (h : ∀ a, r = .ok a → Q a) :
    Trace.Maintains (Engine.Sound G) (attempt r) Q := maintains_query fun _ _ => h

lemma maintains_store {k : H} {v : Value H} (t : EntryType) (h : G k v) :
    Trace.Maintains (Engine.Sound G) (perform (.store t k v)) fun _ => True := by
  refine fun e he => ⟨fun k' v' hget => ?_, fun _ _ _ => trivial⟩
  change (e.storeEntry t k v).get k' = some v' at hget
  rw [get_storeEntry] at hget
  split_ifs at hget with hk
  · cases hget
    exact hk ▸ h
  · exact he k' v' hget

omit [DecidableEq H] in
lemma maintains_now : Trace.Maintains (Engine.Sound G) (now : EngineM H ℤ) fun _ => True :=
  fun _ he => ⟨he, fun _ _ _ => trivial⟩

omit [DecidableEq H] in
lemma maintains_ignore {m : EngineM H α} (h : Trace.Maintains (Engine.Sound G) m Q) :
    Trace.Maintains (Engine.Sound G) (ignore m) fun _ => True := fun e he => ⟨(h e he).1, fun _ _ _ => trivial⟩

lemma maintains_flush {batch : WriteBatch H} (h : ∀ w ∈ batch, G w.2.1 w.2.2) :
    Trace.Maintains (Engine.Sound G) (flush batch) fun _ => True := .forM fun w hw => maintains_store w.1 (h w hw)

end EngineM

namespace Engine

variable {P : Action H → Prop} {e e' : Engine H} {k : H}

section

variable (h : Trace.Ran act P e e') (hs : ∀ t v, ¬ P (.store t k v)) (hm : ¬ P (.markDeleted k))
include h hs hm

lemma getEntry_eq_of_ran :
    e'.getEntry k = e.getEntry k := by
  refine h.invariant (I := fun s => s.getEntry k = e.getEntry k) ?_ rfl
  intro s a ha hI
  cases a with
  | store t k' v =>
    have hne : k ≠ k' := fun heq => hs t v (heq ▸ ha)
    rw [act, getEntry_storeEntry, if_neg hne, hI]
  | markDeleted k' =>
    have hne : k ≠ k' := fun heq => hm (heq ▸ ha)
    rw [act, getEntry_markDeleted, if_neg hne, hI]
  | updateHead r => exact hI
  | claimAutoSnapshot t => exact hI
  | tick => exact hI

lemma get_eq_of_ran : e'.get k = e.get k := by
  rw [get, get, getEntry_eq_of_ran h hs hm]

end

variable {v : Value H}

lemma get_keep_of_ran (h : Trace.Ran act P e e') (hs : ∀ t w, P (.store t k w) → w = v)
    (hm : ¬ P (.markDeleted k)) (hv : e.get k = some v) : e'.get k = some v := by
  refine h.invariant (I := fun s => s.get k = some v) ?_ hv
  intro s a ha hI
  cases a with
  | store t k' w =>
    rw [act, get_storeEntry]
    split_ifs with hk
    · rw [hs t w (hk ▸ ha)]
    · exact hI
  | markDeleted k' =>
    have hne : k ≠ k' := fun heq => hm (heq ▸ ha)
    rw [act, get_markDeleted, if_neg hne, hI]
  | updateHead r => exact hI
  | claimAutoSnapshot t => exact hI
  | tick => exact hI

lemma hasEntry_storeEntry (e : Engine H) (t : EntryType) (k h : H) (v : Value H) :
    (e.storeEntry t k v).hasEntry h = (decide (h = k) || e.hasEntry h) := by
  unfold hasEntry
  rw [getEntry_storeEntry]
  split_ifs with hk <;> simp [hk]

lemma hasEntry_storeEntry_of_live {t : EntryType} {k h : H} (hlive : e.hasEntry h = true) :
    (e.storeEntry t k v).hasEntry h = true := by
  rw [hasEntry_storeEntry, hlive, Bool.or_true]

lemma Sound.of_ran {G : H → Value H → Prop} (hran : Trace.Ran act P e e') (hP : ∀ t k v, P (.store t k v) → G k v)
    (he : e.Sound G) : e'.Sound G := by
  refine hran.invariant (I := Sound G) (fun s a ha hI k v hv => ?_) he
  cases a with
  | store t k' v' =>
    rw [act, get_storeEntry] at hv
    split_ifs at hv with hk
    · cases hv
      exact hk ▸ hP t k' v ha
    · exact hI k v hv
  | markDeleted k' =>
    rw [act, get_markDeleted] at hv
    split_ifs at hv
    exact hI k v hv
  | updateHead r => exact hI k v hv
  | claimAutoSnapshot t => exact hI k v hv
  | tick => exact hI k v hv

variable {batch : WriteBatch H}

lemma get_flushBatch_of_ne (h : ∀ w ∈ batch, w.2.1 ≠ k) : (e.flushBatch batch).get k = e.get k := by
  induction batch generalizing e with
  | nil => rfl
  | cons w batch ih =>
    obtain ⟨hw, hb⟩ := forall_mem_cons.mp h
    rw [flushBatch, foldl_cons, ← flushBatch, ih hb, get_storeEntry, if_neg hw.symm]

lemma get_flushBatch_of_mem (h : ∀ w ∈ batch, ∀ w' ∈ batch, w.2.1 = w'.2.1 → w.2.2 = w'.2.2) {w : EntryType × H × Value H}
    (hw : w ∈ batch) : (e.flushBatch batch).get w.2.1 = some w.2.2 := by
  induction batch using List.reverseRecOn with
  | nil => cases hw
  | append_singleton batch x ih =>
    have hx : x ∈ batch ++ [x] := by simp
    rw [flushBatch, List.foldl_append, foldl_cons, foldl_nil, ← flushBatch, get_storeEntry]
    split_ifs with hk
    · rw [h w hw x hx hk]
    · have hmem : w ∈ batch := (mem_append.mp hw).resolve_right fun hw => hk (mem_singleton.mp hw ▸ rfl)
      exact ih (fun a ha b hb => h a (mem_append_left _ ha) b (mem_append_left _ hb)) hmem

lemma head_flushBatch : (e.flushBatch batch).head = e.head := by
  induction batch generalizing e with
  | nil => rfl
  | cons w batch ih => rw [flushBatch, foldl_cons, ← flushBatch, ih, head_storeEntry]

end Engine

end AeorDb.Store
