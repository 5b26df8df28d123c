import AeorDb.Dir.CopyEnds

/-! A directory with a blank name: its path normalizes to its parent's, and recursive copy never gets past it. -/

namespace AeorDb.Dir

open Store BTree Library Trace Engine

variable {H : Type} [DecidableEq H] {hs : Hasher H} {e : Engine H} {c : ChildEntry H} {es : List (ChildEntry H)}

def blank : Str := "  ".toList
def copyTarget : Str := "/t".toList

structure Looping (hs : Hasher H) (e : Engine H) (c : ChildEntry H) (es : List (ChildEntry H)) : Prop where
  name : c.name = blank
  shape : es = [c] ∨ ∃ d, es = [c, d] ∧ d.name = "t".toList
  encodable : ∀ x ∈ es, x.Encodable
  key : e.get (hs.directoryPathHash ['/']) = some (.link (hs.directoryContentHash (.flat es)))
  content : e.get (hs.directoryContentHash (.flat es)) = some (.dir (.flat es))
  head : e.head = some (hs.directoryContentHash (.flat es))
  entryType : c.entryType = .directoryIndex
  live : e.hasEntry (hs.directoryPathHash ('/' :: blank)) = true

section

variable {d : ChildEntry H}

section

omit [DecidableEq H]

lemma Looping.upsert (h : Looping hs e c es) (hd : d.name = "t".toList) : upsertChild es d = [c, d] := by
  have hne : c.name ≠ d.name := by
    rw [h.name, hd]
    decide
  rcases h.shape with rfl | ⟨d', rfl, hd'⟩
  · simp [upsertChild, hne]
  · have heq : d'.name = d.name := hd'.trans hd.symm
    simp [upsertChild, hne, heq]

lemma name_directoryChild (hs : Hasher H) (r : Rewritten H) (now : ℤ) : (directoryChild hs copyTarget r now).name = "t".toList := by
  have hname : (fileName copyTarget).getD [] = "t".toList := by decide
  exact hname

lemma encodable_directoryChild (hs : Hasher H) (r : Rewritten H) (now : ℤ) : (directoryChild hs copyTarget r now).Encodable := by
  have hfits : utf8Len "t".toList ≤ u16Max ∧ utf8Len [] ≤ u16Max := by decide
  refine ⟨?_, hfits.2, by simp [directoryChild]⟩
  rw [name_directoryChild]
  exact hfits.1

end

variable (h : Looping hs e c es)

include h

lemma Looping.existingData_eq : existingData hs e ['/'] = .ok (some (.dir (.flat es))) := by
  have hsegments : splitSegments (normalizePath ['/']) = [] := by decide
  have hrec : recoverDirectoryDataIfStale e ['/'] (hs.directoryPathHash ['/']) = .ok none := by
    simp [recoverDirectoryDataIfStale, h.key, h.head, hsegments, walk, bind, Except.bind]
  rw [existingData, hrec]
  simp [readDirectoryData, h.key, h.content, bind, Except.bind]

lemma Looping.listDirectory_eq : listDirectory hs ['/'] e = .ok (es.filter (isLiveChild hs e ['/'])) e := by
  have hroot : normalizePath ['/'] = ['/'] := by decide
  have hsegments : splitSegments ['/'] = [] := by decide
  have hrec : recoverDirectoryDataIfStale e ['/'] (hs.directoryPathHash ['/']) = .ok none := by
    simp [recoverDirectoryDataIfStale, h.key, h.head, hroot, hsegments, walk, bind, Except.bind]
  have hdata : readDirectoryData e (hs.directoryPathHash ['/']) = some (.dir (.flat es)) := by
    simp [readDirectoryData, h.key, h.content]
  simp only [listDirectory, hroot, hrec, hdata, EngineM.query, bind, EStateM.bind, listData, childrenOf]

lemma Looping.declared : Looping hs (declared hs e copyTarget) c es := by
  have hroot : hs.directoryPathHash ['/'] ≠ hs.directoryPathHash copyTarget := by
    rw [Ne, directoryPathHash_inj]
    decide
  refine ⟨h.name, h.shape, h.encodable, ?_, (declared_grows _).flat es h.content, h.head, h.entryType, ?_⟩
  · rw [get_declared_other (notContent_directoryPathHash _) hroot, h.key]
  · exact hasEntry_storeEntry_of_live (hasEntry_storeEntry_of_live h.live)

lemma Looping.rewrite (hd : d.name = "t".toList) (henc : d.Encodable) :
    rewriteWith hs (some (.dir (.flat es))) d e = .ok ⟨.flat [c, d], hs.directoryContentHash (.flat [c, d]),
      [(.directoryIndex, hs.directoryContentHash (.flat [c, d]), .dir (.flat [c, d]))]⟩ e := by
  have hc : c.Encodable := by
    refine h.encodable c ?_
    rcases h.shape with rfl | ⟨d, rfl, _⟩ <;> simp
  have hes : ∀ x ∈ [c, d], x.Encodable := by simpa using ⟨hc, henc⟩
  simp only [rewriteWith, EngineM.attempt, EngineM.query, bind, EStateM.bind, flatChildren, h.upsert hd, writeFlat,
    serializeChildEntries_of_encodable _ hes]
  rfl

def rerooted (hs : Hasher H) (e : Engine H) (es : List (ChildEntry H)) : Engine H :=
  ((e.storeEntry .directoryIndex (hs.directoryContentHash (.flat es)) (.dir (.flat es))).storeEntry .directoryIndex
    (hs.directoryPathHash ['/']) (.link (hs.directoryContentHash (.flat es)))).updateHead (some (hs.directoryContentHash (.flat es)))

lemma Looping.publish (hd : d.name = "t".toList) (henc : d.Encodable) :
    updateParentDirectories hs copyTarget d e = .ok () (rerooted hs e [c, d]) := by
  have htarget : parentPath copyTarget = some ['/'] ∧ isSystemPath copyTarget = false := by decide
  have hlevel : ∀ depth, updateParentsFrom hs (depth + 1) copyTarget d [] e = .ok () (Dir.rerooted hs e [c, d]) := by
    intro depth
    simp only [updateParentsFrom, htarget.1, htarget.2, Bool.false_eq_true, and_false, if_false, bind, EStateM.bind,
      EngineM.query, h.existingData_eq, h.rewrite hd henc, if_true]
    rfl
  exact hlevel 999

lemma Looping.rerooted (hd : d.name = "t".toList) (henc : d.Encodable) : Looping hs (rerooted hs e [c, d]) c [c, d] where
  name := h.name
  shape := Or.inr ⟨d, rfl, hd⟩
  encodable := by
    have hc : c.Encodable := by
      refine h.encodable c ?_
      rcases h.shape with rfl | ⟨d, rfl, _⟩ <;> simp
    simpa using ⟨hc, henc⟩
  key := by simp [Dir.rerooted]
  content := by simp [Dir.rerooted, Hasher.directoryContentHash, Hasher.directoryPathHash]
  head := rfl
  entryType := h.entryType
  live := hasEntry_storeEntry_of_live (hasEntry_storeEntry_of_live h.live)

lemma Looping.createDirectory : ∃ es', Looping hs (final (createDirectory hs copyTarget e)) c es' := by
  have htarget : normalizePath copyTarget = copyTarget ∧ copyTarget ≠ ['/'] := by decide
  obtain ⟨now, hcreate⟩ : ∃ now, Dir.createDirectory hs copyTarget e = updateParentDirectories hs copyTarget
      (directoryChild hs copyTarget (emptyDirectory hs) now) (Dir.declared hs e copyTarget) := by
    unfold Dir.createDirectory
    simp only [htarget.1, if_neg htarget.2]
    exact ⟨_, rfl⟩
  have hd := name_directoryChild hs (emptyDirectory hs) now
  have henc := encodable_directoryChild hs (emptyDirectory hs) now
  rw [hcreate, h.declared.publish hd henc]
  exact ⟨_, h.declared.rerooted hd henc⟩

end

lemma Looping.copyPath (h : Looping hs e c es) (fuel : ℕ) {source target : Str} (hsource : normalizePath source = ['/'])
    (htarget : normalizePath target = copyTarget) : ∃ e', copyPath hs fuel source target e = .ok none e' := by
  induction fuel generalizing e es source target with
  | zero => exact ⟨e, rfl⟩
  | succ fuel ih =>
    have hdir : e.hasEntry (hs.directoryPathHash ['/']) = true := (hasEntry_iff _ _).mpr ⟨_, h.key⟩
    obtain ⟨es', h'⟩ := h.createDirectory
    have hlive : isLiveChild hs (final (Dir.createDirectory hs copyTarget e)) ['/'] c = true := by
      simp only [isLiveChild, h'.entryType, h'.name]
      exact h'.live
    obtain ⟨rest, hlist⟩ : ∃ rest, es'.filter (isLiveChild hs (final (Dir.createDirectory hs copyTarget e)) ['/']) = c :: rest := by
      rcases h'.shape with rfl | ⟨d, rfl, _⟩ <;> simp [List.filter_cons, hlive]
    have hchild : normalizePath (trimEnd (· = '/') ['/'] ++ '/' :: c.name) = ['/'] ∧
        normalizePath (trimEnd (· = '/') copyTarget ++ '/' :: c.name) = copyTarget := by
      rw [h.name]
      decide
    obtain ⟨e', hcopy⟩ := ih h' hchild.1 hchild.2
    refine ⟨e', ?_⟩
    simp only [Dir.copyPath, hsource, htarget, bind, EStateM.bind, EngineM.query, hdir, if_true, EngineM.ignore,
      h'.listDirectory_eq, hlist, copyChildren, hcopy]
    rfl

def blankDirectory : Engine Digest :=
  final (storeFileBuffered Digest.hasher plainEnv "/  /   /f".toList [7] none
    (final (storeFileBuffered Digest.hasher plainEnv "/  /g".toList [7] none start)))

def rootEntries (e : Engine Digest) : List (ChildEntry Digest) :=
  match readDirectoryData e (Digest.hasher.directoryPathHash ['/']) with
  | some (.dir (.flat es)) => es
  | _ => []

lemma looping_blankDirectory : ∃ c es, Looping Digest.hasher blankDirectory c es := by
  have hone : (rootEntries blankDirectory).map (fun c => (c.name, c.entryType)) = [(blank, .directoryIndex)] := by decide
  obtain ⟨c, hc, hname⟩ := List.map_eq_singleton_iff.mp hone
  obtain ⟨hblank, htype⟩ := Prod.mk.inj hname
  exact ⟨c, rootEntries blankDirectory, hblank, Or.inl hc, by decide, by decide, by decide,
    by decide, htype, by decide⟩

end AeorDb.Dir
