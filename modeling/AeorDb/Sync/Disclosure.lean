import AeorDb.Sync.LocalOnly
import AeorDb.Sync.Route

/-! What the sync routes show to a user with grants. -/

namespace AeorDb.Sync

open Library Store Dir Merge Version Auth Trace Digest List SyncServer

variable {H : Type} [DecidableEq H] {hs : Hasher H} {st st' : SyncServer H} {user : Uuid}

lemma toOption_getD_false {ε : Type} {x : Except ε Bool} : x.toOption.getD false = true ↔ x = .ok true := by
  cases x with
  | error err => exact ⟨fun h => (nomatch h), fun h => nomatch h⟩
  | ok b => exact ⟨congrArg Except.ok, Except.ok.inj⟩

omit [DecidableEq H] in
lemma isAllowed_iff {p : Str} : st.isAllowed user p = true ↔
    isSystemPath p = false ∧ isInternalPath p = false ∧ checkPathPermission st.policy user p .read = .ok true := by
  rw [isAllowed, Bool.and_eq_true, Bool.and_eq_true, Bool.not_eq_true', Bool.not_eq_true', toOption_getD_false, and_assoc]

section

variable {request : SyncDiffRequest}

def candidates (st : SyncServer H) (request : SyncDiffRequest) : List Str :=
  if request.paths.any fun paths => maxPathFilters < paths.length then []
  else ((st.allChanges false request).map SyncChanges.paths).toOption.getD []

def answered (hs : Hasher H) (st : SyncServer H) (user : Uuid) (request : SyncDiffRequest) : List Str :=
  ((st.syncDiff hs (.scopedUser user []) request).map fun response => response.changes.paths).toOption.getD []

lemma hideFrom_scopedUser (changes : SyncChanges H) : st.hideFrom hs (.scopedUser user []) changes =
    if st.userHasGrantScope hs user then changes.retain (st.isAllowed user) else changes := rfl

lemma mem_paths_hideFrom {changes : SyncChanges H} {p : Str} : p ∈ (st.hideFrom hs (.scopedUser user []) changes).paths ↔
    p ∈ changes.paths ∧ (st.userHasGrantScope hs user = true → st.isAllowed user p = true) := by
  rw [hideFrom_scopedUser]
  split_ifs with hscope
  · rw [mem_paths_retain]
    simp [hscope]
  · simp [hscope]

lemma mem_answered {p : Str} : p ∈ answered hs st user request ↔
    p ∈ candidates st request ∧ (st.userHasGrantScope hs user = true → st.isAllowed user p = true) := by
  rw [answered, candidates, syncDiff]
  split_ifs
  · simp [Except.map, Except.toOption]
  · change p ∈ (Except.map _ (st.allChanges false request >>= _)).toOption.getD [] ↔ _
    cases st.allChanges false request with
    | error err => simp [bind, Except.bind, Except.map, Except.toOption]
    | ok changes => exact mem_paths_hideFrom

end

def StoredChunk (st : SyncServer H) (h : H) (data : List UInt8) : Prop :=
  ∃ k t, st.engine.getRaw h = some ⟨.chunk, k, .chunk data, t⟩ ∧ st.systemEntry h = false

def Shown (hs : Hasher H) (st : SyncServer H) (user : Uuid) (text : Str) : Prop :=
  ∃ response, st.syncDiff hs (.scopedUser user []) ⟨none, none⟩ = .ok response ∧
    ∃ entry ∈ response.changes.filesAdded, ∃ h ∈ entry.chunkHashes, st.decodeHash text = some (some h)

def ReadableChunk (st : SyncServer H) (user : Uuid) (h : H) : Prop :=
  ∃ tree, walkRoot st.engine st.engine.head = .ok tree ∧ ∃ x ∈ tree.files.entries, h ∈ x.2.2.chunkHashes ∧ st.isAllowed user x.1 = true

variable {text : Str}

omit [DecidableEq H] in
lemma chunkFor_eq_some {data : List UInt8} :
    st.chunkFor true text = some data ↔ ∃ h, st.decodeHash text = some (some h) ∧ StoredChunk st h data := by
  rw [chunkFor]
  rcases st.decodeHash text with _ | _ | h
  · simp
  · simp
  · rcases hraw : st.engine.getRaw h with _ | ⟨entryType, key, value, timestamp⟩
    · simp [StoredChunk, hraw]
    · cases hsystem : st.systemEntry h <;> cases entryType <;> cases value <;> simp [StoredChunk, hraw, hsystem]

omit [DecidableEq H] in
lemma mem_collectChunks {filterSystem : Bool} {texts : List Str} {chunks found : List SyncChunk} {payload : ℕ}
    (h : st.collectChunks filterSystem texts chunks payload = .ok found) {c : SyncChunk} (hc : c ∈ found) :
    c ∈ chunks ∨ st.chunkFor filterSystem c.hash = some c.data ∧ SyncServer.projectedSize c.hash c.data ≤ SyncServer.maxResponseBytes := by
  induction texts generalizing chunks payload with
  | nil =>
    cases h
    exact .inl hc
  | cons text texts ih =>
    rw [SyncServer.collectChunks] at h
    cases hchunk : st.chunkFor filterSystem text with
    | none =>
      rw [hchunk] at h
      exact ih h
    | some data =>
      rw [hchunk] at h
      dsimp only at h
      split_ifs at h with hsize
      rcases ih h with hmem | hnew
      · rcases mem_append.mp hmem with hold | hself
        · exact .inl hold
        · obtain rfl := mem_singleton.mp hself
          refine .inr ⟨hchunk, ?_⟩
          change SyncServer.projectedSize text data ≤ _
          omega
      · exact .inr hnew

lemma shown_iff (hscope : st.userHasGrantScope hs user = true) :
    Shown hs st user text ↔ ∃ h, st.decodeHash text = some (some h) ∧ ReadableChunk st user h := by
  have hanswer : st.syncDiff hs (.scopedUser user []) ⟨none, none⟩ =
      ((walkRoot st.engine st.engine.head).mapError (SyncError.failedToWalk "tree".toList)).map fun tree =>
        let changes := (buildFullSyncResponse (kept st.globMatch none false) tree.toVersionTree).retain (st.isAllowed user)
        ⟨st.engine.head, changes, ((changes.filesAdded ++ changes.filesModified).flatMap SyncFileEntry.chunkHashes).dedup⟩ := by
    change (st.allChanges false ⟨none, none⟩ >>= _) = _
    change ((Except.mapError _ (st.walkTree false) >>= _) >>= _) = _
    rw [walkTree]
    cases walkRoot st.engine st.engine.head with
    | error err => rfl
    | ok tree =>
      change Except.ok _ = Except.ok _
      rw [hideFrom_scopedUser, if_pos hscope]
      rfl
  rw [Shown, hanswer]
  cases hwalk : walkRoot st.engine st.engine.head with
  | error err =>
    constructor
    · rintro ⟨response, hresponse, -⟩
      cases hresponse
    · rintro ⟨h, -, tree, htree, -⟩
      cases hwalk.symm.trans htree
  | ok tree =>
    constructor
    · rintro ⟨response, hresponse, entry, hentry, h, hh, htext⟩
      cases hresponse
      obtain ⟨hfound, hallowed⟩ := mem_filter.mp hentry
      simp only [buildFullSyncResponse, collectFiles, sortByPath, filterAndCollect, mem_insertionSort, mem_map,
        mem_filter] at hfound
      obtain ⟨x, ⟨hx, -⟩, rfl⟩ := hfound
      exact ⟨h, htext, tree, hwalk, x, hx, hh, hallowed⟩
    · rintro ⟨h, htext, tree', htree', x, hx, hh, hallowed⟩
      obtain rfl := Except.ok.inj (hwalk.symm.trans htree')
      refine ⟨_, rfl, fileRecordToSyncEntry x, mem_filter.mpr ⟨?_, hallowed⟩, h, hh, htext⟩
      simp only [buildFullSyncResponse, collectFiles, sortByPath, filterAndCollect, mem_insertionSort, mem_map, mem_filter]
      refine ⟨x, ⟨hx, ?_⟩, rfl⟩
      simp [kept, (isAllowed_iff.mp hallowed).1]

/-- The chunk route stays within what the first answer shows exactly if every chunk that it could serve is one of a file that the
user may read. -/
theorem syncChunks_confined_iff (hscope : st.userHasGrantScope hs user = true) :
    (∀ hashes chunks, st.syncChunks (.scopedUser user []) hashes = .ok chunks → ∀ c ∈ chunks, Shown hs st user c.hash) ↔
      ∀ text h data, st.decodeHash text = some (some h) → StoredChunk st h data →
        SyncServer.projectedSize text data ≤ SyncServer.maxResponseBytes → ReadableChunk st user h := by
  constructor
  · intro hconfined text h data htext hstored hsize
    have hchunk : st.chunkFor true text = some data := chunkFor_eq_some.mpr ⟨h, htext, hstored⟩
    have hserved : st.syncChunks (.scopedUser user []) [text] = .ok [⟨text, data⟩] := by
      change st.collectChunks true [text] [] 0 = _
      rw [SyncServer.collectChunks, hchunk]
      dsimp only
      rw [if_neg (by omega)]
      rfl
    obtain ⟨h', htext', hreadable⟩ := (shown_iff hscope).mp (hconfined [text] _ hserved _ (mem_singleton.mpr rfl))
    obtain rfl := Option.some.inj (Option.some.inj (htext.symm.trans htext'))
    exact hreadable
  · intro hreadable hashes chunks hserved c hc
    rw [SyncServer.syncChunks] at hserved
    split_ifs at hserved
    rcases mem_collectChunks hserved hc with hold | ⟨hchunk, hsize⟩
    · cases hold
    · obtain ⟨h, htext, hstored⟩ := chunkFor_eq_some.mp hchunk
      exact (shown_iff hscope).mpr ⟨h, htext, hreadable c.hash h c.data htext hstored hsize⟩

def grantFile : Str := "/open/.aeordb-permissions".toList

def holding (files : List (Str × UInt8)) : Engine Digest :=
  files.foldl (fun e x => final (storeFileBuffered hasher plainEnv x.1 [x.2] none e)) start

def readOpen : PermissionLink := ⟨['g'], ".r".toList, [], none, none, none⟩

def decodeSample (data : List UInt8) : EngineResult PathPermissions := .ok ⟨if data = [9] then [readOpen] else []⟩

def serving (e : Engine Digest) (policy : Policy) : SyncServer Digest where
  engine := e
  systemEntry _ := false
  policy := policy
  withSystem := id
  decodeHash text := if text = ['o'] then some (some (hasher.chunkHash [1])) else
    if text = ['s'] then some (some (hasher.chunkHash [2])) else none
  globMatch glob path := glob = path
  isPermissionsName _ name := name = permissionsName

def servingStored (e : Engine Digest) : SyncServer Digest :=
  serving e (enginePolicy hasher e decodeSample fun _ => .ok [['g']])

def openOnly : SyncServer Digest := servingStored (holding [(grantFile, 9), ("/open/o".toList, 1)])

def openAndSecret : SyncServer Digest := servingStored (holding [(grantFile, 9), ("/open/o".toList, 1), ("/secret/s".toList, 2)])

theorem syncChunks_confined_openOnly :
    openOnly.userHasGrantScope hasher 1 = true ∧
    ∀ hashes chunks, openOnly.syncChunks (.scopedUser 1 []) hashes = .ok chunks → ∀ c ∈ chunks, Shown hasher openOnly 1 c.hash := by
  have hscope : openOnly.userHasGrantScope hasher 1 = true := by decide +kernel
  have habsent : openOnly.engine.getRaw (hasher.chunkHash [2]) = none := by decide +kernel
  have hreadable : (walkRoot openOnly.engine openOnly.engine.head).map (fun tree => tree.files.entries.any fun x =>
      decide (hasher.chunkHash [1] ∈ x.2.2.chunkHashes) && openOnly.isAllowed 1 x.1) = .ok true := by decide +kernel
  refine ⟨hscope, (syncChunks_confined_iff hscope).mpr fun text h data htext hstored _ => ?_⟩
  simp only [openOnly, servingStored, serving] at htext
  split_ifs at htext
  · obtain rfl := Option.some.inj (Option.some.inj htext)
    obtain ⟨tree, htree, hany⟩ := Result.map_eq_ok.mp hreadable
    obtain ⟨x, hx, hfound⟩ := any_eq_true.mp hany
    obtain ⟨hmem, hallowed⟩ := Bool.and_eq_true_iff.mp hfound
    exact ⟨tree, htree, x, hx, of_decide_eq_true hmem, hallowed⟩
  · obtain rfl := Option.some.inj (Option.some.inj htext)
    obtain ⟨k, t, hraw, -⟩ := hstored
    cases habsent.symm.trans hraw

theorem syncChunks_serves_hidden :
    openAndSecret.userHasGrantScope hasher 1 = true ∧
    answered hasher openAndSecret 1 ⟨none, none⟩ = [grantFile, "/open/o".toList] ∧ ¬ Shown hasher openAndSecret 1 ['s'] ∧
    openAndSecret.syncChunks (.scopedUser 1 []) [['s']] = .ok [⟨['s'], [2]⟩] := by
  refine ⟨by decide +kernel, by decide +kernel, ?_, by decide +kernel⟩
  have hnone : (openAndSecret.syncDiff hasher (.scopedUser 1 []) ⟨none, none⟩).map (fun response =>
      response.changes.filesAdded.any fun entry => decide (hasher.chunkHash [2] ∈ entry.chunkHashes)) = .ok false := by
    decide +kernel
  rintro ⟨response, hresponse, entry, hentry, h, hh, htext⟩
  obtain rfl : hasher.chunkHash [2] = h := Option.some.inj (Option.some.inj htext)
  rw [hresponse] at hnone
  have hall := any_eq_false.mp (Except.ok.inj hnone) entry hentry
  exact hall (decide_eq_true hh)

variable {file : Str} {request : SyncDiffRequest}

inductive SameHead (file : Str) : EngineResult (WalkedTree H) → EngineResult (WalkedTree H) → Prop where
  | failed (err err' : EngineError) : SameHead file (.error err) (.error err')
  | walked (tree tree' : WalkedTree H) (hfiles : ∀ p, p ≠ file → tree'.files.lookup p = tree.files.lookup p)
      (hsymlinks : ∀ p, tree'.symlinks.lookup p = tree.symlinks.lookup p) : SameHead file (.ok tree) (.ok tree')

structure Withdrawal (hs : Hasher H) (st st' : SyncServer H) (user : Uuid) (file : Str) (request : SyncDiffRequest) : Prop where
  grant : GrantWithdrawn st.policy st'.policy user file
  head : SameHead file (walkRoot st.engine st.engine.head) (walkRoot st'.engine st'.engine.head)
  base : ∀ since root, request.sinceRootHash = some since → st.decodeHash since = some root →
    walkRoot st'.engine root = walkRoot st.engine root
  permissionFiles : permissionFiles hs st'.engine st'.isPermissionsName = permissionFiles hs st.engine st.isPermissionsName
  decodeHash : st'.decodeHash = st.decodeHash
  globMatch : st'.globMatch = st.globMatch

variable {p : Str}

omit [DecidableEq H] in
lemma mem_paths_diffKind_congr {R : Type} {changed : R → R → Bool} {base target target' : PathMap H R}
    (h : target'.lookup p = target.lookup p) : p ∈ (diffKind changed base target').paths ↔ p ∈ (diffKind changed base target).paths := by
  simp only [KindDiff.paths, diffKind, mem_append, mem_filter, mem_paths_iff, lookup_filter, contains_iff_lookup, h]

lemma Withdrawal.mem_candidates_iff (h : Withdrawal hs st st' user file request) (hp : p ≠ file) :
    p ∈ candidates st' request ↔ p ∈ candidates st request := by
  rw [candidates, candidates]
  split_ifs
  · rfl
  rw [allChanges, allChanges, walkTree, walkTree, h.globMatch, h.decodeHash]
  have hhead := h.head
  cases hsince : request.sinceRootHash with
  | none =>
    dsimp only
    generalize walkRoot st.engine st.engine.head = walked at hhead
    generalize walkRoot st'.engine st'.engine.head = walked' at hhead
    cases hhead with
    | failed err err' => exact Iff.rfl
    | walked tree tree' hfiles hsymlinks =>
      refine mem_paths_full.trans (Iff.trans ?_ mem_paths_full.symm)
      rw [mem_paths_iff, mem_paths_iff, mem_paths_iff, mem_paths_iff]
      simp only [Bool.false_eq_true, if_false]
      rw [hfiles p hp, hsymlinks p]
  | some since =>
    dsimp only
    cases hroot : st.decodeHash since with
    | none => exact Iff.rfl
    | some root =>
      dsimp only
      rw [h.base since root hsince hroot]
      cases walkRoot st.engine root with
      | error err => exact Iff.rfl
      | ok base =>
        generalize walkRoot st.engine st.engine.head = walked at hhead
        generalize walkRoot st'.engine st'.engine.head = walked' at hhead
        cases hhead with
        | failed err err' => exact Iff.rfl
        | walked tree tree' hfiles hsymlinks =>
          refine mem_paths_diff.trans (Iff.trans ?_ mem_paths_diff.symm)
          refine and_congr_right fun _ => or_congr ?_ ?_
          · exact mem_paths_diffKind_congr (hfiles p hp)
          · exact mem_paths_diffKind_congr (hsymlinks p)

lemma Withdrawal.isAllowed (h : Withdrawal hs st st' user file request) (hp : st'.isAllowed user p = true) :
    st.isAllowed user p = true := by
  obtain ⟨hsystem, hinternal, hcheck⟩ := isAllowed_iff.mp hp
  exact isAllowed_iff.mpr ⟨hsystem, hinternal, h.grant.checkPathPermission hcheck⟩

/-- Without the grant the answer shows no new path exactly if the user does not lose the last grant while there is something to hide,
and does not see that the permission file was written. -/
theorem withdrawal_reveals_nothing_iff (h : Withdrawal hs st st' user file request) :
    (∀ p ∈ answered hs st' user request, p ∈ answered hs st user request) ↔
      (st.userHasGrantScope hs user = true → st'.userHasGrantScope hs user = false →
        ∀ p ∈ candidates st' request, st.isAllowed user p = true) ∧
      (file ∈ candidates st' request → file ∉ candidates st request →
        st'.userHasGrantScope hs user = true ∧ st'.isAllowed user file = false) := by
  constructor
  · intro hsub
    refine ⟨fun hscope hscope' p hp => ?_, fun hnew hold => ?_⟩
    · have hanswered : p ∈ answered hs st' user request := mem_answered.mpr ⟨hp, fun hon => nomatch hscope'.symm.trans hon⟩
      exact (mem_answered.mp (hsub p hanswered)).2 hscope
    · have hnot : ¬ (st'.userHasGrantScope hs user = true → st'.isAllowed user file = true) := fun hshown =>
        hold (mem_answered.mp (hsub file (mem_answered.mpr ⟨hnew, hshown⟩))).1
      simpa using hnot
  · rintro ⟨hlast, hwritten⟩ p hp
    obtain ⟨hcandidate', hallowed'⟩ := mem_answered.mp hp
    have hcandidate : p ∈ candidates st request := by
      by_cases hfile : p = file
      · by_contra hold
        subst hfile
        obtain ⟨hscope', hhidden⟩ := hwritten hcandidate' hold
        exact absurd (hallowed' hscope') (by rw [hhidden]; exact Bool.false_ne_true)
      · exact (h.mem_candidates_iff hfile).mp hcandidate'
    refine mem_answered.mpr ⟨hcandidate, fun hscope => ?_⟩
    cases hscope' : st'.userHasGrantScope hs user with
    | true => exact h.isAllowed (hallowed' hscope')
    | false => exact hlast hscope hscope' p hcandidate'

def granting (links : List PermissionLink) : Policy where
  permissions path := .ok (if path = grantFile then some ⟨links⟩ else none)
  groups _ := .ok [['g']]

def readO : PermissionLink := ⟨['g'], ".r".toList, [], none, none, some ['o']⟩

theorem withdrawal_reveals_nothing_readO :
    Withdrawal hasher (serving openAndSecret.engine (granting [readOpen, readO])) (serving openAndSecret.engine (granting [readO])) 1
      grantFile ⟨none, none⟩ ∧
    ∀ p ∈ answered hasher (serving openAndSecret.engine (granting [readO])) 1 ⟨none, none⟩,
      p ∈ answered hasher (serving openAndSecret.engine (granting [readOpen, readO])) 1 ⟨none, none⟩ := by
  have hhead : ∀ walked : EngineResult (WalkedTree Digest), SameHead grantFile walked walked := by
    rintro (err | tree)
    · exact .failed err err
    · exact .walked tree tree (fun _ _ => rfl) fun _ => rfl
  have hwithdrawal : Withdrawal hasher (serving openAndSecret.engine (granting [readOpen, readO]))
      (serving openAndSecret.engine (granting [readO])) 1 grantFile ⟨none, none⟩ := by
    refine ⟨⟨rfl, fun path hpath => ?_, [readOpen, readO], [readO], rfl, rfl, fun groups hgroups => ?_⟩, hhead _, ?_, rfl, rfl, rfl⟩
    · exact congrArg Except.ok ((if_neg hpath).trans (if_neg hpath).symm)
    · cases hgroups
      refine .dropped [] [readO] readOpen fun op => ?_
      rw [denies]
      cases op <;> decide
    · intro since root hsince
      cases hsince
  refine ⟨hwithdrawal, (withdrawal_reveals_nothing_iff hwithdrawal).mpr ⟨fun _ hscope => ?_, fun hnew hold => absurd hnew hold⟩⟩
  have hkept : (serving openAndSecret.engine (granting [readO])).userHasGrantScope hasher 1 = true := by decide +kernel
  cases hkept.symm.trans hscope

def withoutGrant : SyncServer Digest :=
  servingStored (holding [(grantFile, 9), ("/open/o".toList, 1), ("/secret/s".toList, 2), (grantFile, 8)])

theorem withdrawal_reveals_secret :
    openAndSecret.policy.permissions grantFile = .ok (some ⟨[readOpen]⟩) ∧ withoutGrant.policy.permissions grantFile = .ok (some ⟨[]⟩) ∧
    answered hasher openAndSecret 1 ⟨none, none⟩ = [grantFile, "/open/o".toList] ∧
    answered hasher withoutGrant 1 ⟨none, none⟩ = [grantFile, "/open/o".toList, "/secret/s".toList] := by
  decide +kernel

end AeorDb.Sync
