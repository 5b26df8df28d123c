import AeorDb.Auth.KeyScope
import AeorDb.Dir.CreateSafe

/-! The batch fetch route, before and after the key of a token is withdrawn. -/

namespace AeorDb.Auth

open Store Dir Library.Result Option

variable {H : Type} (hs : Hasher H) (globMatch : GlobMatch)

section

def fetchRoute : Str := "/files/fetch".toList
def maxBatchFetchFiles : ℕ := 10000
def maxBatchFetchResponseBytes : ℕ := 256 * 1024 * 1024

structure FetchedFile where
  path : Str
  name : Str
  size : ℕ
  createdAt : ℤ
  updatedAt : ℤ
  contentType : Option Str
  content : List UInt8
  deriving DecidableEq

variable (st : ServerState H) (claims : TokenClaims) (keyRules : Option (List KeyRule))

def canFetchPath (path : Str) : Bool :=
  match keyRules.filter (· ≠ []) with
  | some rules => rulesPermit globMatch rules path 'r'
  | none =>
    match claims.sub with
    | .share _ => true
    | .invalid => false
    | .user id => isRoot id || (checkDirectPermission st.policy id path .read).toOption.getD false

def getMetadata (e : Engine H) (path : Str) : EngineResult (Option (FileRecord H)) :=
  lookupRecord e (hs.filePathHash (normalizePath path)) fileOf

def saturatingAdd (a b : ℕ) : ℕ := min (a + b) (2 ^ 64 - 1)

def corrupted (what : String) (path : Str) (part : String) : Response :=
  ⟨500, what.toList ++ path ++ ("'. The " ++ part ++ " may be corrupted — contact your administrator").toList⟩

def tooLarge (limit : ℕ) : Response :=
  ⟨413, ("Batch fetch response would exceed " ++ toString limit ++ " bytes. Split the request into smaller batches").toList⟩

def fetchedFile (record : FileRecord H) (content : List UInt8) : FetchedFile where
  path := record.path
  name := (fileName record.path).getD []
  size := record.totalSize
  createdAt := record.createdAt
  updatedAt := record.updatedAt
  contentType := record.contentType
  content := content

def fetchPath (limit cumulative : ℕ) (rawPath : Str) : Except Response (FetchedFile × ℕ) :=
  let normalized := normalizePath rawPath
  if isSystemPath normalized then .error (notFoundAt rawPath)
  else if !canFetchPath globMatch st claims keyRules normalized then .error (notFoundAt rawPath)
  else
    match getMetadata hs st.engine normalized with
    | .error _ => .error (corrupted "Failed to read metadata for '" rawPath "file")
    | .ok none => .error (notFoundAt rawPath)
    | .ok (some record) =>
      if limit < saturatingAdd cumulative record.totalSize then .error (tooLarge limit)
      else
        match readFileBuffered hs st.engine normalized with
        | .ok data => .ok (fetchedFile record data, saturatingAdd cumulative record.totalSize)
        | .error (.notFound _) => .error (notFoundAt rawPath)
        | .error _ => .error (corrupted "Failed to read file '" rawPath "file data")

def fetchAll (limit : ℕ) : ℕ → List Str → Except Response (List FetchedFile)
  | _, [] => .ok []
  | cumulative, rawPath :: paths => do
    let (file, cumulative) ← fetchPath hs globMatch st claims keyRules limit cumulative rawPath
    let files ← fetchAll limit cumulative paths
    .ok (file :: files)

def batchFetchPaths (paths : List Str) (maxBytes : Option ℕ) : Except Response (List FetchedFile) :=
  if paths = [] then .error ⟨400, "At least one path is required in the 'paths' array".toList⟩
  else if maxBatchFetchFiles < paths.length then
    .error ⟨400, ("Too many paths (max " ++ toString maxBatchFetchFiles ++ "). Split the request into multiple batches").toList⟩
  else
    fetchAll hs globMatch st claims keyRules (min (maxBytes.getD maxBatchFetchResponseBytes) maxBatchFetchResponseBytes) 0 paths

def batchFetch (paths : List Str) (maxBytes : Option ℕ) : Except Response (List FetchedFile) := do
  let admitted ← permissionMiddleware hs globMatch st ⟨fetchRoute, .post, some claims⟩
  batchFetchPaths hs globMatch st claims admitted.activeKeyRules paths maxBytes

def Fetches (path : Str) : Prop := ∃ paths maxBytes files, batchFetch hs globMatch st claims paths maxBytes = .ok files ∧ path ∈ paths

variable {hs globMatch st claims keyRules}

def Servable (hs : Hasher H) (e : Engine H) (path : Str) : Prop :=
  isSystemPath (normalizePath path) = false ∧ ∃ record data, getMetadata hs e (normalizePath path) = .ok (some record) ∧
    record.totalSize ≤ maxBatchFetchResponseBytes ∧ readFileBuffered hs e (normalizePath path) = .ok data

lemma le_of_saturatingAdd_le {a b limit : ℕ} (hlimit : limit ≤ maxBatchFetchResponseBytes) (h : saturatingAdd a b ≤ limit) : b ≤ limit := by
  rw [saturatingAdd, min_le_iff] at h
  rw [maxBatchFetchResponseBytes] at hlimit
  omega

lemma fetchPath_ok {limit cumulative : ℕ} {rawPath : Str} {result : FetchedFile × ℕ} (hlimit : limit ≤ maxBatchFetchResponseBytes)
    (h : fetchPath hs globMatch st claims keyRules limit cumulative rawPath = .ok result) :
    Servable hs st.engine rawPath ∧ canFetchPath globMatch st claims keyRules (normalizePath rawPath) = true := by
  rw [fetchPath] at h
  split_ifs at h with hsystem hcan
  split at h
  · cases h
  · cases h
  case _ record hrecord =>
    split_ifs at h with hsize
    split at h
    case _ data hdata =>
      refine ⟨⟨by simpa using hsystem, record, data, hrecord, ?_, hdata⟩, by simpa using hcan⟩
      exact (le_of_saturatingAdd_le hlimit (not_lt.mp hsize)).trans hlimit
    · cases h
    · cases h

lemma fetchAll_ok {limit : ℕ} {paths : List Str} (hlimit : limit ≤ maxBatchFetchResponseBytes) :
    ∀ {cumulative files}, fetchAll hs globMatch st claims keyRules limit cumulative paths = .ok files → ∀ path ∈ paths,
      Servable hs st.engine path ∧ canFetchPath globMatch st claims keyRules (normalizePath path) = true := by
  induction paths with
  | nil => simp
  | cons rawPath paths ih =>
    intro cumulative files h
    obtain ⟨result, hfirst, h⟩ := bind_eq_ok.mp h
    obtain ⟨rest, hrest, _⟩ := bind_eq_ok.mp h
    exact List.forall_mem_cons.mpr ⟨fetchPath_ok hlimit hfirst, ih hrest⟩

lemma fetchAll_singleton {path : Str} (hserve : Servable hs st.engine path)
    (hcan : canFetchPath globMatch st claims keyRules (normalizePath path) = true) :
    ∃ files, fetchAll hs globMatch st claims keyRules maxBatchFetchResponseBytes 0 [path] = .ok files := by
  obtain ⟨hsystem, record, data, hrecord, hsize, hdata⟩ := hserve
  have hfits : ¬ maxBatchFetchResponseBytes < saturatingAdd 0 record.totalSize := by
    rw [not_lt, saturatingAdd, zero_add]
    exact (min_le_left _ _).trans hsize
  refine ⟨[fetchedFile record data], ?_⟩
  rw [fetchAll, fetchPath]
  simp only [hsystem, hcan, hrecord, hdata, if_neg hfits]
  rfl

lemma batchFetch_eq (paths : List Str) (maxBytes : Option ℕ) : batchFetch hs globMatch st claims paths maxBytes =
    batchFetchPaths hs globMatch st claims (activeKeyRules st (some claims)) paths maxBytes := by
  have hroute : permissionMiddleware hs globMatch st ⟨fetchRoute, .post, some claims⟩ = .ok ⟨activeKeyRules st (some claims), none⟩ := by
    have hpath : enginePath fetchRoute = none := by decide
    have hchunks : ¬ startsWith fetchRoute "/blobs/chunks/".toList = true := by decide
    simp only [permissionMiddleware, hpath, if_neg hchunks]
  rw [batchFetch, hroute]
  rfl

lemma fetches_iff (path : Str) : Fetches hs globMatch st claims path ↔
    Servable hs st.engine path ∧ canFetchPath globMatch st claims (activeKeyRules st (some claims)) (normalizePath path) = true := by
  constructor
  · rintro ⟨paths, maxBytes, files, hfetch, hmem⟩
    rw [batchFetch_eq, batchFetchPaths] at hfetch
    split_ifs at hfetch
    exact fetchAll_ok (min_le_right _ _) hfetch path hmem
  · rintro ⟨hserve, hcan⟩
    obtain ⟨files, hfiles⟩ := fetchAll_singleton hserve hcan
    refine ⟨[path], none, files, ?_, List.mem_singleton_self path⟩
    rw [batchFetch_eq, batchFetchPaths, if_neg (List.cons_ne_nil _ _), if_neg (by rw [List.length_singleton, maxBatchFetchFiles]; omega), getD_none, min_self, hfiles]

end

def subjectOf (record : ApiKeyRecord) : Subject :=
  match record.userId with
  | some id => .user id
  | none => .share record.keyId

def tokenOf (record : ApiKeyRecord) : TokenClaims := ⟨subjectOf record, some record.keyId⟩

structure Withdrawn (st st' : ServerState H) (record : ApiKeyRecord) : Prop where
  found : findKey st record.keyId = .ok (some record)
  unrevoked : record.isRevoked = false
  unexpired : st.now < record.expiresAt
  rules_ne : record.rules ≠ []
  gone : ∃ found, findKey st' record.keyId = .ok found ∧ ∀ k ∈ found, k.isRevoked = true ∨ k.expiresAt ≤ st'.now
  engine : st'.engine = st.engine
  policy : st'.policy = st.policy

def OwnRead (policy : Policy) (user : Option Uuid) (path : Str) : Prop :=
  ∀ id ∈ user, checkDirectPermission policy id path .read = .ok true

variable {hs globMatch} {st st' : ServerState H} {record : ApiKeyRecord} {path : Str}

lemma activeKeyRules_of_live (h : Withdrawn st st' record) : activeKeyRules st (some (tokenOf record)) = some record.rules := by
  simp [activeKeyRules, tokenOf, h.found, h.unrevoked, h.unexpired, attachedRules, h.rules_ne]

lemma activeKeyRules_of_gone (h : Withdrawn st st' record) : activeKeyRules st' (some (tokenOf record)) = none := by
  obtain ⟨found, hfound, hgone⟩ := h.gone
  cases found with
  | none => simp [activeKeyRules, tokenOf, hfound]
  | some k =>
    have hdead : (!k.isRevoked && decide (st'.now < k.expiresAt)) = false := by
      rcases hgone k rfl with hrevoked | hexpired
      · simp [hrevoked]
      · simp [hexpired]
    simp [activeKeyRules, tokenOf, hfound, hdead]

variable {rules : List KeyRule}

lemma canFetchPath_scoped (claims : TokenClaims) (hne : rules ≠ []) :
    canFetchPath globMatch st claims (some rules) path = rulesPermit globMatch rules path 'r' := by
  simp [canFetchPath, Option.filter, hne]

lemma canFetchPath_unscoped : canFetchPath globMatch st (tokenOf record) none path = true ↔ OwnRead st.policy record.userId path := by
  cases huser : record.userId with
  | none => simp [canFetchPath, tokenOf, subjectOf, huser, OwnRead]
  | some id =>
    simp only [canFetchPath, filter_none, tokenOf, subjectOf, huser, OwnRead, mem_def, Option.some.injEq,
      forall_eq', Bool.or_eq_true]
    by_cases hroot : isRoot id = true
    · simp [hroot, checkDirectPermission]
    · cases checkDirectPermission st.policy id path .read with
      | error err => simp [hroot, Except.toOption]
      | ok allowed => simp [hroot, Except.toOption]

def oneFileServer (rules : List KeyRule) : ServerState Digest := { (shareServer rules : ServerState Digest) with engine := oneFile }

def shareKey (rules : List KeyRule) : ApiKeyRecord := ⟨1, [], none, false, 1, rules⟩

lemma withdrawn_oneFileServer (hne : rules ≠ []) :
    Withdrawn (oneFileServer rules) { oneFileServer rules with apiKeys := .ok [] } (shareKey rules) :=
  ⟨rfl, rfl, show (0 : ℤ) < 1 by decide, hne, ⟨none, rfl, by simp⟩, rfl, rfl⟩

def readAll : List KeyRule := [⟨"**".toList, "-r------".toList⟩]

end AeorDb.Auth
