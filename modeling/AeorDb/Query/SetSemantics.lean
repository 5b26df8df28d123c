import AeorDb.Query.Answers
import AeorDb.Store.Digest

/-! Boolean queries as formulas over files. -/

namespace AeorDb.Query

open Store Library List

variable {S H : Type} [DecidableEq H]

inductive Plain (fields : Str → Prop) : QueryNode → Prop
  | field (query : FieldQuery) (vs : List (List UInt8)) : fields query.fieldName → query.operation.exactValues = some vs → Plain fields (.field query)
  | and (children : List QueryNode) : children ≠ [] → (∀ child ∈ children, Plain fields child) → Plain fields (.and children)
  | or (children : List QueryNode) : (∀ child ∈ children, Plain fields child) → Plain fields (.or children)
  | not (child : QueryNode) : Plain fields child → Plain fields (.not child)

namespace Catalog

variable (cat : Catalog S H) (path : Str)

section

variable (r : FileRecord H)

mutual

def satisfies : QueryNode → Bool
  | .field query => (query.operation.exactValues.getD []).any fun v => v ∈ cat.fieldValues path query.fieldName r
  | .and children => satisfiesAll children
  | .or children => satisfiesAny children
  | .not child => !satisfies child

def satisfiesAll : List QueryNode → Bool
  | [] => true
  | child :: children => satisfies child && satisfiesAll children

def satisfiesAny : List QueryNode → Bool
  | [] => false
  | child :: children => satisfies child || satisfiesAny children

end

end

def Returned (result : Finset H) (r : FileRecord H) : Prop :=
  cat.hs.filePathHash r.path ∈ result ∨ cat.hs.fileIdentityHash r.path r.contentType r.chunkHashes ∈ result

def FieldAnswered (fieldName : Str) : Prop :=
  match cat.answering path fieldName with
  | none => ∀ r ∈ cat.records.entries, isUnder path r = false
  | some (indexes, filtered) => ∀ r ∈ cat.records.entries, ∀ v,
      ((filtered = true → isKept path r = true) ∧ ∃ stored ∈ exactIndexes indexes, cat.lastValue stored r = some v) ↔
        isUnder path r = true ∧ v ∈ cat.fieldValues path fieldName r

structure Denotes (result : Finset H) (holds : FileRecord H → Prop) : Prop where
  keys : ∀ hash ∈ result, ∃ p, hash = cat.hs.filePathHash p
  mem : ∀ r ∈ cat.records.entries, cat.hs.filePathHash r.path ∈ result ↔ isUnder path r = true ∧ holds r

variable {cat path}

lemma returned_iff {result : Finset H} (hkeys : ∀ hash ∈ result, ∃ p, hash = cat.hs.filePathHash p) (r : FileRecord H) :
    cat.Returned result r ↔ cat.hs.filePathHash r.path ∈ result := by
  refine or_iff_left fun h => ?_
  obtain ⟨p, hp⟩ := hkeys _ h
  simp [Hasher.filePathHash, Hasher.fileIdentityHash] at hp

variable [LinearOrder S] {sc : Scale S}
  {vs : List (List UInt8)} {children : List QueryNode} {holds : FileRecord H → Prop} {result : Finset H} {node : QueryNode} {r : FileRecord H}

lemma evaluateFieldQuery_denotes (sc : Scale S) {query : FieldQuery} (hop : query.operation.exactValues = some vs)
    (hquery : cat.Queryable path query.fieldName) (hanswered : cat.FieldAnswered path query.fieldName) :
    ∃ result, cat.evaluateFieldQuery sc query path = .ok result ∧ cat.Denotes path result fun r => cat.satisfies path r (.field query) = true := by
  have hanswer := evaluateFieldQuery_answer sc query hop hquery
  rw [FieldAnswered] at hanswered
  cases hanswering : cat.answering path query.fieldName with
  | none =>
    rw [hanswering] at hanswer hanswered
    obtain ⟨result, hresult, hmem⟩ := hanswer
    -- without files under the path a scan finds nothing
    have hempty : result = ∅ := by
      refine Finset.eq_empty_of_forall_notMem fun hash h => ?_
      obtain ⟨r, hr, _⟩ := hmem hash h
      obtain ⟨hr, hunder⟩ := mem_filter.mp hr
      rw [hanswered r hr] at hunder
      cases hunder
    refine ⟨result, hresult, by simp [hempty], fun r hr => ?_⟩
    simp [hempty, hanswered r hr]
  | some answer =>
    obtain ⟨indexes, filtered⟩ := answer
    rw [hanswering] at hanswer hanswered
    obtain ⟨result, hresult, hkeys, hmem⟩ := hanswer
    refine ⟨result, hresult, hkeys, fun r hr => ?_⟩
    rw [hmem r hr, satisfies, hop, Option.getD_some, any_eq_true]
    constructor
    · rintro ⟨hkept, stored, hstored, v, hv, hlast⟩
      obtain ⟨hunder, hvalue⟩ := (hanswered r hr v).mp ⟨hkept, stored, hstored, hlast⟩
      exact ⟨hunder, v, hv, by simpa using hvalue⟩
    · rintro ⟨hunder, v, hv, hvalue⟩
      obtain ⟨hkept, stored, hstored, hlast⟩ := (hanswered r hr v).mpr ⟨hunder, by simpa using hvalue⟩
      exact ⟨hkept, stored, hstored, v, hv, hlast⟩

def Evaluates (cat : Catalog S H) (path : Str) (sc : Scale S) (node : QueryNode) : Prop :=
  ∃ result, cat.evaluateNode sc path node = .ok result ∧ cat.Denotes path result fun r => cat.satisfies path r node = true

section

variable (h : ∀ child ∈ children, cat.Evaluates path sc child) (hresult : cat.Denotes path result holds)
include h hresult

lemma intersectNodes_denotes : ∃ all, cat.intersectNodes sc path result children = .ok all ∧
      cat.Denotes path all fun r => holds r ∧ cat.satisfiesAll path r children = true := by
  induction children generalizing result holds with
  | nil => exact ⟨result, rfl, by simpa [satisfiesAll] using hresult⟩
  | cons child children ih =>
    obtain ⟨childSet, hchild, hdenotes⟩ := h child (by simp)
    have hboth : cat.Denotes path (result ∩ childSet) fun r => holds r ∧ cat.satisfies path r child = true := by
      refine ⟨fun hash hmem => hresult.keys hash (Finset.mem_inter.mp hmem).1, fun r hr => ?_⟩
      rw [Finset.mem_inter, hresult.mem r hr, hdenotes.mem r hr]
      tauto
    obtain ⟨all, hall, hdenotesAll⟩ := ih (fun c hc => h c (by simp [hc])) hboth
    refine ⟨all, ?_, hdenotesAll.keys, fun r hr => ?_⟩
    · rw [intersectNodes, hchild]
      exact hall
    · rw [hdenotesAll.mem r hr, satisfiesAll, Bool.and_eq_true]
      tauto

lemma uniteNodes_denotes : ∃ all, cat.uniteNodes sc path result children = .ok all ∧
      cat.Denotes path all fun r => holds r ∨ cat.satisfiesAny path r children = true := by
  induction children generalizing result holds with
  | nil => exact ⟨result, rfl, by simpa [satisfiesAny] using hresult⟩
  | cons child children ih =>
    obtain ⟨childSet, hchild, hdenotes⟩ := h child (by simp)
    have hboth : cat.Denotes path (result ∪ childSet) fun r => holds r ∨ cat.satisfies path r child = true := by
      refine ⟨fun hash hmem => ?_, fun r hr => ?_⟩
      · rcases Finset.mem_union.mp hmem with hmem | hmem
        · exact hresult.keys hash hmem
        · exact hdenotes.keys hash hmem
      · rw [Finset.mem_union, hresult.mem r hr, hdenotes.mem r hr]
        tauto
    obtain ⟨all, hall, hdenotesAll⟩ := ih (fun c hc => h c (by simp [hc])) hboth
    refine ⟨all, ?_, hdenotesAll.keys, fun r hr => ?_⟩
    · rw [uniteNodes, hchild]
      exact hall
    · rw [hdenotesAll.mem r hr, satisfiesAny, Bool.or_eq_true]
      tauto

end

lemma collectAllHashes_keys {hash : H} (h : hash ∈ cat.collectAllHashes sc path) : ∃ p, hash = cat.hs.filePathHash p := by
  obtain ⟨e, he, v, hv, _⟩ := (mem_collectAllHashes sc).mp h
  exact cat.keys _ e he hash (ne_nil_of_mem hv)

variable {fields : Str → Prop}

lemma evaluates_of_plain (hlisted : ∀ r ∈ cat.records.entries, cat.Listed path (cat.hs.filePathHash r.path) ↔ isUnder path r = true)
    (hfields : ∀ fieldName, fields fieldName → cat.Queryable path fieldName → cat.FieldAnswered path fieldName)
    (h : Plain (fun fieldName => fields fieldName ∧ cat.Queryable path fieldName) node) : cat.Evaluates path sc node := by
  induction h with
  | field query vs hfield hop =>
    obtain ⟨result, hresult, hdenotes⟩ := evaluateFieldQuery_denotes sc hop hfield.2 (hfields _ hfield.1 hfield.2)
    exact ⟨result, by rw [evaluateNode, hresult], hdenotes⟩
  | and children hne _ ih =>
    obtain ⟨child, children, rfl⟩ := exists_cons_of_ne_nil hne
    obtain ⟨first, hfirst, hdenotes⟩ := ih child (by simp)
    obtain ⟨all, hall, hdenotesAll⟩ := intersectNodes_denotes (fun c (hc : c ∈ children) => ih c (mem_cons_of_mem _ hc)) hdenotes
    refine ⟨all, ?_, hdenotesAll.keys, fun r hr => ?_⟩
    · rw [evaluateNode, hfirst]
      exact hall
    · rw [hdenotesAll.mem r hr, satisfies, satisfiesAll, Bool.and_eq_true]
  | or children _ ih =>
    have hnone : cat.Denotes path ∅ fun _ => False := ⟨by simp, by simp⟩
    obtain ⟨all, hall, hdenotes⟩ := uniteNodes_denotes ih hnone
    refine ⟨all, by rw [evaluateNode, hall], hdenotes.keys, fun r hr => ?_⟩
    rw [hdenotes.mem r hr, satisfies, false_or]
  | not child _ ih =>
    obtain ⟨childSet, hchild, hdenotes⟩ := ih
    refine ⟨cat.collectAllHashes sc path \ childSet, by rw [evaluateNode, hchild]; rfl, fun hash h => ?_, fun r hr => ?_⟩
    · exact collectAllHashes_keys (Finset.mem_sdiff.mp h).1
    · rw [Finset.mem_sdiff, mem_collectAllHashes sc, hlisted r hr, hdenotes.mem r hr, satisfies, Bool.not_eq_true', ← Bool.not_eq_true]
      tauto

def Correct (cat : Catalog S H) (path : Str) (sc : Scale S) (node : QueryNode) : Prop :=
  ∃ result, cat.evaluateNode sc path node = .ok result ∧
    ∀ r ∈ cat.records.entries, cat.Returned result r ↔ isUnder path r = true ∧ cat.satisfies path r node = true

lemma Evaluates.correct (h : cat.Evaluates path sc node) : cat.Correct path sc node := by
  obtain ⟨result, hresult, hkeys, hmem⟩ := h
  exact ⟨result, hresult, fun r hr => (returned_iff hkeys r).trans (hmem r hr)⟩

lemma listed_of_correct (h : cat.Correct path sc (.not (.or []))) (hr : r ∈ cat.records.entries) :
    cat.Listed path (cat.hs.filePathHash r.path) ↔ isUnder path r = true := by
  obtain ⟨result, hresult, hmem⟩ := h
  obtain rfl : cat.collectAllHashes sc path \ ∅ = result := Except.ok.inj hresult
  rw [Finset.sdiff_empty] at hmem
  rw [← mem_collectAllHashes sc, ← returned_iff (fun hash h => collectAllHashes_keys h), hmem r hr]
  simp [satisfies, satisfiesAny]

lemma listed_of_scan (query : FieldQuery) (hop : query.operation.exactValues = some vs)
    (hquery : cat.Queryable path query.fieldName) (hscan : cat.answering path query.fieldName = none)
    (h : cat.Correct path sc (.not (.field query))) (hr : r ∈ cat.records.entries) :
    cat.Listed path (cat.hs.filePathHash r.path) ↔ isUnder path r = true ∧ cat.satisfies path r (.field query) = false := by
  have hanswer := evaluateFieldQuery_answer sc query hop hquery
  rw [hscan] at hanswer
  obtain ⟨childSet, hchild, hidentities⟩ := hanswer
  obtain ⟨result, hresult, hmem⟩ := h
  rw [evaluateNode, evaluateNode, hchild] at hresult
  obtain rfl : cat.collectAllHashes sc path \ childSet = result := Except.ok.inj hresult
  have hkey : cat.hs.filePathHash r.path ∉ childSet := by
    intro hkey
    obtain ⟨r', _, heq⟩ := hidentities _ hkey
    simp [Hasher.filePathHash, Hasher.fileIdentityHash] at heq
  have hreturned := hmem r hr
  rw [returned_iff (fun hash h => collectAllHashes_keys (Finset.mem_sdiff.mp h).1), Finset.mem_sdiff, mem_collectAllHashes sc] at hreturned
  simpa [hkey, satisfies] using hreturned

lemma fieldAnswered_of_correct {fieldName : Str} (hquery : cat.Queryable path fieldName)
    (hleaf : ∀ vs, cat.Correct path sc (.field ⟨fieldName, .isIn vs⟩)) (hnot : ∀ vs, cat.Correct path sc (.not (.field ⟨fieldName, .isIn vs⟩))) :
    cat.FieldAnswered path fieldName := by
  rw [FieldAnswered]
  cases hanswering : cat.answering path fieldName with
  | none =>
    intro r hr
    have hall := listed_of_scan ⟨fieldName, .isIn []⟩ rfl hquery hanswering (hnot []) hr
    cases hfield : canonicalVirtualFieldName fieldName with
    | none =>
      rw [answering, hfield] at hanswering
      cases hanswering
    | some field =>
      have hnone := listed_of_scan ⟨fieldName, .isIn [extractMetadataFieldValue cat.codec r field]⟩ rfl hquery hanswering (hnot _) hr
      rw [hall] at hnone
      simpa [satisfies, QueryOp.exactValues, fieldValues, hfield] using hnone
  | some answer =>
    obtain ⟨indexes, filtered⟩ := answer
    intro r hr v
    have hanswer := evaluateFieldQuery_answer sc ⟨fieldName, .isIn [v]⟩ rfl hquery
    simp only [hanswering] at hanswer
    obtain ⟨result, hresult, hkeys, hmem⟩ := hanswer
    obtain ⟨result', hresult', hcorrect⟩ := hleaf [v]
    rw [evaluateNode, hresult] at hresult'
    obtain rfl : result = result' := Except.ok.inj hresult'
    have hleafMem := hcorrect r hr
    rw [returned_iff hkeys, hmem r hr] at hleafMem
    simpa [satisfies, QueryOp.exactValues] using hleafMem

end Catalog

def asciiCodec : MetadataCodec Digest where
  encode s := s.map fun c => UInt8.ofNat c.toNat
  decode bytes := some (bytes.map fun b => Char.ofNat b.toNat)
  hashHex _ := []

def fileF : FileRecord Digest := ⟨"/f".toList, none, 0, 0, 0, [], Digest.ofStr [], []⟩

def indexX : StoredIndex ℕ Digest where
  fieldName := "x".toList
  converter := wholeValue (fun _ => 0) true "u64" .u64
  ops := [.update (Digest.hasher.filePathHash "/f".toList) [[1]]]
  whole := u64_whole

lemma assigned_indexX (h : Digest) : assigned indexX.ops h = if h = Digest.hasher.filePathHash "/f".toList then [[1]] else [] := by
  simp [assigned, indexX, assignOp, Function.update_apply]

def oneFile : Catalog ℕ Digest where
  hs := Digest.hasher
  codec := asciiCodec
  records := ⟨[fileF], by decide⟩
  indexesAt dir := if dir = ['/'] then ⟨[("x.u64".toList, indexX)], by decide⟩ else .empty
  values dir _ _ := if dir = ['/'] then [[1]] else []
  keys dir e he h hne := by
    split_ifs at he
    · obtain rfl := mem_singleton.mp he
      rw [assigned_indexX] at hne
      exact ⟨_, by_contra fun hother => hne (if_neg hother)⟩
    · cases he
  holds dir e he _ r hr := by
    split_ifs at he with hdir
    · obtain rfl := mem_singleton.mp he
      obtain rfl := mem_singleton.mp hr
      rw [if_pos hdir, assigned_indexX]
      exact if_pos rfl
    · cases he
  holdsMetadata dir e he field hfield := by
    split_ifs at he
    · obtain rfl := mem_singleton.mp he
      cases hfield
    · cases he

def valueAndPath : QueryNode := .and [.field ⟨"x".toList, .eq [1]⟩, .field ⟨"@path".toList, .eq (asciiCodec.encode "/f".toList)⟩]

end AeorDb.Query
