import AeorDb.Query.Pipeline
import AeorDb.Store.Digest

/-! What an exact query finds after a file has been indexed again and again. -/

namespace AeorDb.Query

open Store Library List Except IndexFiles Catalog Query

variable {S H : Type} [DecidableEq H] {hs : Hasher H}

section

omit [DecidableEq H]

variable (tools : IndexingTools H) (config : PathIndexConfig)

def extracted (field : IndexFieldConfig) (json : Json) : List (List UInt8) :=
  ((extractFieldValues tools field json).toOption.join).getD []

def fieldValues (name : Str) (d : Document H) : List (List UInt8) :=
  match config.indexes.find? (·.name = name), parseIndexDocument tools config d with
  | some field, some json => extracted tools field json
  | _, _ => []

def indexedValues (name : Str) (d : Document H) : List (List UInt8) := if isInternalPath d.path then [] else fieldValues tools config name d

lemma fieldValues_of_unparsed {name : Str} {d : Document H} (hparse : parseIndexDocument tools config d = none) :
    fieldValues tools config name d = [] := by
  rw [fieldValues, hparse]
  cases config.indexes.find? (·.name = name) <;> rfl

lemma ne_nil_of_nonEmpty {values vs : List (List UInt8)} (h : nonEmpty values = some vs) : vs ≠ [] := by
  rw [nonEmpty] at h
  split_ifs at h with hempty
  cases h
  simpa using hempty

lemma ne_nil_of_extractFieldValues {field : IndexFieldConfig} {json : Json} {vs : List (List UInt8)}
    (h : extractFieldValues tools field json = .ok (some vs)) : vs ≠ [] := by
  rw [extractFieldValues] at h
  split at h
  · split at h
    · split at h
      · obtain ⟨v, _, hv⟩ := Result.map_eq_ok.mp h
        cases hv
        simp
      · cases h
    · exact ne_nil_of_nonEmpty (ok.inj h)
    · cases h
  · exact ne_nil_of_nonEmpty (ok.inj h)

end

namespace IndexFiles

lemma current_update (files : IndexFiles S hs) (fieldName : Str) (kind : IndexKind S) (values : List (List UInt8)) (path name : Str) :
    (files.update fieldName kind values path).current name =
      if name = fieldName ++ '.' :: kind.strategy then Function.update (files.current name) (hs.filePathHash (normalizePath path)) values
      else files.current name := by
  rw [current, update]
  rw [Table.get_insert]
  split_ifs with hname
  · subst hname
    dsimp only
    rw [assigned_append_update, assigned_loadOrNew]
  · rw [current]

def Named (config : PathIndexConfig) (kindOf : IndexFieldConfig → EngineResult (IndexKind S)) (files : IndexFiles S hs) : Prop :=
  ∀ e ∈ files.table.entries, ∃ field ∈ config.indexes, ∃ kind, kindOf field = .ok kind ∧ ∃ fieldName,
    e.1 = fieldName ++ '.' :: kind.strategy ∧ (fieldName = field.name ∨ ∃ virtual : VirtualField, fieldName = virtual.name)

variable {config : PathIndexConfig} {kindOf : IndexFieldConfig → EngineResult (IndexKind S)} {tools : IndexingTools H}
  {files files' : IndexFiles S hs} {field : IndexFieldConfig} {d : Document H}

section

variable (h : files.Named config kindOf) (hfield : field ∈ config.indexes)
include h hfield

lemma Named.updateIndex {fieldName : Str} (hname : fieldName = field.name ∨ ∃ virtual : VirtualField, fieldName = virtual.name) {values : List (List UInt8)} {path : Str} (hrun : updateIndex kindOf fieldName field values path files = .ok files') : files'.Named config kindOf := by
  obtain ⟨kind, hkind, rfl⟩ := Result.map_eq_ok.mp hrun
  intro e he
  rcases Table.mem_insert.mp he with rfl | ⟨he, _⟩
  · exact ⟨field, hfield, kind, hkind, fieldName, rfl, hname⟩
  · exact h e he

lemma Named.indexMetaField (hrun : Query.indexMetaField tools kindOf d field files = .ok files') :
    files'.Named config kindOf := by
  rw [Query.indexMetaField] at hrun
  split at hrun
  · cases hrun
    exact h
  · split at hrun
    · cases hrun
      exact h
    case h_2 virtual _ => exact h.updateIndex hfield (.inr ⟨virtual, rfl⟩) hrun

lemma Named.indexField {json : Json} (hrun : Query.indexField tools kindOf d json field files = .ok files') :
    files'.Named config kindOf := by
  rw [Query.indexField] at hrun
  split_ifs at hrun
  · exact h.indexMetaField hfield hrun
  · split at hrun
    · cases hrun
    · cases hrun
      exact h
    · exact h.updateIndex hfield (.inl rfl) hrun

end

lemma foldl_logged {P : IndexFiles S hs → Prop} {step : IndexFieldConfig → IndexFiles S hs → EngineResult (IndexFiles S hs)}
    {fields : List IndexFieldConfig} (hstep : ∀ field ∈ fields, ∀ files files', P files → step field files = .ok files' → P files')
    {files : IndexFiles S hs} (h : P files) : P (fields.foldl (fun files field => logged files (step field files)) files) := by
  refine List.foldlRecOn (motive := P) fields _ h fun files hfiles field hfield => ?_
  cases hrun : step field files with
  | error e => exact hfiles
  | ok files' => exact hstep field hfield files files' hfiles hrun

lemma Named.run {files : IndexFiles S hs} (h : files.Named config kindOf) (d : Document H) :
    (Query.run tools kindOf config files d).Named config kindOf := by
  have hmeta : ((config.indexes.filter fun field => field.name.head? = some '@').foldl
      (fun files field => logged files (Query.indexMetaField tools kindOf d field files)) files).Named config kindOf :=
    foldl_logged (fun field hfield _ _ hnamed hrun => hnamed.indexMetaField (mem_of_mem_filter hfield) hrun) h
  rw [Query.run]
  split_ifs
  · exact h
  · dsimp only
    split_ifs
    · exact hmeta
    · split
      · exact hmeta
      · exact foldl_logged (fun field hfield _ _ hnamed hrun => hnamed.indexField (mem_of_mem_filter hfield) hrun) hmeta

end IndexFiles

/-- A field of the content that exact queries can name: its index files are told from all others by the first dot, it is read from
one place, and one of its types is known. -/
structure Queryable (config : PathIndexConfig) (kindOf : IndexFieldConfig → EngineResult (IndexKind S)) (name : Str) : Prop where
  content : name.head? ≠ some '@'
  dotless : '.' ∉ name
  apart : ∀ field ∈ config.indexes, ¬ name ++ ['.'] <+: field.name
  source : ∀ f ∈ config.indexes, ∀ g ∈ config.indexes, f.name = name → g.name = name → f.source = g.source
  typed : ∃ field ∈ config.indexes, field.name = name ∧ ∃ kind, kindOf field = .ok kind

section

variable {config : PathIndexConfig} {kindOf : IndexFieldConfig → EngineResult (IndexKind S)} {tools : IndexingTools H} {name : Str}

def renewed (cur : H → List (List UInt8)) (key : H) (vs : List (List UInt8)) : H → List (List UInt8) :=
  if vs = [] then cur else Function.update cur key vs

lemma renewed_renewed (cur : H → List (List UInt8)) (key : H) (vs : List (List UInt8)) :
    renewed (renewed cur key vs) key vs = renewed cur key vs := by
  by_cases hvs : vs = []
  · simp [renewed, hvs]
  · simp [renewed, hvs]

lemma virtual_name_head (virtual : VirtualField) : virtual.name.head? = some '@' := by
  cases virtual <;> rfl

lemma Queryable.fieldName_eq (h : Queryable config kindOf name) {fieldName : Str} {kind kind' : IndexKind S}
    (heq : name ++ '.' :: kind.strategy = fieldName ++ '.' :: kind'.strategy) : fieldName = name ∧ kind'.strategy = kind.strategy := by
  obtain ⟨hname, _, hstrategy⟩ := (append_cons_inj_of_notMem h.dotless kind.dotless).mp heq
  exact ⟨hname.symm, hstrategy.symm⟩

variable {d : Document H} {field : IndexFieldConfig} {json : Json}

lemma Queryable.current_indexMetaField (h : Queryable config kindOf name) {files files' : IndexFiles S hs}
    (hrun : indexMetaField tools kindOf d field files = .ok files') (kind : IndexKind S) :
    files'.current (name ++ '.' :: kind.strategy) = files.current (name ++ '.' :: kind.strategy) := by
  rw [indexMetaField] at hrun
  split at hrun
  · cases hrun
    rfl
  · split at hrun
    · cases hrun
      rfl
    case h_2 virtual _ =>
      obtain ⟨kind', _, rfl⟩ := Result.map_eq_ok.mp hrun
      rw [current_update, if_neg]
      intro heq
      obtain ⟨hname, _⟩ := h.fieldName_eq heq
      exact h.content (hname ▸ virtual_name_head virtual)

def Carries (kindOf : IndexFieldConfig → EngineResult (IndexKind S)) (name strategy : Str) (field : IndexFieldConfig) : Prop :=
  field.name = name ∧ ((kindOf field).map (·.strategy)).toOption = some strategy

instance (strategy : Str) (field : IndexFieldConfig) : Decidable (Carries kindOf name strategy field) := inferInstanceAs (Decidable (_ ∧ _))

lemma Queryable.logged_indexField (h : Queryable config kindOf name)
    (hfield : field.name.head? ≠ some '@') (files : IndexFiles S hs) (kind : IndexKind S) :
    (logged files (indexField tools kindOf d json field files)).current (name ++ '.' :: kind.strategy) =
      if Carries kindOf name kind.strategy field then
        renewed (files.current (name ++ '.' :: kind.strategy)) (hs.filePathHash (normalizePath d.path)) (extracted tools field json)
      else files.current (name ++ '.' :: kind.strategy) := by
  rw [indexField, if_neg hfield, extracted]
  cases hextract : extractFieldValues tools field json with
  | error e => simp [logged, Except.toOption, renewed]
  | ok result =>
    cases result with
    | none => simp [logged, Except.toOption, renewed]
    | some vs =>
      have hvs := ne_nil_of_extractFieldValues tools hextract
      cases hkind : kindOf field with
      | error e => simp [Carries, updateIndex, hkind, logged, Except.toOption, Except.map]
      | ok kind' =>
        have hiff : name ++ '.' :: kind.strategy = field.name ++ '.' :: kind'.strategy ↔ field.name = name ∧ kind'.strategy = kind.strategy := by
          constructor
          · exact h.fieldName_eq
          · rintro ⟨rfl, heq⟩
            rw [heq]
        simp [Carries, updateIndex, hkind, logged, Except.toOption, Except.map, renewed, hvs, current_update, hiff]

lemma Queryable.foldl_indexField (h : Queryable config kindOf name) {vs : List (List UInt8)}
    {fields : List IndexFieldConfig} (hcontent : ∀ field ∈ fields, field.name.head? ≠ some '@')
    (hvs : ∀ field ∈ fields, field.name = name → extracted tools field json = vs) (kind : IndexKind S)
    (hcarries : ∃ field ∈ fields, Carries kindOf name kind.strategy field) (files : IndexFiles S hs) :
    (fields.foldl (fun files field => logged files (indexField tools kindOf d json field files)) files).current
        (name ++ '.' :: kind.strategy) =
      renewed (files.current (name ++ '.' :: kind.strategy)) (hs.filePathHash (normalizePath d.path)) vs := by
  induction fields generalizing files with
  | nil => simp at hcarries
  | cons field fields ih =>
    obtain ⟨hat, hothers⟩ := forall_mem_cons.mp hcontent
    obtain ⟨hv, hvs⟩ := forall_mem_cons.mp hvs
    rw [foldl_cons]
    have hstep : (logged files (indexField tools kindOf d json field files)).current (name ++ '.' :: kind.strategy) = _ :=
      h.logged_indexField hat files kind
    by_cases hrest : ∃ field ∈ fields, Carries kindOf name kind.strategy field
    · rw [ih hothers hvs hrest, hstep]
      split_ifs with hfield
      · rw [hv hfield.1, renewed_renewed]
      · rfl
    · obtain ⟨g, hg, hgcarries⟩ := hcarries
      rcases mem_cons.mp hg with rfl | hg
      · rw [if_pos hgcarries, hv hgcarries.1] at hstep
        refine List.foldlRecOn (motive := fun out : IndexFiles S hs => out.current _ = _) fields _ hstep fun out hout f hf => ?_
        rw [h.logged_indexField (hothers f hf), if_neg fun hf' => hrest ⟨f, hf, hf'⟩, hout]
      · exact absurd ⟨g, hg, hgcarries⟩ hrest

omit [DecidableEq H] in
lemma Queryable.extracted_eq (h : Queryable config kindOf name)
    (hparse : parseIndexDocument tools config d = some json) (hfield : field ∈ config.indexes)
    (hname : field.name = name) : extracted tools field json = fieldValues tools config name d := by
  rw [fieldValues, hparse]
  cases hfind : config.indexes.find? (·.name = name) with
  | none => exact absurd hname (by simpa using find?_eq_none.mp hfind field hfield)
  | some g =>
    have hg : g.name = name := by simpa using find?_some hfind
    have hsource := h.source field hfield g (mem_of_find?_eq_some hfind) hname hg
    simp only [extracted, extractFieldValues, hname, hg, hsource]

lemma Queryable.current_run (h : Queryable config kindOf name) (kind : IndexKind S)
    (hcarries : ∃ field ∈ config.indexes, Carries kindOf name kind.strategy field) (files : IndexFiles S hs) (d : Document H) :
    (run tools kindOf config files d).current (name ++ '.' :: kind.strategy) =
      renewed (files.current (name ++ '.' :: kind.strategy)) (hs.filePathHash (normalizePath d.path)) (indexedValues tools config name d) := by
  obtain ⟨field, hfield, hcarry⟩ := hcarries
  have hmem : field ∈ config.indexes.filter fun field => field.name.head? ≠ some '@' := by
    rw [mem_filter, hcarry.1]
    exact ⟨hfield, decide_eq_true h.content⟩
  have hmeta : ((config.indexes.filter fun field => field.name.head? = some '@').foldl
      (fun files field => logged files (indexMetaField tools kindOf d field files)) files).current (name ++ '.' :: kind.strategy) =
        files.current (name ++ '.' :: kind.strategy) :=
    foldl_logged (P := fun out => out.current _ = _) (fun _ _ _ _ hout hrun => (h.current_indexMetaField hrun kind).trans hout) rfl
  rw [run, indexedValues]
  split_ifs with hinternal
  · rfl
  · dsimp only
    rw [if_neg fun hnone => ne_nil_of_mem hmem hnone.1]
    cases hparse : parseIndexDocument tools config d with
    | none =>
      rw [fieldValues_of_unparsed tools config hparse]
      exact hmeta
    | some json =>
      dsimp only
      rw [h.foldl_indexField _ _ kind ⟨field, hmem, hcarry⟩, hmeta]
      · intro g hg
        exact of_decide_eq_true (mem_filter.mp hg).2
      · intro g hg
        exact h.extracted_eq hparse (mem_of_mem_filter hg)

def kept (hs : Hasher H) (tools : IndexingTools H) (config : PathIndexConfig) (name : Str) (ds : List (Document H)) : H → List (List UInt8) :=
  ds.foldl (fun cur d => renewed cur (hs.filePathHash (normalizePath d.path)) (indexedValues tools config name d)) fun _ => []

lemma kept_append (ds : List (Document H)) (d : Document H) : kept hs tools config name (ds ++ [d]) =
    renewed (kept hs tools config name ds) (hs.filePathHash (normalizePath d.path)) (indexedValues tools config name d) := by
  rw [kept, List.foldl_append]
  rfl

lemma kept_eq_nil_iff (ds : List (Document H)) (key : H) : kept hs tools config name ds key = [] ↔
    ∀ d ∈ ds, hs.filePathHash (normalizePath d.path) = key → indexedValues tools config name d = [] := by
  induction ds using List.reverseRecOn with
  | nil => simp [kept]
  | append_singleton ds d ih =>
    rw [kept_append, forall_mem_append, forall_mem_singleton, ← ih, renewed]
    split_ifs with hnil
    · simp [hnil]
    · rw [Function.update_apply]
      by_cases hkey : key = hs.filePathHash (normalizePath d.path)
      · simp [hkey, hnil]
      · simp [hkey, Ne.symm hkey]

lemma Queryable.current_runAll (h : Queryable config kindOf name) (kind : IndexKind S)
    (hcarries : ∃ field ∈ config.indexes, Carries kindOf name kind.strategy field) (ds : List (Document H)) :
    (runAll tools kindOf config ds : IndexFiles S hs).current (name ++ '.' :: kind.strategy) = kept hs tools config name ds := by
  induction ds using List.reverseRecOn with
  | nil => rfl
  | append_singleton ds d ih =>
    rw [kept_append, ← ih, runAll, List.foldl_append]
    exact h.current_run kind hcarries _ d

def IndexFiles.catalog (files : IndexFiles S hs) (codec : MetadataCodec H) (dir : Str) : Catalog S H where
  hs := hs
  codec := codec
  records := .empty
  indexesAt d := if d = normalizePath dir then files.table else .empty
  values _ _ _ := []
  keys d e he := by
    split_ifs at he
    · exact files.keys e he
    · cases he
  holds _ _ _ _ _ hr := nomatch hr
  holdsMetadata _ _ _ _ _ _ hr := nomatch hr

lemma indexNamed_catalog (files : IndexFiles S hs) (codec : MetadataCodec H) (dir n : Str) :
    (files.catalog codec dir).indexNamed dir n = (files.table.get n).map (·.2) := by
  rw [indexNamed, catalog]
  dsimp only
  rw [if_pos rfl]

lemma mem_listIndexes_catalog {files : IndexFiles S hs} {codec : MetadataCodec H} {dir n : Str} :
    n ∈ (files.catalog codec dir).listIndexes dir ↔ ∃ stored, (n, stored) ∈ files.table.entries := by
  rw [listIndexes, (mergeSort_perm _ _).mem_iff, catalog]
  dsimp only
  rw [if_pos rfl]
  simp

variable {kind : IndexKind S}

lemma Queryable.of_isPrefix (h : Queryable config kindOf name) {fieldName : Str} {field : IndexFieldConfig}
    (hfield : field ∈ config.indexes) (hname : fieldName = field.name ∨ ∃ virtual : VirtualField, fieldName = virtual.name)
    (hpre : name ++ ['.'] <+: fieldName ++ '.' :: kind.strategy) : fieldName = name := by
  obtain ⟨rest, hrest⟩ := hpre
  rw [append_assoc, singleton_append] at hrest
  by_cases hdot : '.' ∈ fieldName
  · exfalso
    obtain ⟨a, b, rfl, ha⟩ := eq_append_cons_of_mem hdot
    have hbefore : ∀ s : Str, '.' ∉ s → ∀ t, (s ++ '.' :: t).takeWhile (· ≠ '.') = s := by
      intro s hs t
      rw [takeWhile_append_of_pos fun c hc => decide_eq_true (by rintro rfl; exact hs hc)]
      simp
    have hsplit := congrArg (List.takeWhile (· ≠ '.')) hrest
    rw [append_assoc, cons_append, hbefore name h.dotless, hbefore a ha] at hsplit
    obtain rfl : name = a := hsplit
    rcases hname with hname | ⟨virtual, hname⟩
    · exact h.apart field hfield ⟨b, by simpa using hname⟩
    · have hhead := hname ▸ virtual_name_head virtual
      cases name with
      | nil =>
        rw [nil_append] at hhead
        cases hhead
      | cons c name => exact h.content hhead
  · exact ((append_cons_inj_of_notMem hdot kind.dotless).mp hrest.symm).1

lemma strategyOf_append (hdot : '.' ∉ name) (strategy : Str) : strategyOf (name ++ '.' :: strategy) = strategy := by
  rw [strategyOf, if_pos (by simp), dropWhile_append_of_pos fun c hc => decide_eq_true (by rintro rfl; exact hdot hc)]
  simp

variable {files : IndexFiles S hs} {codec : MetadataCodec H} {dir : Str}

lemma Queryable.of_mem_load (h : Queryable config kindOf name) (hnamed : files.Named config kindOf) {stored : StoredIndex S H}
    (hmem : stored ∈ (files.catalog codec dir).loadIndexesForField dir name) :
    ∃ kind : IndexKind S, (∃ field ∈ config.indexes, Carries kindOf name kind.strategy field) ∧
      assigned stored.ops = files.current (name ++ '.' :: kind.strategy) := by
  obtain ⟨n, hn, hload⟩ := mem_filterMap.mp hmem
  obtain ⟨st, hst⟩ := mem_listIndexes_catalog.mp hn
  obtain ⟨field, hfield, kind, hkind, fieldName, rfl, hname⟩ := hnamed _ hst
  by_cases hmatch : fieldName ++ '.' :: kind.strategy = name ∨ (name ++ ['.']).isPrefixOf (fieldName ++ '.' :: kind.strategy)
  case neg =>
    rw [if_neg hmatch] at hload
    cases hload
  rw [if_pos hmatch] at hload
  have hfieldName : fieldName = name := by
    rcases hmatch with heq | hpre
    · exact absurd (heq ▸ by simp : '.' ∈ name) h.dotless
    · exact h.of_isPrefix hfield hname (List.isPrefixOf_iff_prefix.mp hpre)
  subst hfieldName
  have hget := Table.get_eq_some.mpr ⟨hst, rfl⟩
  rw [strategyOf_append h.dotless, loadIndexByStrategy, indexNamed_catalog, hget] at hload
  cases hload
  refine ⟨kind, ⟨field, hfield, ?_, by simp [hkind, Except.map, Except.toOption]⟩, by rw [current, hget]⟩
  rcases hname with rfl | ⟨virtual, rfl⟩
  · rfl
  · exact absurd (virtual_name_head virtual) h.content

lemma Queryable.load_ne_nil (h : Queryable config kindOf name) {key : H}
    (hne : files.current (name ++ '.' :: kind.strategy) key ≠ []) : (files.catalog codec dir).loadIndexesForField dir name ≠ [] := by
  cases hget : files.table.get (name ++ '.' :: kind.strategy) with
  | none =>
    rw [current, hget] at hne
    exact absurd rfl hne
  | some e =>
    obtain ⟨he, hname⟩ := Table.get_eq_some.mp hget
    apply ne_nil_of_mem (a := e.2)
    refine mem_filterMap.mpr ⟨e.1, mem_listIndexes_catalog.mpr ⟨e.2, he⟩, ?_⟩
    rw [hname, if_pos (.inr (List.isPrefixOf_iff_prefix.mpr ⟨kind.strategy, by simp⟩)), strategyOf_append h.dotless,
      loadIndexByStrategy, indexNamed_catalog, hget]
    rfl

lemma Queryable.returned_iff [LinearOrder S] (sc : Scale S) (h : Queryable config kindOf name) (ds : List (Document H)) (v : List UInt8) (key : H) :
    (∃ result, ((runAll tools kindOf config ds : IndexFiles S hs).catalog codec dir).evaluateIndexedFieldQuery sc ⟨name, .eq v⟩ dir = .ok result ∧
      key ∈ result) ↔ (kept hs tools config name ds key).getLast? = some v := by
  obtain ⟨field, hfield, hname, kind, hkind⟩ := h.typed
  have hcarries : Carries kindOf name kind.strategy field := ⟨hname, by simp [hkind, Except.map, Except.toOption]⟩
  have hcurrent : (runAll tools kindOf config ds : IndexFiles S hs).current (name ++ '.' :: kind.strategy) = kept hs tools config name ds :=
    h.current_runAll kind ⟨field, hfield, hcarries⟩ ds
  have hnamed : (runAll tools kindOf config ds : IndexFiles S hs).Named config kindOf :=
    List.foldlRecOn (motive := fun files => IndexFiles.Named config kindOf files) ds _ (fun _ h => nomatch h) fun _ h d _ => h.run d
  by_cases hload : ((runAll tools kindOf config ds : IndexFiles S hs).catalog codec dir).loadIndexesForField dir name = []
  · have hnil : kept hs tools config name ds key = [] := by
      by_contra hne
      rw [← hcurrent] at hne
      exact h.load_ne_nil hne hload
    rw [evaluateIndexedFieldQuery, hnil]
    dsimp only
    rw [evaluateExactFieldValues, hload]
    simp
  · obtain ⟨result, hok, hmem⟩ := mem_evaluateExactFieldValues sc _ hload [v]
    have hall : ∀ stored ∈ exactIndexes (((runAll tools kindOf config ds : IndexFiles S hs).catalog codec dir).loadIndexesForField dir name),
        assigned stored.ops = kept hs tools config name ds := by
      intro stored hstored
      obtain ⟨kind', hcarries', hassigned⟩ := h.of_mem_load hnamed (mem_of_mem_exactIndexes hstored)
      rw [hassigned, h.current_runAll kind' hcarries']
    rw [evaluateIndexedFieldQuery]
    dsimp only
    rw [hok]
    constructor
    · rintro ⟨_, heq, hkey⟩
      rw [← ok.inj heq] at hkey
      obtain ⟨stored, hstored, w, hw, hlast⟩ := (hmem key).mp hkey
      rw [hall stored hstored] at hlast
      rw [hlast, mem_singleton.mp hw]
    · intro hlast
      obtain ⟨stored, hstored⟩ := exists_mem_of_ne_nil _ (exactIndexes_ne_nil hload)
      refine ⟨result, rfl, (hmem key).mpr ⟨stored, hstored, v, mem_singleton_self v, ?_⟩⟩
      rw [hall stored hstored, hlast]

end

/-- After the last run the exact queries for the field answer for the file as it is now exactly if the field has no two different values
in it, and, where the field has none, it had none before. -/
theorem reindexed_iff [LinearOrder S] (sc : Scale S) (tools : IndexingTools H) (config : PathIndexConfig)
    (kindOf : IndexFieldConfig → EngineResult (IndexKind S)) (name dir : Str) (h : Queryable config kindOf name) (ds : List (Document H))
    (d : Document H) (hpublic : ∀ x ∈ ds ++ [d], isInternalPath x.path = false) :
    (∀ v, (∃ result, ((runAll tools kindOf config (ds ++ [d]) : IndexFiles S hs).catalog tools.codec dir).evaluateIndexedFieldQuery sc
        ⟨name, .eq v⟩ dir = .ok result ∧ hs.filePathHash (normalizePath d.path) ∈ result) ↔ v ∈ fieldValues tools config name d) ↔
      (∀ v ∈ fieldValues tools config name d, ∀ w ∈ fieldValues tools config name d, v = w) ∧
        (fieldValues tools config name d = [] → ∀ x ∈ ds, hs.filePathHash (normalizePath x.path) = hs.filePathHash (normalizePath d.path) →
          fieldValues tools config name x = []) := by
  have hindexed : ∀ x ∈ ds ++ [d], indexedValues tools config name x = fieldValues tools config name x := by
    intro x hx
    rw [indexedValues, hpublic x hx, if_neg Bool.false_ne_true]
  have hearlier : kept hs tools config name ds (hs.filePathHash (normalizePath d.path)) = [] ↔
      ∀ x ∈ ds, hs.filePathHash (normalizePath x.path) = hs.filePathHash (normalizePath d.path) → fieldValues tools config name x = [] := by
    rw [kept_eq_nil_iff]
    refine forall₂_congr fun x hx => ?_
    rw [hindexed x (mem_append_left _ hx)]
  simp only [h.returned_iff sc, kept_append, hindexed d (by simp), renewed, ← hearlier]
  by_cases hnil : fieldValues tools config name d = []
  · rw [hnil]
    simp only [if_true, not_mem_nil, iff_false, forall_const, IsEmpty.forall_iff, true_and]
    rw [← Option.eq_none_iff_forall_ne_some, getLast?_eq_none_iff]
  · rw [if_neg hnil, Function.update_self]
    simp only [hnil, IsEmpty.forall_iff, and_true]
    exact getLast?_finds_iff

def byteTools : IndexingTools Digest where
  codec := ⟨fun s => s.map fun c => UInt8.ofNat c.toNat, fun _ => none, fun _ => []⟩
  render _ := []
  compileRegex _ := none
  parseJson data :=
    match data with
    | [0] => .ok (.object [])
    | [b] => .ok (.object [(['x'], .number (.posInt b.toUInt64))])
    | _ => .error (.jsonParseError "Invalid JSON")
  parserFor _ := none
  invokeParser _ _ _ _ := .error (.notFound "Plugin manager required for parser invocation")
  parseNative _ _ _ := none
  invokeMapper _ _ _ := .error (.notFound "Plugin manager required for mapper")

def numberX : PathIndexConfig := ⟨[⟨['x'], "u64".toList, none, none, none⟩], none⟩

def u64Kind (_ : IndexFieldConfig) : EngineResult (IndexKind ℕ) :=
  .ok ⟨"u64".toList, wholeValue (fun _ => 0) true "u64" .u64, fun _ _ _ => rfl, by decide⟩

def withData (data : List UInt8) : Document Digest := ⟨"/f".toList, data, none, none⟩

lemma queryable_numberX : Queryable numberX u64Kind ['x'] where
  content := by decide
  dotless := by decide
  apart := by simp [numberX]
  source := by simp [numberX]
  typed := ⟨_, mem_singleton_self _, rfl, _, rfl⟩

/-- The file had the number 1. Now the field is gone, or the file cannot be parsed: the query for 1 still finds it. -/
theorem stale_value_found :
    (fieldValues byteTools numberX ['x'] (withData [0]) = [] ∧
      ∃ result, ((runAll byteTools u64Kind numberX [withData [1], withData [0]] : IndexFiles ℕ Digest.hasher).catalog byteTools.codec
          ['/']).evaluateIndexedFieldQuery natScale ⟨['x'], .eq (beBytes 8 1)⟩ ['/'] = .ok result ∧
        Digest.hasher.filePathHash (normalizePath "/f".toList) ∈ result) ∧
    (parseIndexDocument byteTools numberX (withData []) = none ∧
      ∃ result, ((runAll byteTools u64Kind numberX [withData [1], withData []] : IndexFiles ℕ Digest.hasher).catalog byteTools.codec
          ['/']).evaluateIndexedFieldQuery natScale ⟨['x'], .eq (beBytes 8 1)⟩ ['/'] = .ok result ∧
        Digest.hasher.filePathHash (normalizePath "/f".toList) ∈ result) := by
  refine ⟨⟨by decide, ?_⟩, ⟨rfl, ?_⟩⟩
  · exact (queryable_numberX.returned_iff natScale _ _ _).mpr (by decide)
  · exact (queryable_numberX.returned_iff natScale _ _ _).mpr (by decide)

theorem reindexed_number :
    Queryable numberX u64Kind ['x'] ∧ (∀ x ∈ [withData [1]] ++ [withData [2]], isInternalPath x.path = false) ∧
      ∀ v, (∃ result, ((runAll byteTools u64Kind numberX ([withData [1]] ++ [withData [2]]) : IndexFiles ℕ Digest.hasher).catalog byteTools.codec
          ['/']).evaluateIndexedFieldQuery natScale ⟨['x'], .eq v⟩ ['/'] = .ok result ∧
        Digest.hasher.filePathHash (normalizePath (withData [2]).path) ∈ result) ↔ v ∈ fieldValues byteTools numberX ['x'] (withData [2]) := by
  have hpublic : ∀ x ∈ [withData [1]] ++ [withData [2]], isInternalPath x.path = false := by decide
  have hvalues : fieldValues byteTools numberX ['x'] (withData [2]) = [beBytes 8 2] := by decide
  refine ⟨queryable_numberX, hpublic, (reindexed_iff natScale byteTools numberX u64Kind ['x'] ['/'] queryable_numberX [withData [1]]
    (withData [2]) hpublic).mpr ⟨?_, ?_⟩⟩
  · rw [hvalues]
    simp
  · intro hnil
    rw [hvalues] at hnil
    cases hnil

end AeorDb.Query
