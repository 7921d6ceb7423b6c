import NexusEtl.ConfigModels
import NexusEtl.Text

/-!
# Loading the configuration

The maps of the configuration file, of the environment and of the command line
are merged in this order, and a trace keeps for each dotted name the last source
that set it. The environment may not set the denied sections and fields: its
variables are refused by their dotted name before they become a map.
-/

set_option autoImplicit false

namespace NexusEtl
open NexusEtl.Library

def envPrefix : String := "ANKEY_"

def envOverrideDeniedSections : List String := ["vault_management","runtime"]

def envOverrideDeniedFields : List String := ["paths.cache_dir","paths.log_dir",
  "paths.report_dir","paths.plans_dir","dataset.registry_path","sqlite.vault_db_path",
  "sqlite.cache_db_path","sqlite.identity_db_path"]

/-- A map in which no two entries have one key, inside and out. -/
structure ConfigSource where
  children : ConfigMap
  unique : Tree.Unique children

/-- The overrides of the command line by their dotted paths. -/
structure CliOverrides where
  entries : List (String × Tree String PlainValue)
  keys : (Dict.keys entries).Nodup
  unique : ∀ e ∈ entries, ∀ found, e.2 = .node found → Tree.Unique found

/-- `split("__")`, on the characters of a name. -/
def splitLevels : List Char → List (List Char)
  | [] => [[]]
  | '_' :: '_' :: rest => []::splitLevels rest
  | c::rest => match splitLevels rest with
    | [] => [[c]]
    | first::others => (c::first)::others

/-- The path and the text that a variable of the environment sets. The name is cut at its first
separator, and the rest of it at the others; `lower` is `str.lower`. -/
def envAssignment (lower : String → String) (entry : String × String) :
    Option (List String × String) :=
  if !Text.hasPrefix envPrefix entry.1 then none
  else match (splitLevels (Text.dropPrefix envPrefix entry.1).toList).map String.ofList with
  | [] => none
  | [_] => none
  | sectionRaw::fieldRaw =>
    let stripped := Text.strip entry.2
    let sectionName := lower sectionRaw
    let fieldParts := (fieldRaw.filter (· ≠ "")).map lower
    if stripped = "" then none
    else if sectionName ∈ envOverrideDeniedSections then none
    else if fieldParts = [] then none
    else if Text.join "." (sectionName::fieldParts) ∈ envOverrideDeniedFields then none
    else some (sectionName::fieldParts,stripped)

def envAssignments (lower : String → String) (env : List (String × String)) :
    List (List String × PlainValue) :=
  (env.filterMap (envAssignment lower)).map fun e => (e.1,.text e.2)

/-- `_collect_env_overrides` -/
def collectEnvOverrides (lower : String → String) (env : List (String × String)) : ConfigMap :=
  Tree.ofEntries (Tree.plain (envAssignments lower env))

/-- The override of a key, unless it is `None`. -/
def cliAssignment (e : String × Tree String PlainValue) :
    Option (List String × Tree String PlainValue) :=
  match e.2 with
  | .leaf v => if v.isNull then none else some (Text.splitOn '.' e.1,.leaf v)
  | .node children => some (Text.splitOn '.' e.1,.node children)

/-- `_dotted_to_nested` -/
def dottedToNested (overrides : CliOverrides) : ConfigMap :=
  Tree.ofEntries (overrides.entries.filterMap cliAssignment)

abbrev SourceTrace := Dict String String

def SourceTrace.fullKey (pfx key : String) : String := if pfx = "" then key else pfx ++ "." ++ key

mutual

/-- The body of the loop of `_deep_merge`, on the target and the trace. -/
def deepMergeEntry (source pfx key : String) (state : ConfigMap × SourceTrace) :
    Tree String PlainValue → ConfigMap × SourceTrace
  | .leaf v =>
    if v.isNull then state
    else (Dict.set state.1 key (.leaf v),Dict.set state.2 (SourceTrace.fullKey pfx key) source)
  | .node children =>
    let inner :=
      deepMerge source (SourceTrace.fullKey pfx key) (Tree.under state.1 key,state.2) children
    (Dict.set state.1 key (.node inner.1),inner.2)

/-- `_deep_merge` -/
def deepMerge (source pfx : String) (state : ConfigMap × SourceTrace) :
    List (String × Tree String PlainValue) → ConfigMap × SourceTrace
  | [] => state
  | (key,t)::rest => deepMerge source pfx (deepMergeEntry source pfx key state t) rest

end

mutual

/-- The body of the loop of `_fill_model_default_trace`. -/
def fillFieldDefaultTrace (full : String) (trace : SourceTrace) : Schema → SourceTrace
  | .field _ _ => if Dict.contains trace full then trace else Dict.set trace full "default"
  | .mapping _ _ => if Dict.contains trace full then trace else Dict.set trace full "default"
  | .model fields => fillModelDefaultTrace full trace fields

/-- `_fill_model_default_trace` -/
def fillModelDefaultTrace (pfx : String) (trace : SourceTrace) :
    List (String × Schema) → SourceTrace
  | [] => trace
  | (name,schema)::rest =>
    fillModelDefaultTrace pfx (fillFieldDefaultTrace (SourceTrace.fullKey pfx name) trace schema)
      rest

end

structure LoadedAppConfig where
  appConfig : AppConfig
  sourceTrace : SourceTrace

inductive SettingsLoadError where
  | source (message rawValue : String)
  | validation
  deriving DecidableEq, Repr

/-- What a load depends on: how the fields are checked, `str.lower`, and the reading of a file,
which fails with the text of an exception. -/
structure ConfigReader where
  types : FieldTypes
  lower : String → String
  readYaml : String → Except String ConfigSource

namespace ConfigReader

variable (reader : ConfigReader)

/-- `_read_config` -/
def readConfig (configPath : String) : Except SettingsLoadError ConfigSource :=
  (reader.readYaml configPath).mapError fun exc =>
    .source ("Unable to read config: " ++ exc) configPath

/-- The map of the configuration file, empty without a path. -/
def yamlData : Option String → Except SettingsLoadError ConfigSource
  | none => .ok ⟨[],.nil⟩
  | some configPath => if configPath = "" then .ok ⟨[],.nil⟩ else reader.readConfig configPath

/-- The sources from the lowest priority to the highest one. -/
def sources (yaml : ConfigSource) (env : List (String × String)) (overrides : CliOverrides) :
    List (String × ConfigMap) :=
  [("config",yaml.children), ("env",collectEnvOverrides reader.lower env),
    ("cli",dottedToNested overrides)]

/-- The maps merged in order, with the trace. -/
def mergeSources (sources : List (String × ConfigMap)) : ConfigMap × SourceTrace :=
  sources.foldl (fun state source => deepMerge source.1 "" state source.2) ([],[])

/-- `load_app_config` -/
def loadAppConfig (configPath : Option String) (env : List (String × String))
    (overrides : CliOverrides) : Except SettingsLoadError LoadedAppConfig := do
  let yaml ← reader.yamlData configPath
  let merged := mergeSources (reader.sources yaml env overrides)
  match Schema.validate reader.types (.model AppConfig.fields) (some (.node merged.1)) with
  | some (.node appConfig) =>
    return ⟨appConfig,fillModelDefaultTrace "" merged.2 AppConfig.fields⟩
  | _ => .error .validation

end ConfigReader

/-! ## The merged map -/

theorem deepMerge_fst (source pfx : String) (state : ConfigMap × SourceTrace)
    (data : ConfigMap) :
    (deepMerge source pfx state data).1 = Tree.merge PlainValue.isNull state.1 data := by
  induction data using Tree.children_induction generalizing pfx state with
  | nil => rfl
  | leaf key v rest ih =>
    rw [deepMerge, ih, Tree.merge, deepMergeEntry, Tree.mergeEntry]
    split <;> rfl
  | node key children rest ihinner ihrest =>
    rw [deepMerge, ihrest, Tree.merge, deepMergeEntry, Tree.mergeEntry, ihinner]

/-- The sources set the plain values that are not null. -/
abbrev ConfigMap.sets (data : ConfigMap) (path : List String) : Option PlainValue :=
  Tree.sets PlainValue.isNull data path

theorem mergeSources_fst (sources : List (String × ConfigMap)) :
    (ConfigReader.mergeSources sources).1 = Tree.mergeAll PlainValue.isNull sources := by
  induction sources using List.reverseRecOn with
  | nil => rfl
  | append_singleton sources last ih =>
    rw [Tree.mergeAll_append, ← ih, ConfigReader.mergeSources, List.foldl_append]
    exact deepMerge_fst last.1 "" (ConfigReader.mergeSources sources) last.2

theorem unique_sources (reader : ConfigReader) (yaml : ConfigSource) (env : List (String × String))
    (overrides : CliOverrides) :
    ∀ s ∈ reader.sources yaml env overrides, Tree.Unique s.2 := by
  intro s hs
  simp only [ConfigReader.sources, List.mem_cons, List.not_mem_nil, or_false] at hs
  rcases hs with rfl | rfl | rfl
  · exact yaml.unique
  · exact Tree.unique_plain _
  · refine Tree.unique_ofEntries fun e he found hfound => ?_
    obtain ⟨⟨key,t⟩,hentry,hassigned⟩ := List.mem_filterMap.mp he
    cases t with
    | leaf v =>
      by_cases hnull : v.isNull = true
      · simp [cliAssignment, hnull] at hassigned
      · simp only [cliAssignment, hnull, Bool.false_eq_true, if_false,
          Option.some.injEq] at hassigned
        rw [← hassigned] at hfound
        cases hfound
    | node children =>
      cases hassigned
      exact overrides.unique _ hentry found hfound

/-- A variable sets a path below a section, and neither the section nor the path is denied. -/
theorem envAssignments_allowed {lower : String → String} {env : List (String × String)}
    {e : List String × PlainValue} (he : e ∈ envAssignments lower env) :
    ∃ sectionName fieldParts, e.1 = sectionName::fieldParts ∧ fieldParts ≠ [] ∧
      sectionName ∉ envOverrideDeniedSections ∧
      Text.join "." e.1 ∉ envOverrideDeniedFields := by
  obtain ⟨assigned,hassigned,rfl⟩ := List.mem_map.mp he
  obtain ⟨entry,-,hentry⟩ := List.mem_filterMap.mp hassigned
  rw [envAssignment] at hentry
  split at hentry
  · cases hentry
  · split at hentry
    · cases hentry
    · cases hentry
    · next sectionRaw fieldRaw hnot hlevels =>
      simp only [Option.ite_none_left_eq_some, Option.some.injEq] at hentry
      obtain ⟨-,hsection,hparts,hfield,rfl⟩ := hentry
      exact ⟨lower sectionRaw,_,rfl,hparts,hsection,hfield⟩

/-- A load succeeds when the file is read and the merged map is valid. -/
theorem ConfigReader.loadAppConfig_ok_iff {reader : ConfigReader} {configPath : Option String}
    {env : List (String × String)} {overrides : CliOverrides} {loaded : LoadedAppConfig} :
    reader.loadAppConfig configPath env overrides = .ok loaded ↔
      ∃ yaml, reader.yamlData configPath = .ok yaml ∧
        Schema.validate reader.types (.model AppConfig.fields)
          (some (.node (mergeSources (reader.sources yaml env overrides)).1)) =
            some (.node loaded.appConfig) ∧
        loaded.sourceTrace = fillModelDefaultTrace ""
          (mergeSources (reader.sources yaml env overrides)).2 AppConfig.fields := by
  cases hyaml : reader.yamlData configPath with
  | error e => simp [loadAppConfig, hyaml, bind, Except.bind]
  | ok yaml =>
    simp only [loadAppConfig, hyaml, bind, Except.bind]
    generalize AppConfig.fields = fields
    constructor
    · intro h
      split at h
      · next config hvalid =>
        cases h
        exact ⟨yaml,rfl,hvalid,rfl⟩
      · cases h
    · rintro ⟨_,⟨⟩,hvalid,htrace⟩
      rw [hvalid, ← htrace]
      rfl

/-! ## The trace -/

/-- The dotted name of a path. -/
def dotted (path : List String) : String := path.foldl SourceTrace.fullKey ""

theorem deepMerge_snd (source pfx : String) (state : ConfigMap × SourceTrace)
    (data : ConfigMap) :
    (deepMerge source pfx state data).2 =
      (((Tree.leaves data).filter fun e => !e.2.isNull).map fun e =>
        e.1.foldl SourceTrace.fullKey pfx).foldl
        (fun trace name => Dict.set trace name source) state.2 := by
  induction data using Tree.children_induction generalizing pfx state with
  | nil => rfl
  | leaf key v rest ih =>
    rw [deepMerge, ih, Tree.leaves, deepMergeEntry, Tree.leavesOf]
    by_cases hnull : v.isNull = true
    · simp [hnull]
    · simp [hnull]
  | node key children rest ihinner ihrest =>
    rw [deepMerge, ihrest, Tree.leaves, deepMergeEntry, Tree.leavesOf, List.filter_append,
      List.map_append, List.foldl_append, ihinner, List.filter_map, List.map_map]
    rfl

/-! ## A reader of texts -/

/-- Fields that take texts: any text, a text that is not blank, or one of the names. -/
def textTypes : FieldTypes
  | .text, ⟨.str s,_⟩ => some (.str s)
  | .path, ⟨.str s,_⟩ => if Text.strip s = "" then none else some (.str (Text.strip s))
  | .choice names, ⟨.str s,_⟩ => if s ∈ names then some (.str s) else none
  | _, _ => none

/-- A reader whose files all hold one map. -/
def textReader (yaml : ConfigSource) : ConfigReader where
  types := textTypes
  lower := Text.lower
  readYaml := fun _ => .ok yaml

def noOverrides : CliOverrides := ⟨[],List.nodup_nil,fun _ h => absurd h List.not_mem_nil⟩

/-- A merged map that is valid is loaded. -/
theorem ConfigReader.exists_loaded {reader : ConfigReader} {configPath : Option String}
    {env : List (String × String)} {overrides : CliOverrides} {yaml : ConfigSource}
    (hyaml : reader.yamlData configPath = .ok yaml) {merged : ConfigMap}
    (hmerged : (mergeSources (reader.sources yaml env overrides)).1 = merged)
    (hvalid : (Schema.validate reader.types (.model AppConfig.fields)
      (some (.node merged))).isSome = true) :
    ∃ loaded, reader.loadAppConfig configPath env overrides = .ok loaded := by
  obtain ⟨t,ht⟩ := Option.isSome_iff_exists.mp hvalid
  obtain ⟨-,config,-,rfl⟩ := Schema.validate_model_children ht
  refine ⟨⟨config,fillModelDefaultTrace ""
    (mergeSources (reader.sources yaml env overrides)).2 AppConfig.fields⟩,
    loadAppConfig_ok_iff.mpr ⟨yaml,hyaml,?_,?_⟩⟩
  · rw [hmerged]
    exact ht
  · dsimp only

end NexusEtl
