import NexusEtl.ConfigLoader

/-!
# Denied settings

The environment cannot touch a denied section, since no variable sets a path in
it. A variable below a denied field puts a map in the place of the field, and
the validation refuses the map. What is loaded for the denied settings is what
the file and the command line say.
-/

set_option autoImplicit false

namespace NexusEtl
open NexusEtl.Library

/-- Whether a path is denied to the environment: it is in a denied section, or a denied field. -/
def deniedPath (path : List String) : Bool :=
  decide (∃ sectionName ∈ envOverrideDeniedSections, path.head? = some sectionName) ||
    decide (Text.join "." path ∈ envOverrideDeniedFields)

theorem deniedPath_iff {path : List String} : deniedPath path = true ↔
    (∃ sectionName ∈ envOverrideDeniedSections, path.head? = some sectionName) ∨
      Text.join "." path ∈ envOverrideDeniedFields := by
  rw [deniedPath, Bool.or_eq_true, decide_eq_true_iff, decide_eq_true_iff]

set_option maxRecDepth 4096 in
/-- The denied settings are plain fields, and those outside the denied sections are fields of a
section. -/
theorem denied_fields : ∀ path ∈ Schema.fieldPaths AppConfig.fields, deniedPath path = true →
    path ∈ Schema.plainPaths AppConfig.fields ∧ path.length = 2 := by
  decide

/-- A variable that sets a plain value at a denied path or above it does not exist. -/
theorem not_denied_of_sets {lower : String → String} {env : List (String × String)}
    {path above : List String} (hpath : path.length = 2) (hdenied : deniedPath path = true)
    {v : PlainValue} (hsets : (collectEnvOverrides lower env).sets above = some v) :
    ¬above <+: path := by
  intro habove
  have hlook := (Tree.sets_iff.mp hsets).1
  have hne : ∀ e ∈ envAssignments lower env, e.1 ≠ [] := by
    intro e he
    obtain ⟨sectionName,fieldParts,heq,-⟩ := envAssignments_allowed he
    exact heq ▸ List.cons_ne_nil sectionName fieldParts
  obtain ⟨sectionName,fieldParts,heq,hparts,hsection,hfield⟩ :=
    envAssignments_allowed (Tree.mem_of_look_plain hne hlook)
  replace heq : above = sectionName::fieldParts := heq
  have hlong : path.length ≤ above.length := by
    have hpos := List.length_pos_of_ne_nil hparts
    have hlength := congrArg List.length heq
    rw [List.length_cons] at hlength
    omega
  obtain rfl := habove.eq_of_length_le hlong
  rcases deniedPath_iff.mp hdenied with ⟨denied,hmem,hhead⟩ | hjoined
  · have hfirst : above.head? = some sectionName := congrArg List.head? heq
    cases hfirst.symm.trans hhead
    exact hsection hmem
  · exact hfield hjoined

/-- Where the environment sets no plain value at a path or above it, the merged map has there a map
or what it has without the environment. -/
theorem look_without_env (reader : ConfigReader) (yaml : ConfigSource)
    (env : List (String × String)) (overrides : CliOverrides) {path : List String}
    (henv : ∀ above, above <+: path →
      (collectEnvOverrides reader.lower env).sets above = none) :
    let merged := Tree.mergeAll PlainValue.isNull (reader.sources yaml env overrides)
    Tree.look merged path = some none ∨ Tree.look merged path =
      Tree.look (Tree.mergeAll PlainValue.isNull (reader.sources yaml [] overrides)) path := by
  intro merged
  have hunique := unique_sources reader yaml env overrides
  have hcovers : Tree.covers PlainValue.isNull (collectEnvOverrides reader.lower env) path =
      false := by
    rw [Bool.eq_false_iff]
    intro hcovers
    obtain ⟨above,habove,v,hv⟩ := Tree.covers_iff.mp hcovers
    cases (henv above habove).symm.trans (Tree.sets_eq_some_iff.mpr hv)
  exact Tree.look_merge_congr (hunique ("cli",dottedToNested overrides)
      (by simp [ConfigReader.sources]))
    (Tree.look_merge_of_not_covers _ (hunique ("env",collectEnvOverrides reader.lower env)
      (by simp [ConfigReader.sources])) hcovers)

/-- The environment does not change what is loaded for a denied setting. -/
theorem denied_settings_agree (reader : ConfigReader) (configPath : Option String)
    (env env' : List (String × String)) (overrides : CliOverrides)
    {loaded loaded' : LoadedAppConfig}
    (h : reader.loadAppConfig configPath env overrides = .ok loaded)
    (h' : reader.loadAppConfig configPath env' overrides = .ok loaded') :
    ∀ path ∈ Schema.fieldPaths AppConfig.fields, deniedPath path = true →
      ∃ v, Tree.look loaded.appConfig path = some (some v) ∧
        Tree.look loaded'.appConfig path = some (some v) := by
  intro path hpath hdenied
  obtain ⟨yaml,hyaml,hmodel,-⟩ := ConfigReader.loadAppConfig_ok_iff.mp h
  obtain ⟨yaml',hyaml',hmodel',-⟩ := ConfigReader.loadAppConfig_ok_iff.mp h'
  cases hyaml.symm.trans hyaml'
  obtain ⟨-,_,hvalid,⟨⟩⟩ := Schema.validate_model_children hmodel
  obtain ⟨-,_,hvalid',⟨⟩⟩ := Schema.validate_model_children hmodel'
  obtain ⟨hplain,hlength⟩ := denied_fields path hpath hdenied
  rw [mergeSources_fst] at hvalid hvalid'
  obtain ⟨hgiven,v,hv⟩ := Schema.look_plain_field AppConfig.wellNamed_fields hvalid hplain
  obtain ⟨hgiven',-⟩ := Schema.look_plain_field AppConfig.wellNamed_fields hvalid' hplain
  have hwithout := fun env : List (String × String) =>
    look_without_env reader yaml env overrides fun above habove =>
      Option.eq_none_iff_forall_not_mem.mpr fun w hw =>
        not_denied_of_sets hlength hdenied hw habove
  have hlook := ((hwithout env).resolve_left hgiven).trans
    ((hwithout env').resolve_left hgiven').symm
  refine ⟨v,hv,?_⟩
  rw [← hv]
  exact (Schema.look_validate_congr AppConfig.wellNamed_fields hvalid hvalid' hpath hlook
    hgiven).symm

def cacheDirYaml : ConfigSource where
  children := Tree.ofEntries (Tree.plain [(["paths","cache_dir"],.text "var/cache")])
  unique := Tree.unique_plain _

def apiHostEnv : List (String × String) :=
  [("ANKEY_API__HOST","api.local"),("ANKEY_PATHS__CACHE_DIR","/tmp/cache")]

def runtimeRootEnv : List (String × String) := [("ANKEY_RUNTIME__RUNTIME_ROOT","/tmp")]

theorem denied_settings_agree_cache_dir : ∃ loaded loaded',
    (textReader cacheDirYaml).loadAppConfig (some "config.yml") apiHostEnv noOverrides =
        .ok loaded ∧
      (textReader cacheDirYaml).loadAppConfig (some "config.yml") runtimeRootEnv noOverrides =
        .ok loaded' ∧
      ∃ v, Tree.look loaded.appConfig ["paths","cache_dir"] = some (some v) ∧
        Tree.look loaded'.appConfig ["paths","cache_dir"] = some (some v) := by
  have hyaml : (textReader cacheDirYaml).yamlData (some "config.yml") = .ok cacheDirYaml := rfl
  have hassigned : apiHostEnv.filterMap (envAssignment (textReader cacheDirYaml).lower) =
    [(["api","host"],"api.local")] := by decide
  have hassigned' : runtimeRootEnv.filterMap (envAssignment (textReader cacheDirYaml).lower) =
    [] := by decide
  have hmerged : (ConfigReader.mergeSources
      ((textReader cacheDirYaml).sources cacheDirYaml apiHostEnv noOverrides)).1 =
      [("paths",.node [("cache_dir",.leaf (.text "var/cache"))]),
        ("api",.node [("host",.leaf (.text "api.local"))])] := by
    rw [mergeSources_fst, ConfigReader.sources, collectEnvOverrides, envAssignments, hassigned]
    rfl
  have hmerged' : (ConfigReader.mergeSources
      ((textReader cacheDirYaml).sources cacheDirYaml runtimeRootEnv noOverrides)).1 =
      [("paths",.node [("cache_dir",.leaf (.text "var/cache"))])] := by
    rw [mergeSources_fst, ConfigReader.sources, collectEnvOverrides, envAssignments, hassigned']
    rfl
  obtain ⟨loaded,h⟩ := ConfigReader.exists_loaded hyaml hmerged (by decide)
  obtain ⟨loaded',h'⟩ := ConfigReader.exists_loaded hyaml hmerged' (by decide)
  exact ⟨loaded,loaded',h,h',
    denied_settings_agree _ _ _ _ _ h h' ["paths","cache_dir"] (by decide) (by decide)⟩

end NexusEtl
