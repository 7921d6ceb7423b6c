import NexusEtl.ConfigLoader
import NexusEtl.Library.Segments

/-!
# Precedence of the sources

A plain value of the merged map is the one of the highest source that sets its
path, and the trace of a field names this source. The environment is read in its
order, which matters where two variables set one path or a path and one inside
it. A mapping has no plain value of its own, so that its trace says `default`
whatever was set below it.
-/

set_option autoImplicit false

namespace NexusEtl
open NexusEtl.Library Schema

/-! ## Dotted names -/

theorem textBytes_append (s t : String) : textBytes (s ++ t) = textBytes s ++ textBytes t := by
  rw [textBytes, String.toByteArray_append, ByteArray.toList_data_append]
  rfl

theorem textBytes_injective : Function.Injective textBytes := by
  intro s t h
  exact String.toByteArray_inj.mp (ByteArray.ext (Array.toList_inj.mp h))

theorem isName_iff {name : String} : isName name = true ↔ name ≠ "" ∧ 46 ∉ textBytes name := by
  simp [isName]

/-- Below a name, a path adds its keys after dots. -/
theorem textBytes_foldl_fullKey {pfx : String} (hpfx : pfx ≠ "") (path : List String) :
    textBytes (path.foldl SourceTrace.fullKey pfx) =
      textBytes pfx ++ Segments.separated 46 textBytes path := by
  induction path generalizing pfx with
  | nil => exact (List.append_nil _).symm
  | cons k path ih =>
    have hdot : textBytes "." = [46] := by decide
    have hnil : textBytes "" = [] := rfl
    have hlong : pfx ++ "." ++ k ≠ "" := by
      intro hempty
      have hbytes := congrArg textBytes hempty
      rw [textBytes_append, textBytes_append, hdot, hnil] at hbytes
      simp at hbytes
    rw [List.foldl_cons, SourceTrace.fullKey, if_neg hpfx, ih hlong, textBytes_append,
      textBytes_append, hdot, Segments.separated_cons]
    simp

theorem textBytes_dotted {k : String} (hk : k ≠ "") (path : List String) :
    textBytes (dotted (k::path)) = textBytes k ++ Segments.separated 46 textBytes path := by
  rw [dotted, List.foldl_cons, SourceTrace.fullKey, if_pos rfl, textBytes_foldl_fullKey hk]

/-- Names above a path with the dotted name of names stand above these names. -/
theorem prefix_of_dotted {left path other : List String} (hleft : left ≠ [])
    (hleftNames : ∀ k ∈ left, isName k = true) (hpathNames : ∀ k ∈ path, isName k = true)
    (hpath : path ≠ []) (hother : left <+: other) (h : dotted other = dotted path) :
    left <+: path ∧ (left = path → other = path) := by
  obtain ⟨s,rfl⟩ := hother
  obtain ⟨k,ks,rfl⟩ := List.exists_cons_of_ne_nil hleft
  obtain ⟨k',ks',rfl⟩ := List.exists_cons_of_ne_nil hpath
  have hnames : ∀ {l : List String}, (∀ x ∈ l, isName x = true) → ∀ x ∈ l, 46 ∉ textBytes x :=
    fun hl x hx => (isName_iff.mp (hl x hx)).2
  have hk := isName_iff.mp (hleftNames k List.mem_cons_self)
  have hk' := isName_iff.mp (hpathNames k' List.mem_cons_self)
  have hbytes := congrArg textBytes h
  rw [List.cons_append, textBytes_dotted hk.1, textBytes_dotted hk'.1] at hbytes
  obtain ⟨hfirst,hpre,hnil⟩ := Segments.prefix_of_separated textBytes_injective hk.2 hk'.2
    (hnames fun x hx => hleftNames x (.tail _ hx)) (hnames fun x hx => hpathNames x (.tail _ hx))
    hbytes
  obtain rfl := textBytes_injective hfirst
  refine ⟨List.cons_prefix_cons.mpr ⟨rfl,hpre⟩,fun heq => ?_⟩
  rw [hnil (List.cons.inj heq).2, List.append_nil, heq]

/-! ## The trace -/

theorem get?_foldl_set (names : List String) (source : String) (trace : SourceTrace)
    (name : String) :
    Dict.get? (names.foldl (fun trace name => Dict.set trace name source) trace) name =
      if name ∈ names then some source else Dict.get? trace name := by
  induction names generalizing trace with
  | nil => rfl
  | cons first names ih =>
    rw [List.foldl_cons, ih, Dict.get?_set]
    by_cases hname : first = name
    · simp [hname]
    · simp [hname, Ne.symm hname]

theorem mem_names_iff {data : ConfigMap} (h : Tree.Unique data) {name : String} :
    name ∈ ((Tree.leaves data).filter fun e => !e.2.isNull).map (fun e => dotted e.1) ↔
      ∃ path v, data.sets path = some v ∧ dotted path = name := by
  simp only [List.mem_map, List.mem_filter, Prod.exists, Tree.mem_leaves h, Tree.sets_iff,
    Bool.not_eq_true']

/-- A merge traces the names of what its source sets, and no other name. -/
theorem get?_deepMerge_of_sets {source : String} {state : ConfigMap × SourceTrace}
    {data : ConfigMap} (h : Tree.Unique data) {path : List String} {v : PlainValue}
    (hsets : data.sets path = some v) :
    Dict.get? (deepMerge source "" state data).2 (dotted path) = some source := by
  rw [deepMerge_snd, get?_foldl_set]
  exact if_pos ((mem_names_iff h).mpr ⟨path,v,hsets,rfl⟩)

theorem get?_deepMerge_of_not {source : String} {state : ConfigMap × SourceTrace}
    {data : ConfigMap} (h : Tree.Unique data) {name : String}
    (hnot : ∀ path v, data.sets path = some v → dotted path ≠ name) :
    Dict.get? (deepMerge source "" state data).2 name = Dict.get? state.2 name := by
  rw [deepMerge_snd, get?_foldl_set]
  refine if_neg fun hmem => ?_
  obtain ⟨path,v,hsets,heq⟩ := (mem_names_iff h).mp hmem
  exact hnot path v hsets heq

theorem mergeSources_append (sources : List (String × ConfigMap)) (last : String × ConfigMap) :
    ConfigReader.mergeSources (sources ++ [last]) =
      deepMerge last.1 "" (ConfigReader.mergeSources sources) last.2 := by
  simp [ConfigReader.mergeSources]

/-- The trace keeps the last source that sets a name. -/
theorem get?_mergeSources_of_last {before after : List (String × ConfigMap)}
    {s : String × ConfigMap} (h : ∀ u ∈ before ++ s::after, Tree.Unique u.2) {path : List String}
    {v : PlainValue} (hsets : s.2.sets path = some v)
    (hafter : ∀ later ∈ after, ∀ other w, later.2.sets other = some w →
      dotted other ≠ dotted path) :
    Dict.get? (ConfigReader.mergeSources (before ++ s::after)).2 (dotted path) = some s.1 := by
  induction after using List.reverseRecOn with
  | nil =>
    rw [mergeSources_append]
    exact get?_deepMerge_of_sets (h s (List.mem_append_right _ List.mem_cons_self)) hsets
  | append_singleton after last ih =>
    have hsplit : before ++ s::(after ++ [last]) = (before ++ s::after) ++ [last] := by simp
    rw [hsplit, mergeSources_append, get?_deepMerge_of_not (h last (by simp))
      (hafter last (by simp))]
    exact ih (fun u hu => h u (hsplit ▸ List.mem_append_left _ hu))
      fun later hlater => hafter later (List.mem_append_left _ hlater)

theorem get?_mergeSources_eq_none {sources : List (String × ConfigMap)}
    (h : ∀ u ∈ sources, Tree.Unique u.2) {name : String}
    (hnot : ∀ s ∈ sources, ∀ path v, s.2.sets path = some v → dotted path ≠ name) :
    Dict.get? (ConfigReader.mergeSources sources).2 name = none := by
  induction sources using List.reverseRecOn with
  | nil => rfl
  | append_singleton sources last ih =>
    rw [mergeSources_append, get?_deepMerge_of_not (h last (by simp)) (hnot last (by simp))]
    exact ih (fun u hu => h u (List.mem_append_left _ hu))
      fun s hs => hnot s (List.mem_append_left _ hs)

/-- Sources that set the same are traced alike. -/
theorem get?_mergeSources_congr {sources others : List (String × ConfigMap)}
    (h : List.Forall₂ (fun s o => s.1 = o.1 ∧ s.2.sets = o.2.sets ∧ Tree.Unique s.2 ∧
      Tree.Unique o.2) sources others) (name : String) :
    Dict.get? (ConfigReader.mergeSources sources).2 name =
      Dict.get? (ConfigReader.mergeSources others).2 name := by
  have hall : ∀ state state' : ConfigMap × SourceTrace,
      Dict.get? state.2 name = Dict.get? state'.2 name →
        Dict.get? (sources.foldl (fun state s => deepMerge s.1 "" state s.2) state).2 name =
          Dict.get? (others.foldl (fun state s => deepMerge s.1 "" state s.2) state').2 name := by
    induction h with
    | nil => exact fun state state' hstate => hstate
    | @cons s o sources others hfirst _ ih =>
      intro state state' hstate
      obtain ⟨hlabel,hsets,hs,ho⟩ := hfirst
      refine ih _ _ ?_
      by_cases hset : ∃ path v, s.2.sets path = some v ∧ dotted path = name
      · obtain ⟨path,v,hv,rfl⟩ := hset
        rw [get?_deepMerge_of_sets hs hv, get?_deepMerge_of_sets ho (hsets ▸ hv), hlabel]
      · have hnot : ∀ path v, s.2.sets path = some v → dotted path ≠ name :=
          fun path v hv heq => hset ⟨path,v,hv,heq⟩
        rw [get?_deepMerge_of_not hs hnot, get?_deepMerge_of_not ho (hsets ▸ hnot), hstate]
  exact hall ([],[]) ([],[]) rfl

theorem get?_fillFieldDefaultTrace (full : String) (trace : SourceTrace) {schema : Schema}
    (hsingle : ∀ inner, schema ≠ .model inner) (name : String) :
    Dict.get? (fillFieldDefaultTrace full trace schema) name =
      match Dict.get? trace name with
      | some source => some source
      | none => if name = full then some "default" else none := by
  have hfill : fillFieldDefaultTrace full trace schema =
      if Dict.contains trace full then trace else Dict.set trace full "default" := by
    cases schema with
    | field kind default => rfl
    | mapping keys entry => rfl
    | model inner => exact absurd rfl (hsingle inner)
  rw [hfill, Dict.contains]
  by_cases hname : full = name
  · subst hname
    cases hget : Dict.get? trace full with
    | none => simp
    | some source => simp [hget]
  · split
    · cases Dict.get? trace name <;> simp [Ne.symm hname]
    · rw [Dict.get?_set_ne _ _ hname]
      cases Dict.get? trace name <;> simp [Ne.symm hname]

/-- The defaults are traced for the fields that are not traced yet. -/
theorem get?_fillModelDefaultTrace (pfx : String) (trace : SourceTrace)
    (fields : List (String × Schema)) (name : String) :
    Dict.get? (fillModelDefaultTrace pfx trace fields) name =
      match Dict.get? trace name with
      | some source => some source
      | none => if name ∈ (fieldPaths fields).map fun path => path.foldl SourceTrace.fullKey pfx
          then some "default" else none := by
  induction fields using fields_induction generalizing pfx trace with
  | nil =>
    rw [fillModelDefaultTrace]
    cases Dict.get? trace name <;> rfl
  | single first schema rest hsingle ih =>
    rw [fillModelDefaultTrace, ih, get?_fillFieldDefaultTrace _ _ hsingle,
      fieldPaths_single rest hsingle, List.map_cons]
    cases Dict.get? trace name with
    | some source => rfl
    | none =>
      by_cases hname : name = SourceTrace.fullKey pfx first
      · simp [hname]
      · simp [hname]
  | model first inner rest ihinner ihrest =>
    rw [fillModelDefaultTrace, fillFieldDefaultTrace, ihrest, ihinner, fieldPaths, pathsOf,
      List.map_append, List.map_map]
    cases Dict.get? trace name with
    | some source => rfl
    | none =>
      simp only [List.mem_append]
      by_cases hinner : name ∈ (fieldPaths inner).map fun path =>
          path.foldl SourceTrace.fullKey (SourceTrace.fullKey pfx first)
      · rw [if_pos hinner]
        exact (if_pos (.inl hinner)).symm
      · rw [if_neg hinner]
        exact if_congr ⟨.inr,fun h => h.resolve_left hinner⟩ rfl rfl

theorem nodup_keys_deepMerge (source pfx : String) (state : ConfigMap × SourceTrace)
    (data : ConfigMap) (h : (Dict.keys state.2).Nodup) :
    (Dict.keys (deepMerge source pfx state data).2).Nodup := by
  rw [deepMerge_snd]
  generalize ((Tree.leaves data).filter fun e => !e.2.isNull).map (fun e =>
    e.1.foldl SourceTrace.fullKey pfx) = names
  generalize state.2 = trace at h
  induction names generalizing trace with
  | nil => exact h
  | cons name names ih => exact ih _ (Dict.nodup_keys_set h name source)

theorem nodup_keys_mergeSources (sources : List (String × ConfigMap)) :
    (Dict.keys (ConfigReader.mergeSources sources).2).Nodup := by
  induction sources using List.reverseRecOn with
  | nil => exact List.nodup_nil
  | append_singleton sources last ih =>
    rw [mergeSources_append]
    exact nodup_keys_deepMerge _ _ _ _ ih

theorem nodup_keys_fillModelDefaultTrace (pfx : String) (trace : SourceTrace)
    (fields : List (String × Schema)) (h : (Dict.keys trace).Nodup) :
    (Dict.keys (fillModelDefaultTrace pfx trace fields)).Nodup := by
  induction fields using fields_induction generalizing pfx trace with
  | nil => exact h
  | single first schema rest hsingle ih =>
    refine ih _ _ ?_
    cases schema with
    | field kind default =>
      rw [fillFieldDefaultTrace]
      split
      · exact h
      · exact Dict.nodup_keys_set h _ _
    | mapping keys entry =>
      rw [fillFieldDefaultTrace]
      split
      · exact h
      · exact Dict.nodup_keys_set h _ _
    | model inner => exact absurd rfl (hsingle inner)
  | model first inner rest ihinner ihrest => exact ihrest _ _ (ihinner _ _ h)

/-! ## The trace and the merged map -/

section Merged

variable {types : FieldTypes} {fields : List (String × Schema)} {config : AppConfig}

/-- A source that sets a path with the dotted name of a field sets something at the field or above
it, or a later source does. -/
theorem exists_sets_above {before after : List (String × ConfigMap)} {s : String × ConfigMap}
    (h : ∀ u ∈ before ++ s::after, Tree.Unique u.2) (hnames : wellNamed fields = true)
    (hkeys : ∀ key ∈ Dict.keys (Tree.mergeAll PlainValue.isNull (before ++ s::after)),
      key ∈ fields.map Prod.fst)
    (hvalid : validateFields types fields
      (Tree.mergeAll PlainValue.isNull (before ++ s::after)) = some config)
    {path : List String} (hpath : path ∈ fieldPaths fields) {other : List String} {v : PlainValue}
    (hsets : s.2.sets other = some v) (hdotted : dotted other = dotted path) :
    ∃ left, left <+: path ∧ ∃ s' ∈ s::after, ∃ w, s'.2.sets left = some w := by
  obtain ⟨left,hleft,hlook,s',hs',w,hw⟩ := Tree.exists_look_mergeAll h hsets
  have hpathNames := isName_of_mem_fieldPaths hnames hpath
  have hpathNe : path ≠ [] := by
    obtain ⟨first,below,rfl,-⟩ := fieldPaths_cons hpath
    exact List.cons_ne_nil first below
  refine ⟨left,?_,s',hs',w,hw⟩
  obtain ⟨k,rest,rfl⟩ := List.exists_cons_of_ne_nil (Tree.sets_ne_nil hw)
  rcases isName_or_inside hnames hvalid (hkeys k (Tree.key_of_look hlook)) hlook with
    hclean | ⟨f,hf,hinside,hne⟩
  · exact (prefix_of_dotted (Tree.sets_ne_nil hw) hclean hpathNames hpathNe hleft hdotted).1
  · -- the field that holds what is left would be the field of the path
    have hfNe : f ≠ [] := by
      obtain ⟨first,below,rfl,-⟩ := fieldPaths_cons hf
      exact List.cons_ne_nil first below
    obtain ⟨habove,hsame⟩ := prefix_of_dotted hfNe (isName_of_mem_fieldPaths hnames hf)
      hpathNames hpathNe (hinside.trans hleft) hdotted
    have hfield := eq_of_prefix_fieldPaths hnames hf hpath habove
    rw [← hsame hfield]
    exact hleft

/-- The highest source that sets a path, with its value. -/
def sourceOf (sources : List (String × ConfigMap)) (path : List String) :
    Option (String × PlainValue) :=
  sources.reverse.findSome? fun s => (s.2.sets path).map fun v => (s.1,v)

theorem sourceOf_split {before after : List (String × ConfigMap)} {s : String × ConfigMap}
    {path : List String} {v : PlainValue} (hsets : s.2.sets path = some v)
    (hafter : ∀ later ∈ after, Tree.covers PlainValue.isNull later.2 path = false) :
    sourceOf (before ++ s::after) path = some (s.1,v) := by
  have hnone : after.reverse.findSome? (fun u => (u.2.sets path).map fun v => (u.1,v)) =
      none := by
    rw [List.findSome?_eq_none_iff]
    intro later hlater
    cases hlaterSets : later.2.sets path with
    | none => rfl
    | some w =>
      have hcovers := Tree.covers_of_sets hlaterSets List.prefix_rfl
      rw [hafter later (List.mem_reverse.mp hlater)] at hcovers
      cases hcovers
  rw [sourceOf, List.reverse_append, List.reverse_cons, List.append_assoc,
    List.findSome?_append, hnone]
  simp [hsets]

variable {sources : List (String × ConfigMap)}

/-- The trace of a field with a plain value names the source of the value. -/
theorem trace_of_leaf (h : ∀ u ∈ sources, Tree.Unique u.2) (hnames : wellNamed fields = true)
    (hkeys : ∀ key ∈ Dict.keys (Tree.mergeAll PlainValue.isNull sources),
      key ∈ fields.map Prod.fst)
    (hvalid : validateFields types fields (Tree.mergeAll PlainValue.isNull sources) = some config)
    {path : List String} (hpath : path ∈ fieldPaths fields) {v : PlainValue}
    (hleaf : Tree.look (Tree.mergeAll PlainValue.isNull sources) path = some (some v)) :
    Dict.get? (fillModelDefaultTrace "" (ConfigReader.mergeSources sources).2 fields)
      (dotted path) = (sourceOf sources path).map Prod.fst := by
  obtain ⟨before,s,after,rfl,hsets,hafter⟩ := Tree.leaf_of_mergeAll h hleaf
  have hlast := get?_mergeSources_of_last h hsets fun later hlater other w hother hdotted => by
    obtain ⟨middle,last,rfl⟩ := List.append_of_mem hlater
    have hsplit : before ++ s::(middle ++ later::last) =
        (before ++ s::middle) ++ later::last := by simp
    rw [hsplit] at h hkeys hvalid
    obtain ⟨left,hleft,s',hs',w',hw'⟩ :=
      exists_sets_above h hnames hkeys hvalid hpath hother hdotted
    have hcovers := Tree.covers_of_sets hw' hleft
    rw [hafter s' (List.mem_append_right _ hs')] at hcovers
    cases hcovers
  rw [get?_fillModelDefaultTrace, hlast, sourceOf_split hsets hafter]
  rfl

/-- A field that no source sets, nor anything above it, is traced as a default. -/
theorem trace_of_unset (h : ∀ u ∈ sources, Tree.Unique u.2) (hnames : wellNamed fields = true)
    (hkeys : ∀ key ∈ Dict.keys (Tree.mergeAll PlainValue.isNull sources),
      key ∈ fields.map Prod.fst)
    (hvalid : validateFields types fields (Tree.mergeAll PlainValue.isNull sources) = some config)
    {path : List String} (hpath : path ∈ fieldPaths fields)
    (hunset : ∀ s ∈ sources, ∀ other, other <+: path → s.2.sets other = none) :
    Dict.get? (fillModelDefaultTrace "" (ConfigReader.mergeSources sources).2 fields)
      (dotted path) = some "default" := by
  have hnone : Dict.get? (ConfigReader.mergeSources sources).2 (dotted path) = none := by
    refine get?_mergeSources_eq_none h fun s hs other v hother hdotted => ?_
    obtain ⟨before,after,rfl⟩ := List.append_of_mem hs
    obtain ⟨left,hleft,s',hs',w,hw⟩ :=
      exists_sets_above h hnames hkeys hvalid hpath hother hdotted
    cases (hunset s' (List.mem_append_right _ hs') left hleft).symm.trans hw
  rw [get?_fillModelDefaultTrace, hnone]
  exact if_pos (List.mem_map_of_mem hpath)

/-- Every name of the trace is the name of a field or of a path that a source sets. -/
theorem field_or_set_of_trace (h : ∀ u ∈ sources, Tree.Unique u.2) {name : String}
    (hname : name ∈ Dict.keys
      (fillModelDefaultTrace "" (ConfigReader.mergeSources sources).2 fields)) :
    (∃ path ∈ fieldPaths fields, name = dotted path) ∨
      ∃ s ∈ sources, ∃ path v, s.2.sets path = some v ∧ name = dotted path := by
  by_contra hnot
  push Not at hnot
  have hnone : Dict.get? (ConfigReader.mergeSources sources).2 name = none :=
    get?_mergeSources_eq_none h fun s hs path v hv heq => hnot.2 s hs path v hv heq.symm
  rw [Dict.mem_keys_iff, get?_fillModelDefaultTrace, hnone] at hname
  by_cases hfield : name ∈ (fieldPaths fields).map fun path =>
      path.foldl SourceTrace.fullKey ""
  · obtain ⟨path,hpath,rfl⟩ := List.mem_map.mp hfield
    exact hnot.1 path hpath rfl
  · simp only [if_neg hfield] at hname
    cases hname

/-- Every field is traced once. -/
theorem count_trace {path : List String} (hpath : path ∈ fieldPaths fields) :
    (Dict.keys (fillModelDefaultTrace "" (ConfigReader.mergeSources sources).2 fields)).count
      (dotted path) = 1 := by
  have hmem : dotted path ∈ Dict.keys
      (fillModelDefaultTrace "" (ConfigReader.mergeSources sources).2 fields) := by
    rw [Dict.mem_keys_iff, get?_fillModelDefaultTrace]
    cases Dict.get? (ConfigReader.mergeSources sources).2 (dotted path) with
    | some source => rfl
    | none => exact congrArg Option.isSome (if_pos (List.mem_map_of_mem hpath))
  exact List.count_eq_one_of_mem (nodup_keys_fillModelDefaultTrace _ _ _
    (nodup_keys_mergeSources sources)) hmem

end Merged

/-! ## Precedence -/

/-- What a loaded configuration owes to its sources. -/
structure FollowsPrecedence (sources : List (String × ConfigMap)) (loaded : LoadedAppConfig) :
    Prop where
  leaves : ∀ path v, Tree.look (ConfigReader.mergeSources sources).1 path = some (some v) →
    ∃ source, sourceOf sources path = some (source,v)
  used : ∀ path ∈ fieldPaths AppConfig.fields, ∀ v,
    Tree.look (ConfigReader.mergeSources sources).1 path = some (some v) →
      Dict.get? loaded.sourceTrace (dotted path) = (sourceOf sources path).map Prod.fst
  once : ∀ path ∈ fieldPaths AppConfig.fields,
    (Dict.keys loaded.sourceTrace).count (dotted path) = 1
  defaulted : ∀ path ∈ fieldPaths AppConfig.fields,
    (∀ s ∈ sources, ∀ other, other <+: path ∨ path <+: other → s.2.sets other = none) →
      Dict.get? loaded.sourceTrace (dotted path) = some "default"
  others : (∀ s ∈ sources, ∀ other v, s.2.sets other = some v →
      other ∈ fieldPaths AppConfig.fields) →
    ∀ name ∈ Dict.keys loaded.sourceTrace, ∃ path ∈ fieldPaths AppConfig.fields,
      name = dotted path

theorem followsPrecedence {types : FieldTypes} {sources : List (String × ConfigMap)}
    (h : ∀ u ∈ sources, Tree.Unique u.2) {loaded : LoadedAppConfig}
    (hvalid : Schema.validate types (.model AppConfig.fields)
      (some (.node (ConfigReader.mergeSources sources).1)) = some (.node loaded.appConfig))
    (htrace : loaded.sourceTrace = fillModelDefaultTrace ""
      (ConfigReader.mergeSources sources).2 AppConfig.fields) :
    FollowsPrecedence sources loaded := by
  have hnames := AppConfig.wellNamed_fields
  obtain ⟨hkeys,_,hfields,⟨⟩⟩ := Schema.validate_model_children hvalid
  have hmerged := mergeSources_fst sources
  rw [hmerged] at hkeys hfields
  constructor
  · intro path v hleaf
    rw [hmerged] at hleaf
    obtain ⟨before,s,after,rfl,hsets,hafter⟩ := Tree.leaf_of_mergeAll h hleaf
    exact ⟨s.1,sourceOf_split hsets hafter⟩
  · intro path hpath v hleaf
    rw [hmerged] at hleaf
    rw [htrace]
    exact trace_of_leaf h hnames hkeys hfields hpath hleaf
  · intro path hpath
    rw [htrace]
    exact count_trace hpath
  · intro path hpath hunset
    rw [htrace]
    exact trace_of_unset h hnames hkeys hfields hpath
      fun s hs other hother => hunset s hs other (.inl hother)
  · intro hset name hname
    rw [htrace] at hname
    rcases field_or_set_of_trace h hname with hfield | ⟨s,hs,path,v,hv,heq⟩
    · exact hfield
    · exact ⟨path,hset s hs path v hv,heq⟩

/-- A loaded configuration follows the precedence of its sources, and is loaded alike from every
order of the environment when no variable writes over another one. -/
theorem load_follows_precedence (reader : ConfigReader) (configPath : Option String)
    (env : List (String × String)) (overrides : CliOverrides) {loaded : LoadedAppConfig}
    (h : reader.loadAppConfig configPath env overrides = .ok loaded) :
    ∃ yaml, reader.yamlData configPath = .ok yaml ∧
      FollowsPrecedence (reader.sources yaml env overrides) loaded ∧
      (Tree.Compatible (envAssignments reader.lower env) → ∀ env', env.Perm env' →
        ∃ loaded', reader.loadAppConfig configPath env' overrides = .ok loaded' ∧
          loaded'.appConfig = loaded.appConfig ∧
          ∀ name, Dict.get? loaded'.sourceTrace name = Dict.get? loaded.sourceTrace name) := by
  obtain ⟨yaml,hyaml,hvalid,htrace⟩ := ConfigReader.loadAppConfig_ok_iff.mp h
  have hunique := unique_sources reader yaml env overrides
  refine ⟨yaml,hyaml,followsPrecedence hunique hvalid htrace,fun hcompatible env' hperm => ?_⟩
  have hsame : Tree.Same (collectEnvOverrides reader.lower env)
      (collectEnvOverrides reader.lower env') :=
    Tree.same_of_perm hcompatible ((hperm.filterMap _).map _)
  have hsources : List.Forall₂ (fun s o => s.1 = o.1 ∧ Tree.Same s.2 o.2 ∧ Tree.Unique s.2 ∧
      Tree.Unique o.2) (reader.sources yaml env overrides)
      (reader.sources yaml env' overrides) := by
    refine .cons ⟨rfl,fun _ => rfl,yaml.unique,yaml.unique⟩ (.cons ⟨rfl,hsame,?_,?_⟩
      (.cons ⟨rfl,fun _ => rfl,?_,?_⟩ .nil))
    · exact Tree.unique_plain _
    · exact Tree.unique_plain _
    · exact hunique ("cli",dottedToNested overrides) (by simp [ConfigReader.sources])
    · exact hunique ("cli",dottedToNested overrides) (by simp [ConfigReader.sources])
  have hmerged : Tree.SameEntry
      (some (.node (ConfigReader.mergeSources (reader.sources yaml env overrides)).1))
      (some (.node (ConfigReader.mergeSources (reader.sources yaml env' overrides)).1)) := by
    rw [mergeSources_fst, mergeSources_fst]
    exact Tree.same_mergeAll (hsources.imp fun s o hso => hso.2)
  have htraces := get?_mergeSources_congr (hsources.imp fun s o hso =>
    ⟨hso.1,hso.2.1.sets,hso.2.2⟩)
  have hvalid' := hvalid
  rw [Schema.validate_same reader.types (.model AppConfig.fields) hmerged] at hvalid'
  refine ⟨⟨loaded.appConfig,fillModelDefaultTrace ""
    (ConfigReader.mergeSources (reader.sources yaml env' overrides)).2 AppConfig.fields⟩,
    ConfigReader.loadAppConfig_ok_iff.mpr ⟨yaml,hyaml,hvalid',?_⟩,?_,fun name => ?_⟩
  · dsimp only
  · dsimp only
  · rw [htrace, get?_fillModelDefaultTrace, get?_fillModelDefaultTrace, htraces]

/-! ## Two variables of one field, and a mapping -/

def twoHosts : List (String × String) := [("ANKEY_API__HOST","a"),("ANKEY_Api__Host","b")]

def componentsYaml : ConfigSource where
  children := Tree.ofEntries (Tree.plain
    [(["observability","logging","components","cache","level"],.text "DEBUG")])
  unique := Tree.unique_plain _

/-- The host that is loaded from a merged map. -/
theorem look_of_load {yaml : ConfigSource} {env : List (String × String)}
    {loaded : LoadedAppConfig}
    (h : (textReader yaml).loadAppConfig (some "config.yml") env noOverrides = .ok loaded)
    {merged : ConfigMap} (hmerged : (ConfigReader.mergeSources
      ((textReader yaml).sources yaml env noOverrides)).1 = merged) (path : List String) :
    Tree.look loaded.appConfig path =
      match Schema.validate textTypes (.model AppConfig.fields) (some (.node merged)) with
      | some (.node config) => Tree.look config path
      | _ => none := by
  obtain ⟨_,⟨⟩,hvalid,-⟩ := ConfigReader.loadAppConfig_ok_iff.mp h
  rw [hmerged] at hvalid
  have htypes : (textReader yaml).types = textTypes := rfl
  rw [htypes] at hvalid
  rw [hvalid]

theorem load_follows_precedence_host : ∃ loaded,
    (textReader componentsYaml).loadAppConfig (some "config.yml") [("ANKEY_API__HOST","a")]
      noOverrides = .ok loaded ∧
      Dict.get? loaded.sourceTrace "api.host" = some "env" := by
  have hyaml : (textReader componentsYaml).yamlData (some "config.yml") = .ok componentsYaml := rfl
  have hassigned : [("ANKEY_API__HOST","a")].filterMap (envAssignment Text.lower) =
    [(["api","host"],"a")] := by decide
  have henv : collectEnvOverrides Text.lower [("ANKEY_API__HOST","a")] =
      [("api",.node [("host",.leaf (.text "a"))])] := by
    rw [collectEnvOverrides, envAssignments, hassigned]
    rfl
  have hlower : (textReader componentsYaml).lower = Text.lower := rfl
  have hmerged : (ConfigReader.mergeSources ((textReader componentsYaml).sources componentsYaml
      [("ANKEY_API__HOST","a")] noOverrides)).1 = componentsYaml.children ++
        [("api",.node [("host",.leaf (.text "a"))])] := by
    rw [mergeSources_fst, ConfigReader.sources, hlower, henv]
    rfl
  obtain ⟨loaded,h⟩ := ConfigReader.exists_loaded hyaml hmerged (by decide)
  obtain ⟨_,⟨⟩,hfollows,-⟩ := load_follows_precedence _ _ _ _ h
  have hused := hfollows.used ["api","host"] (by decide) (.text "a") (by rw [hmerged]; rfl)
  refine ⟨loaded,h,?_⟩
  rw [show "api.host" = dotted ["api","host"] by decide, hused, ConfigReader.sources, hlower, henv]
  rfl

/-- The order of two variables decides a field, and a mapping that the file sets is traced as a
default. -/
theorem order_decides_and_mapping_defaulted :
    (∃ loaded loaded', (textReader componentsYaml).loadAppConfig (some "config.yml") twoHosts
          noOverrides = .ok loaded ∧
        (textReader componentsYaml).loadAppConfig (some "config.yml") twoHosts.reverse
          noOverrides = .ok loaded' ∧
        Tree.look loaded.appConfig ["api","host"] ≠ Tree.look loaded'.appConfig ["api","host"]) ∧
      ∃ loaded, (textReader componentsYaml).loadAppConfig (some "config.yml") [] noOverrides =
          .ok loaded ∧
        Dict.get? loaded.sourceTrace "observability.logging.components" = some "default" ∧
        Dict.get? loaded.sourceTrace "observability.logging.components.cache.level" =
          some "config" := by
  have hyaml : (textReader componentsYaml).yamlData (some "config.yml") = .ok componentsYaml := rfl
  have hassigned : twoHosts.filterMap (envAssignment Text.lower) =
    [(["api","host"],"a"),(["api","host"],"b")] := by decide
  have hassigned' : twoHosts.reverse.filterMap (envAssignment Text.lower) =
    [(["api","host"],"b"),(["api","host"],"a")] := by decide
  have hmap : ∀ env host, collectEnvOverrides Text.lower env =
      [("api",.node [("host",.leaf (.text host))])] →
      (ConfigReader.mergeSources ((textReader componentsYaml).sources componentsYaml env
        noOverrides)).1 = componentsYaml.children ++
          [("api",.node [("host",.leaf (.text host))])] := by
    intro env host henv
    have hlower : (textReader componentsYaml).lower = Text.lower := rfl
    rw [mergeSources_fst, ConfigReader.sources, hlower, henv]
    rfl
  have hb := hmap twoHosts "b" (by rw [collectEnvOverrides, envAssignments, hassigned]; rfl)
  have ha := hmap twoHosts.reverse "a"
    (by rw [collectEnvOverrides, envAssignments, hassigned']; rfl)
  constructor
  · obtain ⟨loaded,h⟩ := ConfigReader.exists_loaded hyaml hb (by decide)
    obtain ⟨loaded',h'⟩ := ConfigReader.exists_loaded hyaml ha (by decide)
    refine ⟨loaded,loaded',h,h',?_⟩
    have hhost : Tree.look loaded.appConfig ["api","host"] = some (some (.str "b")) :=
      (look_of_load h hb ["api","host"]).trans (by rfl)
    have hhost' : Tree.look loaded'.appConfig ["api","host"] = some (some (.str "a")) :=
      (look_of_load h' ha ["api","host"]).trans (by rfl)
    rw [hhost, hhost']
    simp
  · have hmerged : (ConfigReader.mergeSources ((textReader componentsYaml).sources componentsYaml
        [] noOverrides)).1 = componentsYaml.children := by
      rw [mergeSources_fst, ConfigReader.sources]
      rfl
    have htrace : (ConfigReader.mergeSources ((textReader componentsYaml).sources componentsYaml
        [] noOverrides)).2 =
          [("observability.logging.components.cache.level","config")] := by
      rfl
    obtain ⟨loaded,h⟩ := ConfigReader.exists_loaded hyaml hmerged (by decide)
    obtain ⟨_,⟨⟩,-,hloaded⟩ := ConfigReader.loadAppConfig_ok_iff.mp h
    refine ⟨loaded,h,?_,?_⟩
    · have hfield : "observability.logging.components" ∈
          (fieldPaths AppConfig.fields).map fun path => path.foldl SourceTrace.fullKey "" :=
        List.mem_map.mpr ⟨["observability","logging","components"],by decide,by decide⟩
      rw [hloaded, htrace, get?_fillModelDefaultTrace, if_pos hfield]
      rfl
    · rw [hloaded, htrace, get?_fillModelDefaultTrace]
      rfl

end NexusEtl
