import NexusEtl.Diagnostics
import NexusEtl.Library.Reach
import NexusEtl.Library.TopologicalSort

/-!
# The dependency graph of the cache

Datasets of the cache depend on one another. A refresh goes through them so that
each comes after its dependencies; clearing one with all that depends on it goes
the other way. Both orders come from one topological order, which the graph
computes when it is built and without which it is not built.
-/

set_option autoImplicit false

namespace NexusEtl
open NexusEtl.Library

structure CacheDependencyGraph where
  datasets : List String
  dependencies : Dict String (List String)
  dependents : Dict String (List String)
  topo : List String
  deriving DecidableEq, Repr

namespace CacheDependencyGraph

/-- `index[key].append(name)` of a `defaultdict(list)`. -/
def appendTo (index : Dict String (List String)) (key name : String) :
    Dict String (List String) :=
  Dict.set index key ((Dict.get? index key).getD [] ++ [name])

def buildDependents (depMap : Dict String (List String)) : Dict String (List String) :=
  depMap.foldl (fun reverse entry =>
    entry.2.foldl (fun reverse dep => appendTo reverse dep entry.1) reverse) []

/-- The edges of one dataset, and its indegree. -/
def countEdges (acc : Dict String Int × Dict String (List String))
    (entry : String × List String) : Dict String Int × Dict String (List String) :=
  entry.2.foldl (fun acc dep => (Dict.set acc.1 entry.1 ((Dict.get? acc.1 entry.1).getD 0 + 1),
    appendTo acc.2 dep entry.1)) acc

def topologicalOrder (datasets : List String) (depMap : Dict String (List String))
    (fuel : Nat) : Option (Except PyException (List String)) :=
  let counted := depMap.foldl countEdges (datasets.map fun name => (name,0),[])
  let queue := datasets.filter fun name => decide ((Dict.get? counted.1 name).getD 0 = 0)
  (sortLoop counted.2 fuel ⟨counted.1,queue,[]⟩).map fun ordered =>
    if ordered.length ≠ datasets.length then
      .error ⟨"ValueError","CacheDependencyGraph contains dependency cycle"⟩
    else .ok ordered

def dependencyMap (datasets : List String) (dependencies : Dict String (List String)) :
    Dict String (List String) :=
  datasets.map fun name => (name,((Dict.get? dependencies name).getD []).eraseDups)

def unknownDependencies (datasets : List String) (depMap : Dict String (List String)) :
    List String :=
  depMap.flatMap fun entry =>
    (entry.2.filter fun dep => !datasets.contains dep).map fun dep => entry.1 ++ "->" ++ dep

/-- The constructor; the sort takes fuel. -/
def init (datasets : List String) (dependencies : Dict String (List String)) (fuel : Nat) :
    Option (Except PyException CacheDependencyGraph) :=
  let ordered := datasets.eraseDups
  if ordered = [] then
    some (.error ⟨"ValueError","CacheDependencyGraph requires at least one dataset"⟩)
  else
    let depMap := dependencyMap ordered dependencies
    let unknown := unknownDependencies ordered depMap
    if unknown ≠ [] then some (.error ⟨"ValueError",
      "CacheDependencyGraph has unknown dependencies: " ++ String.intercalate ", " unknown⟩)
    else (topologicalOrder ordered depMap fuel).map fun topo =>
      topo.map fun topo => ⟨ordered,depMap,buildDependents depMap,topo⟩

variable (g : CacheDependencyGraph)

def ensureDataset (dataset : String) : Except PyException Unit :=
  if Dict.contains g.dependencies dataset then .ok ()
  else .error ⟨"ValueError","Unsupported cache dataset: " ++ dataset⟩

/-- `_expand_dependencies` and `_expand_dependents` from one dataset. -/
def expand (index : Dict String (List String)) (dataset : String) (fuel : Nat) :
    Option (List String) :=
  spread (fun name => (Dict.get? index name).getD []) fuel [dataset] [dataset]

def refreshOrder (dataset : Option String) (includeDependencies : Bool) (fuel : Nat) :
    Option (Except PyException (List String)) :=
  match dataset with
  | none => some (.ok g.topo)
  | some dataset => match g.ensureDataset dataset with
    | .error exc => some (.error exc)
    | .ok _ =>
      if includeDependencies then
        (expand g.dependencies dataset fuel).map fun scope =>
          .ok (g.topo.filter fun name => scope.contains name)
      else some (.ok [dataset])

def clearOrder (dataset : Option String) (cascade : Bool) (fuel : Nat) :
    Option (Except PyException (List String)) :=
  match dataset with
  | none => some (.ok g.topo)
  | some dataset => match g.ensureDataset dataset with
    | .error exc => some (.error exc)
    | .ok _ =>
      if cascade then
        (expand g.dependents dataset fuel).map fun scope =>
          .ok (g.topo.reverse.filter fun name => scope.contains name)
      else some (.ok [dataset])

/-- One dataset depends on another. -/
def DependsOn (datasets : List String) (dependencies : Dict String (List String))
    (name dep : String) : Prop :=
  name ∈ datasets ∧ dep ∈ (Dict.get? dependencies name).getD []

/-- What the orders of a graph are to be. -/
structure Orders (datasets : List String) (dependencies : Dict String (List String))
    (g : CacheDependencyGraph) (order : List String) : Prop where
  refresh : ∀ deep, Gives (g.refreshOrder none deep) (.ok order)
  once : order.Nodup
  all : ∀ name, name ∈ order ↔ name ∈ datasets
  after : ∀ name dep, DependsOn datasets dependencies name dep →
    List.Sublist [dep,name] order
  selection : ∀ name ∈ datasets, ∃ scope, Gives (g.refreshOrder (some name) true) (.ok scope) ∧
    List.Sublist scope order ∧
      ∀ x, x ∈ scope ↔ Relation.ReflTransGen (DependsOn datasets dependencies) name x
  cascade : ∀ name ∈ datasets, ∃ scope, Gives (g.clearOrder (some name) true) (.ok scope) ∧
    scope.Nodup ∧
      (∀ x, x ∈ scope ↔ Relation.ReflTransGen (DependsOn datasets dependencies) x name) ∧
      ∀ a ∈ scope, ∀ b ∈ scope, DependsOn datasets dependencies a b →
        List.Sublist [a,b] scope

section Index

theorem get?_appendTo (index : Dict String (List String)) (key name p : String) :
    (Dict.get? (appendTo index key name) p).getD [] =
      (Dict.get? index p).getD [] ++ if key = p then [name] else [] := by
  unfold appendTo
  rw [Dict.get?_set]
  by_cases hp : key = p
  · simp [hp]
  · simp [hp]

theorem get?_appendAll {deps : List String} (h : deps.Nodup) (name : String)
    (index : Dict String (List String)) (p : String) :
    (Dict.get? (deps.foldl (fun index dep => appendTo index dep name) index) p).getD [] =
      (Dict.get? index p).getD [] ++ if p ∈ deps then [name] else [] := by
  induction deps generalizing index with
  | nil => simp
  | cons dep deps ih =>
    obtain ⟨hnew,hrest⟩ := List.nodup_cons.mp h
    rw [List.foldl_cons, ih hrest, get?_appendTo]
    by_cases hp : dep = p
    · subst hp
      simp [hnew]
    · simp [hp, Ne.symm hp]

/-- Under a dependency stand the datasets that name it, in their order. -/
theorem get?_reversed {depMap : Dict String (List String)} (h : ∀ entry ∈ depMap, entry.2.Nodup)
    (index : Dict String (List String)) (p : String) :
    (Dict.get? (depMap.foldl (fun reverse entry =>
        entry.2.foldl (fun reverse dep => appendTo reverse dep entry.1) reverse) index) p).getD [] =
      (Dict.get? index p).getD [] ++
        (depMap.filter fun entry => decide (p ∈ entry.2)).map Prod.fst := by
  induction depMap generalizing index with
  | nil => simp
  | cons entry depMap ih =>
    rw [List.foldl_cons, ih fun other hother => h other (.tail _ hother),
      get?_appendAll (h entry List.mem_cons_self), List.append_assoc]
    by_cases hp : p ∈ entry.2
    · simp [hp]
    · simp [hp]

/-- The counting of the edges, apart. -/
theorem countEdges_eq (deps : List String) (name : String)
    (acc : Dict String Int × Dict String (List String)) :
    (countEdges acc (name,deps)).2 =
        deps.foldl (fun index dep => appendTo index dep name) acc.2 ∧
      ∀ n, (Dict.get? (countEdges acc (name,deps)).1 n).getD 0 =
        (Dict.get? acc.1 n).getD 0 + if name = n then (deps.length : Int) else 0 := by
  unfold countEdges
  dsimp only
  induction deps generalizing acc with
  | nil => simp
  | cons dep deps ih =>
    obtain ⟨hindex,hcount⟩ := ih (Dict.set acc.1 name ((Dict.get? acc.1 name).getD 0 + 1),
      appendTo acc.2 dep name)
    rw [List.foldl_cons, List.foldl_cons]
    refine ⟨hindex,fun n => ?_⟩
    rw [hcount, Dict.get?_set]
    by_cases hn : name = n
    · subst hn
      simp
      omega
    · simp [hn]

theorem foldl_countEdges (depMap : Dict String (List String)) (h : (Dict.keys depMap).Nodup)
    (acc : Dict String Int × Dict String (List String)) :
    (depMap.foldl countEdges acc).2 = depMap.foldl (fun reverse entry =>
        entry.2.foldl (fun reverse dep => appendTo reverse dep entry.1) reverse) acc.2 ∧
      ∀ n, (Dict.get? (depMap.foldl countEdges acc).1 n).getD 0 =
        (Dict.get? acc.1 n).getD 0 + ((Dict.get? depMap n).getD []).length := by
  induction depMap generalizing acc with
  | nil => simp
  | cons entry depMap ih =>
    obtain ⟨name,deps⟩ := entry
    obtain ⟨hnew,hrest⟩ := List.nodup_cons.mp h
    obtain ⟨hindex,hcount⟩ := ih hrest (countEdges acc (name,deps))
    obtain ⟨hone,hcountone⟩ := countEdges_eq deps name acc
    rw [List.foldl_cons, List.foldl_cons]
    refine ⟨by rw [hindex, hone],fun n => ?_⟩
    rw [hcount, hcountone]
    by_cases hn : name = n
    · subst hn
      simp [Dict.get?_eq_none hnew, Dict.get?]
    · simp [Dict.get?, hn]

end Index

section Construction

variable {datasets : List String} {dependencies : Dict String (List String)}

theorem dependsOn_eraseDups : DependsOn datasets.eraseDups dependencies =
    DependsOn datasets dependencies := by
  funext name dep
  unfold DependsOn
  rw [List.mem_eraseDups]

/-- The dependencies that the graph keeps for a dataset. -/
abbrev preds (datasets : List String) (dependencies : Dict String (List String))
    (name : String) : List String :=
  (Dict.get? (dependencyMap datasets dependencies) name).getD []

theorem keys_dependencyMap : Dict.keys (dependencyMap datasets dependencies) = datasets := by
  simp [Dict.keys, dependencyMap, Function.comp_def]

theorem preds_of_mem (h : datasets.Nodup) {name : String} (hname : name ∈ datasets) :
    preds datasets dependencies name = ((Dict.get? dependencies name).getD []).eraseDups := by
  have hget := Dict.get?_map_of_mem (fun n : String => n)
    (fun n => ((Dict.get? dependencies n).getD []).eraseDups)
    (by rwa [List.map_id']) hname
  unfold preds dependencyMap
  rw [hget]
  rfl

theorem preds_of_not_mem {name : String} (hname : name ∉ datasets) :
    preds datasets dependencies name = [] := by
  have hnone : name ∉ Dict.keys (dependencyMap datasets dependencies) := by
    rwa [keys_dependencyMap]
  rw [preds, Dict.get?_eq_none hnone]
  rfl

theorem mem_preds (h : datasets.Nodup) {name dep : String} :
    dep ∈ preds datasets dependencies name ↔ DependsOn datasets dependencies name dep := by
  by_cases hname : name ∈ datasets
  · rw [preds_of_mem h hname, List.mem_eraseDups]
    exact (and_iff_right hname).symm
  · rw [preds_of_not_mem hname]
    exact iff_of_false List.not_mem_nil fun hdep => hname hdep.1

theorem nodup_preds (h : datasets.Nodup) (name : String) :
    (preds datasets dependencies name).Nodup := by
  by_cases hname : name ∈ datasets
  · rw [preds_of_mem h hname]
    exact nodup_eraseDups _
  · rw [preds_of_not_mem hname]
    exact List.nodup_nil

theorem nodup_entry {entry : String × List String}
    (hentry : entry ∈ dependencyMap datasets dependencies) : entry.2.Nodup := by
  obtain ⟨name,_,rfl⟩ := List.mem_map.mp hentry
  exact nodup_eraseDups _

theorem mem_entry (h : datasets.Nodup) {name : String} {deps : List String} :
    (name,deps) ∈ dependencyMap datasets dependencies ↔
      name ∈ datasets ∧ deps = preds datasets dependencies name := by
  unfold dependencyMap
  rw [List.mem_map]
  constructor
  · rintro ⟨other,hother,heq⟩
    obtain ⟨rfl,rfl⟩ := Prod.mk.inj heq
    exact ⟨hother,(preds_of_mem h hother).symm⟩
  · rintro ⟨hname,rfl⟩
    exact ⟨name,hname,by rw [preds_of_mem h hname]⟩

/-- Whether the dependents are read off the edges or built for themselves, they are the inverse
of the dependencies. -/
theorem mem_buildDependents (h : datasets.Nodup) (p n : String) :
    n ∈ (Dict.get? (buildDependents (dependencyMap datasets dependencies)) p).getD [] ↔
      n ∈ datasets ∧ p ∈ preds datasets dependencies n := by
  unfold buildDependents
  rw [get?_reversed fun entry => nodup_entry]
  simp only [Dict.get?_nil, Option.getD_none, List.nil_append, List.mem_map, List.mem_filter,
    decide_eq_true_eq]
  constructor
  · rintro ⟨⟨name,deps⟩,⟨hentry,hdep⟩,rfl⟩
    obtain ⟨hname,rfl⟩ := (mem_entry h).mp hentry
    exact ⟨hname,hdep⟩
  · rintro ⟨hname,hdep⟩
    exact ⟨_,⟨(mem_entry h).mpr ⟨hname,rfl⟩,hdep⟩,rfl⟩

theorem nodup_buildDependents (h : datasets.Nodup) (p : String) :
    ((Dict.get? (buildDependents (dependencyMap datasets dependencies)) p).getD []).Nodup := by
  unfold buildDependents
  rw [get?_reversed fun entry => nodup_entry]
  have hkeys : ((dependencyMap datasets dependencies).map Prod.fst).Nodup := by
    show (Dict.keys _).Nodup
    rwa [keys_dependencyMap]
  exact hkeys.sublist (List.filter_sublist.map Prod.fst)

theorem unknownDependencies_eq_nil (h : datasets.Nodup) :
    unknownDependencies datasets (dependencyMap datasets dependencies) = [] ↔
      ∀ name dep, DependsOn datasets dependencies name dep → dep ∈ datasets := by
  unfold unknownDependencies
  rw [List.flatMap_eq_nil_iff]
  simp only [List.map_eq_nil_iff, List.filter_eq_nil_iff, Bool.not_eq_true',
    List.contains_eq_mem, decide_eq_false_iff_not, not_not]
  constructor
  · intro hall name dep hdep
    exact hall _ ((mem_entry h).mpr ⟨hdep.1,rfl⟩) dep ((mem_preds h).mpr hdep)
  · rintro hall ⟨name,deps⟩ hentry dep hdep
    obtain ⟨hname,rfl⟩ := (mem_entry h).mp hentry
    exact hall name dep ((mem_preds h).mp hdep)

variable (h : datasets.Nodup)
  (hknown : ∀ name dep, DependsOn datasets dependencies name dep → dep ∈ datasets)
include h

theorem counted_edges (acc : Dict String Int) :
    ((dependencyMap datasets dependencies).foldl countEdges (acc,[])).2 =
      buildDependents (dependencyMap datasets dependencies) :=
  (foldl_countEdges _ (by rwa [keys_dependencyMap]) (acc,[])).1

theorem counted_indegree (n : String) :
    (Dict.get? ((dependencyMap datasets dependencies).foldl countEdges
      (datasets.map fun name => (name,0),[])).1 n).getD 0 =
        (preds datasets dependencies n).length := by
  rw [(foldl_countEdges _ (by rwa [keys_dependencyMap]) _).2]
  have hzero : (Dict.get? (datasets.map fun name => (name,(0 : Int))) n).getD 0 = 0 := by
    cases hget : Dict.get? (datasets.map fun name => (name,(0 : Int))) n with
    | none => rfl
    | some v =>
      obtain ⟨_,_,heq⟩ := List.mem_map.mp (Dict.mem_of_get? hget)
      exact (Prod.mk.inj heq).2.symm
  rw [hzero, Int.zero_add]

include hknown

theorem indexed_datasets : Indexed datasets (preds datasets dependencies)
    (buildDependents (dependencyMap datasets dependencies)) where
  distinct := h
  known name _ dep hdep := hknown name dep ((mem_preds h).mp hdep)
  once := nodup_preds h
  edge := mem_buildDependents h
  edgeOnce := nodup_buildDependents h

/-- The sort gives an order of the datasets that wait for nothing in a cycle. -/
theorem gives_topologicalOrder : ∃ indegree topo,
    Sorted datasets (preds datasets dependencies) ⟨indegree,[],topo⟩ ∧
      Gives (topologicalOrder datasets (dependencyMap datasets dependencies))
        (if topo.length ≠ datasets.length then
          .error ⟨"ValueError","CacheDependencyGraph contains dependency cycle"⟩
        else .ok topo) := by
  have hindex := indexed_datasets h hknown
  have hstart : Sorted datasets (preds datasets dependencies)
      ⟨((dependencyMap datasets dependencies).foldl countEdges
          (datasets.map fun name => (name,0),[])).1,
        datasets.filter fun name => decide ((Dict.get?
          ((dependencyMap datasets dependencies).foldl countEdges
            (datasets.map fun name => (name,0),[])).1 name).getD 0 = 0),[]⟩ := by
    refine ⟨fun n _ => ?_,fun n => ?_,?_,fun n hn => absurd hn List.not_mem_nil⟩
    · rw [counted_indegree h]
      simp
    · simp only [List.mem_filter, counted_indegree h, decide_eq_true_eq, List.not_mem_nil,
        or_false, Int.natCast_eq_zero, List.length_eq_zero_iff]
      exact and_congr_right fun _ => List.eq_nil_iff_forall_not_mem
    · rw [List.append_nil]
      exact h.filter _
  obtain ⟨indegree,topo,hsorted,hgives⟩ := hstart.gives hindex
  refine ⟨indegree,topo,hsorted,?_⟩
  unfold topologicalOrder
  dsimp only
  rw [counted_edges h]
  exact hgives.map _

end Construction

section Queries

variable {datasets : List String} {dependencies : Dict String (List String)}
  {g : CacheDependencyGraph} {indegree : Dict String Int} {topo : List String}

/-- What the constructor builds from an order. -/
abbrev built (datasets : List String) (dependencies : Dict String (List String))
    (topo : List String) : CacheDependencyGraph :=
  ⟨datasets,dependencyMap datasets dependencies,
    buildDependents (dependencyMap datasets dependencies),topo⟩

theorem ensureDataset_eq (name : String) :
    (built datasets dependencies topo).ensureDataset name = if name ∈ datasets then .ok ()
      else .error ⟨"ValueError","Unsupported cache dataset: " ++ name⟩ := by
  have hiff : Dict.contains (dependencyMap datasets dependencies) name = true ↔
      name ∈ datasets := Dict.mem_keys_iff.symm.trans (by rw [keys_dependencyMap])
  unfold ensureDataset
  by_cases hname : name ∈ datasets
  · rw [if_pos (hiff.mpr hname), if_pos hname]
  · rw [if_neg fun hc => hname (hiff.mp hc), if_neg hname]

theorem refreshOrder_built {name : String} (hname : name ∈ datasets) :
    (built datasets dependencies topo).refreshOrder (some name) true = fun fuel =>
      (expand (dependencyMap datasets dependencies) name fuel).map fun scope =>
        .ok (topo.filter fun name => scope.contains name) := by
  funext fuel
  simp only [refreshOrder, ensureDataset_eq, if_pos hname, if_true]

theorem clearOrder_built {name : String} (hname : name ∈ datasets) :
    (built datasets dependencies topo).clearOrder (some name) true = fun fuel =>
      (expand (buildDependents (dependencyMap datasets dependencies)) name fuel).map fun scope =>
        .ok (topo.reverse.filter fun name => scope.contains name) := by
  funext fuel
  simp only [clearOrder, ensureDataset_eq, if_pos hname, if_true]

/-- The graph that is built from a complete order answers as it is to. -/
theorem orders_of_complete (h : datasets.Nodup)
    (hknown : ∀ name dep, DependsOn datasets dependencies name dep → dep ∈ datasets)
    (hsorted : Sorted datasets (preds datasets dependencies) ⟨indegree,[],topo⟩)
    (hall : ∀ name ∈ datasets, name ∈ topo) :
    (built datasets dependencies topo).Orders datasets dependencies topo := by
  have hafter : ∀ name dep, DependsOn datasets dependencies name dep →
      List.Sublist [dep,name] topo := fun name dep hdep =>
    hsorted.before name (hall name hdep.1) dep ((mem_preds h).mpr hdep)
  have hmem : ∀ name, name ∈ topo ↔ name ∈ datasets :=
    fun name => ⟨fun hname => ((hsorted.ready name).mp (.inr hname)).1,hall name⟩
  have honce : topo.Nodup := hsorted.once
  refine ⟨fun deep => Gives.const _,honce,hmem,hafter,fun name hname => ?_,fun name hname => ?_⟩
  · have hclosed : ∀ a ∈ datasets, ∀ b ∈ preds datasets dependencies a, b ∈ datasets :=
      fun a _ b hb => hknown a b ((mem_preds h).mp hb)
    obtain ⟨scope,hgives,hscope⟩ := gives_spread hclosed hname
    have hleads : Leads (fun name => preds datasets dependencies name) =
        DependsOn datasets dependencies := by
      funext a b
      exact propext (mem_preds h)
    rw [hleads] at hscope
    refine ⟨topo.filter fun name => scope.contains name,?_,List.filter_sublist,fun x => ?_⟩
    · rw [refreshOrder_built hname]
      exact hgives.map _
    · rw [List.mem_filter, List.contains_iff_mem, hscope, hmem]
      refine and_iff_right_of_imp fun hpath => ?_
      exact mem_of_reached hclosed hname (hleads ▸ hpath)
  · have hinverse : ∀ a b, b ∈ (Dict.get? (built datasets dependencies topo).dependents a).getD []
        ↔ DependsOn datasets dependencies b a := by
      intro a b
      rw [mem_buildDependents h, mem_preds h]
      exact and_iff_right_of_imp And.left
    have hclosed : ∀ a ∈ datasets, ∀ b ∈ (Dict.get?
        (built datasets dependencies topo).dependents a).getD [], b ∈ datasets :=
      fun a _ b hb => ((hinverse a b).mp hb).1
    obtain ⟨scope,hgives,hscope⟩ := gives_spread hclosed hname
    have hup : ∀ x, x ∈ scope ↔
        Relation.ReflTransGen (DependsOn datasets dependencies) x name := by
      intro x
      rw [hscope, ← Relation.reflTransGen_swap]
      have hleads : Leads (fun name => (Dict.get?
          (built datasets dependencies topo).dependents name).getD []) =
            Function.swap (DependsOn datasets dependencies) := by
        funext a b
        exact propext (hinverse a b)
      rw [hleads]
    have hdatasets : ∀ x, Relation.ReflTransGen (DependsOn datasets dependencies) x name →
        x ∈ datasets := by
      intro x hpath
      rcases Relation.ReflTransGen.cases_head hpath with rfl | ⟨_,hdep,_⟩
      · exact hname
      · exact hdep.1
    refine ⟨topo.reverse.filter fun name => scope.contains name,?_,
      (List.nodup_reverse.mpr honce).filter _,fun x => ?_,fun a ha b hb hdep => ?_⟩
    · rw [clearOrder_built hname]
      exact hgives.map _
    · rw [List.mem_filter, List.contains_iff_mem, hup, List.mem_reverse, hmem]
      exact and_iff_right_of_imp (hdatasets x)
    · have hreverse : List.Sublist [a,b] topo.reverse := (hafter a b hdep).reverse
      have hfilter := hreverse.filter fun name => scope.contains name
      have ha' := (List.mem_filter.mp ha).2
      have hb' := (List.mem_filter.mp hb).2
      simp only [List.filter_cons, ha', hb', if_true, List.filter_nil] at hfilter
      exact hfilter

theorem Orders.eraseDups {order : List String}
    (h : g.Orders datasets.eraseDups dependencies order) : g.Orders datasets dependencies order := by
  refine ⟨h.refresh,h.once,fun name => ?_,?_,fun name hname => ?_,fun name hname => ?_⟩
  · rw [h.all, List.mem_eraseDups]
  · have hafter := h.after
    rwa [dependsOn_eraseDups] at hafter
  · have hscope := h.selection name (List.mem_eraseDups.mpr hname)
    rwa [dependsOn_eraseDups] at hscope
  · have hscope := h.cascade name (List.mem_eraseDups.mpr hname)
    rwa [dependsOn_eraseDups] at hscope

end Queries

section Constructor

variable {datasets : List String} {dependencies : Dict String (List String)}

theorem gives_init_unknown (hsome : datasets.eraseDups ≠ [])
    (hunknown : unknownDependencies datasets.eraseDups
      (dependencyMap datasets.eraseDups dependencies) ≠ []) :
    ∃ exc, Gives (init datasets dependencies) (.error exc) := by
  refine ⟨⟨"ValueError","CacheDependencyGraph has unknown dependencies: " ++
    String.intercalate ", " (unknownDependencies datasets.eraseDups
      (dependencyMap datasets.eraseDups dependencies))⟩,0,fun fuel _ => ?_⟩
  unfold init
  dsimp only
  rw [if_neg hsome, if_pos hunknown]

/-- With known dependencies the order of the sort decides. -/
theorem gives_init_sorted (hsome : datasets.eraseDups ≠ [])
    (hunknown : unknownDependencies datasets.eraseDups
      (dependencyMap datasets.eraseDups dependencies) = []) :
    ∃ indegree topo, Sorted datasets.eraseDups (preds datasets.eraseDups dependencies)
        ⟨indegree,[],topo⟩ ∧
      Gives (init datasets dependencies) (if topo.length ≠ datasets.eraseDups.length then
          .error ⟨"ValueError","CacheDependencyGraph contains dependency cycle"⟩
        else .ok (built datasets.eraseDups dependencies topo)) := by
  have h := nodup_eraseDups datasets
  obtain ⟨indegree,topo,hsorted,hgives⟩ :=
    gives_topologicalOrder h ((unknownDependencies_eq_nil h).mp hunknown)
  refine ⟨indegree,topo,hsorted,?_⟩
  have hinit : init datasets dependencies = fun fuel =>
      (topologicalOrder datasets.eraseDups (dependencyMap datasets.eraseDups dependencies)
        fuel).map fun topo => topo.map (built datasets.eraseDups dependencies) := by
    funext fuel
    unfold init
    dsimp only
    rw [if_neg hsome, if_neg (not_not.mpr hunknown)]
  rw [hinit]
  have hbuilt := hgives.map fun topo => topo.map (built datasets.eraseDups dependencies)
  split at hbuilt
  · rename_i hlength
    rw [if_pos hlength]
    exact hbuilt
  · rename_i hlength
    rw [if_neg hlength]
    exact hbuilt

end Constructor

/-- The graph is built exactly for a dataset or more, known dependencies and no cycle, and then
its orders are right; where it is not built the constructor raises. -/
theorem dependency_graph (datasets : List String) (dependencies : Dict String (List String)) :
    ∃ result, Gives (init datasets dependencies) result ∧
      ((∃ g, result = .ok g) ↔ datasets ≠ [] ∧
        (∀ name dep, DependsOn datasets dependencies name dep → dep ∈ datasets) ∧
        Acyclic (DependsOn datasets dependencies)) ∧
      ∀ g, result = .ok g → ∃ order, g.Orders datasets dependencies order := by
  have h := nodup_eraseDups datasets
  by_cases hnone : datasets = []
  · subst hnone
    exact ⟨_,Gives.const _,iff_of_false (by simp) (by simp),by simp⟩
  have hsome : datasets.eraseDups ≠ [] := by
    obtain ⟨name,hname⟩ := List.exists_mem_of_ne_nil datasets hnone
    exact List.ne_nil_of_mem (List.mem_eraseDups.mpr hname)
  have hknown := @unknownDependencies_eq_nil datasets.eraseDups dependencies h
  rw [dependsOn_eraseDups] at hknown
  simp only [List.mem_eraseDups] at hknown
  by_cases hunknown : unknownDependencies datasets.eraseDups
      (dependencyMap datasets.eraseDups dependencies) = []
  · have hdeps := (unknownDependencies_eq_nil h).mp hunknown
    obtain ⟨indegree,topo,hsorted,hgives⟩ := gives_init_sorted hsome hunknown
    have hcomplete := hsorted.complete_iff (indexed_datasets h hdeps)
    have hedges : (fun n p => n ∈ datasets.eraseDups ∧
        p ∈ preds datasets.eraseDups dependencies n) = DependsOn datasets dependencies := by
      funext n p
      rw [mem_preds h, dependsOn_eraseDups]
      exact propext (and_iff_right_of_imp fun hdep => List.mem_eraseDups.mpr hdep.1)
    rw [hedges] at hcomplete
    refine ⟨_,hgives,?_,fun g hg => ?_⟩
    · by_cases hlength : topo.length = datasets.eraseDups.length
      · rw [if_neg (not_not.mpr hlength)]
        exact iff_of_true ⟨_,rfl⟩ ⟨hnone,hknown.mp hunknown,hcomplete.mp hlength⟩
      · rw [if_pos hlength]
        exact iff_of_false (by simp) fun hright => hlength (hcomplete.mpr hright.2.2)
    · by_cases hlength : topo.length = datasets.eraseDups.length
      · rw [if_neg (not_not.mpr hlength)] at hg
        cases hg
        have hperm := (List.Nodup.subperm hsorted.once fun n hn =>
          ((hsorted.ready n).mp (.inr hn)).1).perm_of_length_le hlength.ge
        have horders := orders_of_complete h hdeps hsorted fun n hn => hperm.mem_iff.mpr hn
        exact ⟨topo,horders.eraseDups⟩
      · rw [if_pos hlength] at hg
        cases hg
  · obtain ⟨exc,hgives⟩ := gives_init_unknown hsome hunknown
    exact ⟨_,hgives,iff_of_false (by simp) fun hright => hunknown (hknown.mpr hright.2.1),
      by simp⟩

/-- Without a dataset there is no graph, though no dependency is unknown and there is no cycle. -/
theorem no_graph_without_datasets : ¬((∃ g, Gives (init [] []) (.ok g)) ↔
    (∀ name dep, DependsOn [] [] name dep → dep ∈ ([] : List String)) ∧
      Acyclic (DependsOn [] [])) := by
  have hright : (∀ name dep, DependsOn [] [] name dep → dep ∈ ([] : List String)) ∧
      Acyclic (DependsOn [] []) := by
    refine ⟨fun name dep hdep => absurd hdep.1 List.not_mem_nil,fun name hcycle => ?_⟩
    obtain ⟨_,hdep,_⟩ := Relation.TransGen.head'_iff.mp hcycle
    exact absurd hdep.1 List.not_mem_nil
  intro hiff
  obtain ⟨g,hgives⟩ := hiff.mpr hright
  have herror : Gives (init [] []) (.error ⟨"ValueError",
      "CacheDependencyGraph requires at least one dataset"⟩) := Gives.const _
  cases hgives.unique herror

example : (init ["positions", "employees", "organizations"]
    [("employees",["organizations"]),("positions",["employees"])] 3).map
      (fun g => g.map topo) = some (.ok ["organizations", "employees", "positions"]) := by
  decide

end CacheDependencyGraph
end NexusEtl
