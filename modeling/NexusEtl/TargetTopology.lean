import NexusEtl.TopologySnapshot

/-!
# The target topology

The rows of the target name their parents, so the builder has to find repeated
ids, unknown parents and cycles. It collects the first two in its passes over
the rows and looks for a cycle only where it found neither.
-/

set_option autoImplicit false

namespace NexusEtl
open NexusEtl.Library

structure TargetHierarchyRow where
  nodeId : String
  parentId : Option String
  label : String
  deriving DecidableEq, Repr

def TargetHierarchyRow.node (row : TargetHierarchyRow) : TopologyNode :=
  ⟨row.nodeId,row.parentId,row.label,row.label⟩

/-- `TopologicalSorter(graph).static_order()` of a graph of predecessors, up to the order. -/
def raisesCycleError (graph : Dict String (List String)) : Bool :=
  !(leftOver (fun id => (Dict.get? graph id).getD []) (Dict.keys graph).length
    (Dict.keys graph)).isEmpty

def hasCycle (parents : Dict String (Option String)) : Bool :=
  raisesCycleError (parents.map fun entry => (entry.1,entry.2.toList))

structure HierarchyIndices where
  nodes : Dict String TopologyNode
  parents : Dict String (Option String)
  children : Dict String (List String)
  errors : List DiagnosticItem
  deriving DecidableEq, Repr

structure TargetHierarchyTopologyBuilder where
  catalog : ErrorCatalog

namespace TargetHierarchyTopologyBuilder

variable (builder : TargetHierarchyTopologyBuilder)

def error (code : String) (details : Option Fields) : DiagnosticItem :=
  diagError builder.catalog .topologyBootstrap code none none none details

def ingest (b : HierarchyIndices) (row : TargetHierarchyRow) : HierarchyIndices :=
  if Dict.contains b.nodes row.nodeId then
    { b with errors := b.errors ++
        [builder.error "TOPOLOGY_DUPLICATE_NODE" (some [("node_id",.str row.nodeId)])] }
  else
    { b with
      nodes := Dict.set b.nodes row.nodeId row.node
      parents := Dict.set b.parents row.nodeId row.parentId
      children := if Dict.contains b.children row.nodeId then b.children
        else Dict.set b.children row.nodeId [] }

def link (b : HierarchyIndices) (entry : String × Option String) : HierarchyIndices :=
  match entry.2 with
  | none => b
  | some parent =>
    if Dict.contains b.nodes parent then
      { b with children := addChild b.children parent entry.1 }
    else
      { b with errors := b.errors ++ [builder.error "TOPOLOGY_PARENT_MISSING"
          (some [("node_id",.str entry.1),("parent_id",.str parent)])] }

def indices (rows : List TargetHierarchyRow) : HierarchyIndices :=
  let ingested := rows.foldl builder.ingest ⟨[],[],[],[]⟩
  ingested.parents.foldl builder.link ingested

def build (rows : List TargetHierarchyRow) : TopologySnapshot × List DiagnosticItem :=
  let b := builder.indices rows
  if b.errors ≠ [] then (.empty,b.errors)
  else if hasCycle b.parents then (.empty,[builder.error "TOPOLOGY_CYCLE_DETECTED" none])
  else (.ofIndices b.nodes b.parents b.children,[])

end TargetHierarchyTopologyBuilder

/-- The rows of a hierarchy: distinct ids, known parents, no cycle. -/
structure IsHierarchy (rows : List TargetHierarchyRow) : Prop where
  distinct : (rows.map TargetHierarchyRow.nodeId).Nodup
  known : ∀ row ∈ rows, ∀ parent ∈ row.parentId, ∃ other ∈ rows, other.nodeId = parent
  acyclic : Acyclic fun child parent =>
    ∃ row ∈ rows, row.nodeId = child ∧ row.parentId = some parent

namespace TargetHierarchyTopologyBuilder

variable {builder : TargetHierarchyTopologyBuilder}

theorem ingest_errors_iff (rows : List TargetHierarchyRow) (b : HierarchyIndices) :
    (rows.foldl builder.ingest b).errors = [] ↔ b.errors = [] ∧
      (rows.map TargetHierarchyRow.nodeId).Nodup ∧
      ∀ row ∈ rows, row.nodeId ∉ Dict.keys b.nodes := by
  induction rows generalizing b with
  | nil => simp
  | cons row rows ih =>
    rw [List.foldl_cons, ih]
    by_cases hknown : row.nodeId ∈ Dict.keys b.nodes
    · have hcontains : Dict.contains b.nodes row.nodeId = true := Dict.mem_keys_iff.mp hknown
      simp [ingest, hcontains, hknown]
    · have hcontains : Dict.contains b.nodes row.nodeId = false := by
        rw [← Bool.not_eq_true]
        exact fun h => hknown (Dict.mem_keys_iff.mpr h)
      have hkeys : Dict.keys (builder.ingest b row).nodes = Dict.keys b.nodes ++ [row.nodeId] := by
        simp [ingest, hcontains, Dict.set_eq_append hknown, Dict.keys]
      have herrors : (builder.ingest b row).errors = b.errors := by simp [ingest, hcontains]
      rw [hkeys, herrors]
      simp only [List.map_cons, List.nodup_cons, List.mem_append, List.not_mem_nil, not_or,
        List.mem_cons, forall_eq_or_imp, List.mem_map, not_false_eq_true, and_true]
      constructor
      · rintro ⟨hb,hnodup,hrows⟩
        refine ⟨hb,⟨?_,hnodup⟩,hknown,fun r hr => (hrows r hr).1⟩
        rintro ⟨r,hr,heq⟩
        exact (hrows r hr).2 heq
      · rintro ⟨hb,⟨hfirst,hnodup⟩,_,hrows⟩
        exact ⟨hb,hnodup,fun r hr => ⟨hrows r hr,fun heq => hfirst ⟨r,hr,heq⟩⟩⟩

/-- Rows with distinct ids go into the indices one after the other. -/
theorem ingest_distinct {rows : List TargetHierarchyRow}
    (h : (rows.map TargetHierarchyRow.nodeId).Nodup) :
    rows.foldl builder.ingest ⟨[],[],[],[]⟩ =
      { nodes := rows.map fun row => (row.nodeId,row.node)
        parents := rows.map fun row => (row.nodeId,row.parentId)
        children := rows.map fun row => (row.nodeId,[])
        errors := [] } := by
  induction rows using List.reverseRecOn with
  | nil => rfl
  | append_singleton rows row ih =>
    rw [List.map_append, List.nodup_append] at h
    have hfresh : ∀ {β : Type} (f : TargetHierarchyRow → β),
        row.nodeId ∉ Dict.keys (rows.map fun r => (r.nodeId,f r)) := by
      intro β f hmem
      simp only [Dict.keys, List.map_map, List.mem_map, Function.comp_apply] at hmem
      obtain ⟨r,hr,heq⟩ := hmem
      exact h.2.2 r.nodeId (List.mem_map_of_mem hr) row.nodeId (by simp) heq
    have hcontains : ∀ {β : Type} (f : TargetHierarchyRow → β),
        Dict.contains (rows.map fun r => (r.nodeId,f r)) row.nodeId = false := by
      intro β f
      rw [← Bool.not_eq_true]
      exact fun hc => hfresh f (Dict.mem_keys_iff.mpr hc)
    rw [List.foldl_append, ih h.1]
    simp [ingest, hcontains, Dict.set_eq_append (hfresh _)]

theorem link_nodes (es : List (String × Option String)) (b : HierarchyIndices) :
    (es.foldl builder.link b).nodes = b.nodes ∧ (es.foldl builder.link b).parents = b.parents := by
  induction es generalizing b with
  | nil => exact ⟨rfl,rfl⟩
  | cons e es ih =>
    have hstep : (builder.link b e).nodes = b.nodes ∧ (builder.link b e).parents = b.parents := by
      unfold link
      split
      · exact ⟨rfl,rfl⟩
      · split <;> exact ⟨rfl,rfl⟩
    rw [List.foldl_cons, (ih _).1, (ih _).2]
    exact hstep

theorem link_errors_iff (es : List (String × Option String)) (b : HierarchyIndices) :
    (es.foldl builder.link b).errors = [] ↔ b.errors = [] ∧
      ∀ e ∈ es, ∀ parent ∈ e.2, parent ∈ Dict.keys b.nodes := by
  induction es generalizing b with
  | nil => simp
  | cons e es ih =>
    have hstep : (builder.link b e).errors = [] ↔ b.errors = [] ∧
        ∀ parent ∈ e.2, parent ∈ Dict.keys b.nodes := by
      unfold link
      cases he : e.2 with
      | none => simp
      | some parent =>
        by_cases hc : Dict.contains b.nodes parent = true
        · simp [hc, Dict.mem_keys_iff.mpr hc]
        · have hnot : parent ∉ Dict.keys b.nodes := fun h => hc (Dict.mem_keys_iff.mp h)
          simp [hc, hnot]
    have hnodes : (builder.link b e).nodes = b.nodes := (link_nodes [e] b).1
    rw [List.foldl_cons, ih, hstep, hnodes]
    simp [and_assoc]

/-- Linking adds each entry below its parent, once. -/
theorem link_children {es : List (String × Option String)} {b : HierarchyIndices}
    (h : ∀ e ∈ es, ∀ parent ∈ e.2, parent ∈ Dict.keys b.nodes) (child parent : String) :
    child ∈ (Dict.get? (es.foldl builder.link b).children parent).getD [] ↔
      child ∈ (Dict.get? b.children parent).getD [] ∨ (child,some parent) ∈ es := by
  induction es generalizing b with
  | nil => simp
  | cons e es ih =>
    have hnodes : (builder.link b e).nodes = b.nodes := (link_nodes [e] b).1
    have hrest : ∀ e' ∈ es, ∀ p ∈ e'.2, p ∈ Dict.keys (builder.link b e).nodes := by
      rw [hnodes]
      exact fun e' he' => h e' (List.mem_cons_of_mem _ he')
    have hstep : child ∈ (Dict.get? (builder.link b e).children parent).getD [] ↔
        child ∈ (Dict.get? b.children parent).getD [] ∨ (child,some parent) = e := by
      obtain ⟨id,parent?⟩ := e
      cases parent? with
      | none => simp [link]
      | some other =>
        have hc : Dict.contains b.nodes other = true :=
          Dict.mem_keys_iff.mp (h _ List.mem_cons_self other rfl)
        simp only [link, hc, if_true, mem_addChild, Prod.mk.injEq, Option.some.injEq]
        exact or_congr_right and_comm
    rw [List.foldl_cons, ih hrest, hstep, List.mem_cons, or_assoc]

theorem link_children_nodup (es : List (String × Option String)) {b : HierarchyIndices}
    (h : ∀ parent, ((Dict.get? b.children parent).getD []).Nodup) (parent : String) :
    ((Dict.get? (es.foldl builder.link b).children parent).getD []).Nodup := by
  induction es generalizing b with
  | nil => exact h parent
  | cons e es ih =>
    apply ih
    intro p
    unfold link
    split
    · exact h p
    · split
      · exact addChild_nodup h _ _ p
      · exact h p

end TargetHierarchyTopologyBuilder

theorem raisesCycleError_iff (graph : Dict String (List String)) :
    raisesCycleError graph = true ↔
      ¬Acyclic fun node pred => pred ∈ (Dict.get? graph node).getD [] := by
  have hnodes : ∀ node, ∀ pred ∈ (Dict.get? graph node).getD [], node ∈ Dict.keys graph := by
    intro node pred hpred
    apply Dict.mem_keys_iff.mpr
    cases hnode : Dict.get? graph node with
    | none => simp [hnode] at hpred
    | some preds => rfl
  rw [← leftOver_eq_nil_iff hnodes]
  simp [raisesCycleError]

theorem hasCycle_iff (parents : Dict String (Option String)) :
    hasCycle parents = true ↔
      ¬Acyclic fun child parent => Dict.get? parents child = some (some parent) := by
  have hedge : (fun node pred => pred ∈
      (Dict.get? (parents.map fun entry => (entry.1,entry.2.toList)) node).getD []) =
        fun child parent => Dict.get? parents child = some (some parent) := by
    funext child parent
    rw [Dict.get?_mapValues]
    cases Dict.get? parents child with
    | none => simp
    | some parent? => cases parent? <;> simp [eq_comm]
  rw [hasCycle, raisesCycleError_iff, hedge]

/-- What a snapshot shows of the rows that it was built from. -/
structure TopologySnapshot.Represents (t : TopologySnapshot) (rows : List TargetHierarchyRow) :
    Prop where
  nodes : ∀ row ∈ rows, t.requireNode row.nodeId = .ok row.node
  only : ∀ id, t.IsNode id ↔ ∃ row ∈ rows, row.nodeId = id
  parents : ∀ child parent, t.parentId child = .ok (some parent) ↔
    ∃ row ∈ rows, row.nodeId = child ∧ row.parentId = some parent
  children : ∀ child parent, (∃ ids, t.childrenIds parent = .ok ids ∧ child ∈ ids) ↔
    t.parentId child = .ok (some parent)
  once : ∀ parent ids, t.childrenIds parent = .ok ids → ids.Nodup
  roots : ∀ id, id ∈ t.roots ↔ t.parentId id = .ok none
  ends : ∀ id, t.IsNode id → (∃ fuel ids, t.ancestors fuel id = some (.ok ids)) ∧
    (∃ fuel ids, t.descendants fuel id = some (.ok ids)) ∧
    ∃ fuel names, t.canonicalPath fuel id = some (.ok names)

namespace TargetHierarchyTopologyBuilder

variable {builder : TargetHierarchyTopologyBuilder} {rows : List TargetHierarchyRow}

theorem get?_rows {β : Type} (f : TargetHierarchyRow → β)
    (h : (rows.map TargetHierarchyRow.nodeId).Nodup) (id : String) (v : β) :
    Dict.get? (rows.map fun row => (row.nodeId,f row)) id = some v ↔
      ∃ row ∈ rows, row.nodeId = id ∧ f row = v := by
  have hkeys : (Dict.keys (rows.map fun row => (row.nodeId,f row))).Nodup := by
    simpa [Dict.keys, Function.comp_def] using h
  rw [← Dict.mem_iff_get? hkeys]
  simp [List.mem_map]

theorem indices_errors_iff : (builder.indices rows).errors = [] ↔
    (rows.map TargetHierarchyRow.nodeId).Nodup ∧
      ∀ row ∈ rows, ∀ parent ∈ row.parentId, ∃ other ∈ rows, other.nodeId = parent := by
  unfold indices
  dsimp only
  rw [link_errors_iff, ingest_errors_iff]
  simp only [true_and, Dict.keys, List.map_nil, List.not_mem_nil, not_false_eq_true,
    implies_true, and_true]
  apply and_congr_right
  intro hdistinct
  rw [ingest_distinct hdistinct]
  simp [List.mem_map]

theorem indices_parents (h : (rows.map TargetHierarchyRow.nodeId).Nodup) :
    (builder.indices rows).nodes = (rows.map fun row => (row.nodeId,row.node)) ∧
      (builder.indices rows).parents = rows.map fun row => (row.nodeId,row.parentId) := by
  unfold indices
  dsimp only
  rw [(link_nodes _ _).1, (link_nodes _ _).2, ingest_distinct h]
  exact ⟨rfl,rfl⟩

theorem acyclic_indices_iff (h : (rows.map TargetHierarchyRow.nodeId).Nodup) :
    hasCycle (builder.indices rows).parents = false ↔ Acyclic fun child parent =>
      ∃ row ∈ rows, row.nodeId = child ∧ row.parentId = some parent := by
  have hedge : (fun child parent => Dict.get? (builder.indices rows).parents child =
      some (some parent)) = fun child parent =>
        ∃ row ∈ rows, row.nodeId = child ∧ row.parentId = some parent := by
    funext child parent
    rw [(indices_parents h).2]
    exact propext (get?_rows _ h child (some parent))
  rw [← Bool.not_eq_true, hasCycle_iff, hedge, not_not]

theorem build_of_isHierarchy (h : IsHierarchy rows) :
    builder.build rows = (.ofIndices (builder.indices rows).nodes (builder.indices rows).parents
      (builder.indices rows).children,[]) := by
  have herrors : (builder.indices rows).errors = [] :=
    indices_errors_iff.mpr ⟨h.distinct,h.known⟩
  have hcycle : hasCycle (builder.indices rows).parents = false :=
    (acyclic_indices_iff h.distinct).mpr h.acyclic
  simp [build, herrors, hcycle]

theorem indices_children (h : IsHierarchy rows) (child parent : String) :
    child ∈ (Dict.get? (builder.indices rows).children parent).getD [] ↔
      ∃ row ∈ rows, row.nodeId = child ∧ row.parentId = some parent := by
  have hknown : ∀ e ∈ (rows.foldl builder.ingest ⟨[],[],[],[]⟩).parents, ∀ p ∈ e.2,
      p ∈ Dict.keys (rows.foldl builder.ingest ⟨[],[],[],[]⟩).nodes := by
    have herrors : (builder.indices rows).errors = [] :=
      indices_errors_iff.mpr ⟨h.distinct,h.known⟩
    exact ((link_errors_iff _ _).mp herrors).2
  have hempty : (Dict.get? (rows.map fun row => (row.nodeId,([] : List String))) parent).getD [] =
      [] := by
    cases hget : Dict.get? (rows.map fun row => (row.nodeId,([] : List String))) parent with
    | none => rfl
    | some ids =>
      obtain ⟨_,_,_,rfl⟩ := (get?_rows _ h.distinct parent ids).mp hget
      rfl
  have hlinked := @link_children builder _ _ hknown child parent
  rw [ingest_distinct h.distinct] at hlinked
  simp only [hempty, List.not_mem_nil, false_or, List.mem_map, Prod.mk.injEq] at hlinked
  unfold indices
  rw [ingest_distinct h.distinct]
  exact hlinked

theorem indices_children_nodup (h : IsHierarchy rows) (parent : String) :
    ((Dict.get? (builder.indices rows).children parent).getD []).Nodup := by
  unfold indices
  rw [ingest_distinct h.distinct]
  apply link_children_nodup
  intro p
  cases hget : Dict.get? (rows.map fun row => (row.nodeId,([] : List String))) p with
  | none => exact List.nodup_nil
  | some ids =>
    obtain ⟨_,_,_,rfl⟩ := (get?_rows _ h.distinct p ids).mp hget
    exact List.nodup_nil

theorem build_parentById (h : IsHierarchy rows) (id : String) (parent? : Option String) :
    Dict.get? (builder.build rows).1.parentById id = some parent? ↔
      ∃ row ∈ rows, row.nodeId = id ∧ row.parentId = parent? := by
  rw [build_of_isHierarchy h]
  show Dict.get? (builder.indices rows).parents id = some parent? ↔ _
  rw [(indices_parents h.distinct).2]
  exact get?_rows _ h.distinct id parent?

theorem build_nodesById (h : IsHierarchy rows) (id : String) (node : TopologyNode) :
    Dict.get? (builder.build rows).1.nodesById id = some node ↔
      ∃ row ∈ rows, row.nodeId = id ∧ row.node = node := by
  rw [build_of_isHierarchy h]
  show Dict.get? (builder.indices rows).nodes id = some node ↔ _
  rw [(indices_parents h.distinct).1]
  exact get?_rows _ h.distinct id node

theorem build_isNode (h : IsHierarchy rows) (id : String) :
    (builder.build rows).1.IsNode id ↔ ∃ row ∈ rows, row.nodeId = id := by
  unfold TopologySnapshot.IsNode
  rw [Option.isSome_iff_exists]
  constructor
  · rintro ⟨node,hnode⟩
    obtain ⟨row,hrow,hid,_⟩ := (build_nodesById h id node).mp hnode
    exact ⟨row,hrow,hid⟩
  · rintro ⟨row,hrow,hid⟩
    exact ⟨row.node,(build_nodesById h id row.node).mpr ⟨row,hrow,hid,rfl⟩⟩

theorem build_wellFormed (h : IsHierarchy rows) : (builder.build rows).1.WellFormed := by
  have hchildren : ∀ parent, (Dict.get? (builder.build rows).1.childrenById parent).getD [] =
      sortTexts ((Dict.get? (builder.indices rows).children parent).getD []) := by
    intro parent
    rw [build_of_isHierarchy h]
    exact TopologySnapshot.childrenById_ofIndices _ _ _ parent
  refine ⟨fun id => ?_,fun child parent hp => ?_,fun child parent => ?_,fun parent => ?_,
    fun id => ?_,?_⟩
  · rw [build_isNode h, Option.isSome_iff_exists]
    constructor
    · rintro ⟨row,hrow,hid⟩
      exact ⟨row.parentId,(build_parentById h id _).mpr ⟨row,hrow,hid,rfl⟩⟩
    · rintro ⟨parent?,hparent⟩
      obtain ⟨row,hrow,hid,_⟩ := (build_parentById h id parent?).mp hparent
      exact ⟨row,hrow,hid⟩
  · obtain ⟨row,hrow,_,hparent⟩ := (build_parentById h child (some parent)).mp hp
    exact (build_isNode h parent).mpr (h.known row hrow parent hparent)
  · rw [hchildren, TopologySnapshot.mem_sortTexts, indices_children h]
    exact (build_parentById h child (some parent)).symm
  · rw [hchildren]
    exact (List.perm_insertionSort _ _).nodup_iff.mpr (indices_children_nodup h parent)
  · rw [build_parentById h, build_of_isHierarchy h]
    show id ∈ sortTexts (((builder.indices rows).parents.filter fun e => e.2.isNone).map
      Prod.fst) ↔ _
    rw [TopologySnapshot.mem_sortTexts, (indices_parents h.distinct).2]
    simp only [List.mem_map, List.mem_filter, Option.isNone_iff_eq_none]
    constructor
    · rintro ⟨e,⟨⟨row,hrow,rfl⟩,hnone⟩,rfl⟩
      exact ⟨row,hrow,rfl,hnone⟩
    · rintro ⟨row,hrow,rfl,hnone⟩
      exact ⟨_,⟨⟨row,hrow,rfl⟩,hnone⟩,rfl⟩
  · have hedge : (builder.build rows).1.IsParent = fun child parent =>
        ∃ row ∈ rows, row.nodeId = child ∧ row.parentId = some parent := by
      funext child parent
      exact propext (build_parentById h child (some parent))
    rw [hedge]
    exact h.acyclic

theorem build_represents (h : IsHierarchy rows) : (builder.build rows).1.Represents rows := by
  have hwf : (builder.build rows).1.WellFormed := build_wellFormed h
  refine ⟨fun row hrow => ?_,build_isNode h,fun child parent => ?_,fun child parent => ?_,
    fun parent ids hids => ?_,fun id => ?_,fun id hid => hwf.queries_end hid⟩
  · have hnode : Dict.get? (builder.build rows).1.nodesById row.nodeId = some row.node :=
      (build_nodesById h row.nodeId row.node).mpr ⟨row,hrow,rfl,rfl⟩
    simp [TopologySnapshot.requireNode, hnode]
  · rw [hwf.parentId_ok_iff, build_parentById h]
  · exact hwf.mem_childrenIds_iff child parent
  · rw [TopologySnapshot.childrenIds_ok hids]
    exact hwf.once parent
  · rw [hwf.parentId_ok_iff]
    exact hwf.roots id

theorem build_of_not (h : ¬IsHierarchy rows) :
    (builder.build rows).1 = .empty ∧ (builder.build rows).2 ≠ [] := by
  unfold build
  dsimp only
  by_cases herrors : (builder.indices rows).errors = []
  · obtain ⟨hdistinct,hknown⟩ := indices_errors_iff.mp herrors
    have hcycle : hasCycle (builder.indices rows).parents = true := by
      by_contra hnone
      rw [Bool.not_eq_true, acyclic_indices_iff hdistinct] at hnone
      exact h ⟨hdistinct,hknown,hnone⟩
    simp [herrors, hcycle]
  · simp [herrors]

theorem build_snapshot_wellFormed (builder : TargetHierarchyTopologyBuilder)
    (rows : List TargetHierarchyRow) : (builder.build rows).1.WellFormed := by
  by_cases h : IsHierarchy rows
  · exact build_wellFormed h
  · rw [(build_of_not h).1]
    exact TopologySnapshot.empty_wellFormed

/-- The builder reports nothing exactly on the rows of a hierarchy; then the snapshot shows the
rows, and otherwise it is empty. -/
theorem target_topology (builder : TargetHierarchyTopologyBuilder)
    (rows : List TargetHierarchyRow) :
    ((builder.build rows).2 = [] ↔ IsHierarchy rows) ∧
      (IsHierarchy rows → (builder.build rows).1.Represents rows) ∧
      (¬IsHierarchy rows → (builder.build rows).1 = .empty) := by
  refine ⟨⟨fun hnone => ?_,fun h => ?_⟩,build_represents,fun h => (build_of_not h).1⟩
  · by_contra h
    exact (build_of_not h).2 hnone
  · rw [build_of_isHierarchy h]

example : (build ⟨[]⟩ [⟨"a",some "b","A"⟩,⟨"b",some "a","B"⟩]).2.map DiagnosticItem.code =
    ["TOPOLOGY_CYCLE_DETECTED"] := by decide

end TargetHierarchyTopologyBuilder
end NexusEtl
