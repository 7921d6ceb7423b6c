import NexusEtl.Library.Acyclic
import NexusEtl.MatchModels

/-!
# Topology snapshots

A snapshot holds the nodes of a hierarchy with its parent and child indices. Its
queries follow the indices in loops that nothing in the queries themselves
bounds, so a run takes fuel and gives nothing when the fuel is used up. On a
well-formed snapshot every query of a node ends.
-/

set_option autoImplicit false

namespace NexusEtl
open NexusEtl.Library

structure TopologyNode where
  nodeId : String
  parentId : Option String
  displayName : String
  canonicalName : String
  deriving DecidableEq, Repr

structure TopologySnapshot where
  nodesById : Dict String TopologyNode
  parentById : Dict String (Option String)
  childrenById : Dict String (List String)
  roots : List String
  deriving DecidableEq, Repr

/-- `children_by_id.setdefault(parent, set()).add(child)`. -/
def addChild (children : Dict String (List String)) (parent child : String) :
    Dict String (List String) :=
  let known := (Dict.get? children parent).getD []
  Dict.set children parent (if child ∈ known then known else known ++ [child])

theorem mem_addChild {children : Dict String (List String)} {parent child p c : String} :
    c ∈ (Dict.get? (addChild children parent child) p).getD [] ↔
      c ∈ (Dict.get? children p).getD [] ∨ p = parent ∧ c = child := by
  unfold addChild
  dsimp only
  rw [Dict.get?_set]
  by_cases hp : parent = p
  · subst hp
    simp only [if_true, Option.getD_some, true_and]
    split
    · rename_i hknown
      exact ⟨.inl,fun h => h.elim id fun heq => heq ▸ hknown⟩
    · simp
  · simp [hp, Ne.symm hp]

theorem isSome_addChild {children : Dict String (List String)} {parent child p : String} :
    (Dict.get? (addChild children parent child) p).isSome = true ↔
      p = parent ∨ (Dict.get? children p).isSome = true := by
  unfold addChild
  dsimp only
  rw [Dict.get?_set]
  by_cases hp : parent = p
  · simp [hp]
  · simp [hp, Ne.symm hp]

theorem addChild_nodup {children : Dict String (List String)}
    (h : ∀ p, ((Dict.get? children p).getD []).Nodup) (parent child p : String) :
    ((Dict.get? (addChild children parent child) p).getD []).Nodup := by
  unfold addChild
  dsimp only
  rw [Dict.get?_set]
  by_cases hp : parent = p
  · subst hp
    simp only [if_true, Option.getD_some]
    split
    · exact h parent
    · rename_i hnew
      exact List.nodup_append.mpr ⟨h parent,List.nodup_singleton _,fun a ha b hb heq =>
        hnew (List.mem_singleton.mp hb ▸ heq ▸ ha)⟩
  · simp only [hp, if_false]
    exact h p

def TopologySnapshot.ofIndices (nodes : Dict String TopologyNode)
    (parents : Dict String (Option String)) (children : Dict String (List String)) :
    TopologySnapshot :=
  { nodesById := nodes
    parentById := parents
    childrenById := children.map fun entry => (entry.1,sortTexts entry.2)
    roots := sortTexts ((parents.filter fun entry => entry.2.isNone).map Prod.fst) }

/-- What a loop with fuel gives: nothing, or an exception or a value. -/
abbrev QueryRun (α : Type) := Option (Except PyException α)

namespace TopologySnapshot

def empty : TopologySnapshot := ⟨[],[],[],[]⟩

variable (t : TopologySnapshot)

def requireNode (id : String) : Except PyException TopologyNode :=
  match Dict.get? t.nodesById id with
  | some node => .ok node
  | none => .error ⟨"KeyError","'Unknown topology node: " ++ id ++ "'"⟩

def parentId (id : String) : Except PyException (Option String) :=
  (t.requireNode id).map fun _ => (Dict.get? t.parentById id).join

def childrenIds (id : String) : Except PyException (List String) :=
  (t.requireNode id).map fun _ => (Dict.get? t.childrenById id).getD []

/-- The loop of `ancestors` and of `path_to_root`. -/
def climb : Nat → Option String → List String → QueryRun (List String)
  | _, none, result => some (.ok result)
  | 0, some _, _ => none
  | fuel+1, some current, result =>
    match t.parentId current with
    | .error exc => some (.error exc)
    | .ok parent => climb fuel parent (result ++ [current])

def ancestors (fuel : Nat) (id : String) : QueryRun (List String) :=
  match t.parentId id with
  | .error exc => some (.error exc)
  | .ok parent => t.climb fuel parent []

def pathToRoot (fuel : Nat) (id : String) : QueryRun (List String) :=
  match t.parentId id with
  | .error exc => some (.error exc)
  | .ok parent => t.climb fuel parent [id]

def depth (fuel : Nat) (id : String) : QueryRun Nat :=
  (t.ancestors fuel id).map fun ids => ids.map List.length

/-- The last element of `path_to_root`. -/
def rootId (fuel : Nat) (id : String) : QueryRun String :=
  (t.pathToRoot fuel id).map fun path => path.bind fun ids => match ids.getLast? with
    | some root => .ok root
    | none => .error ⟨"IndexError","tuple index out of range"⟩

def canonicalName (id : String) : Except PyException String :=
  (t.requireNode id).map TopologyNode.canonicalName

def canonicalPath (fuel : Nat) (id : String) : QueryRun (List String) :=
  (t.pathToRoot fuel id).map fun path => path.bind fun ids => ids.reverse.mapM t.canonicalName

/-- The loop of `descendants`; the head of the list is the top of the stack. -/
def descend : Nat → List String → List String → QueryRun (List String)
  | _, [], result => some (.ok result)
  | 0, _::_, _ => none
  | fuel+1, current::stack, result =>
    match t.childrenIds current with
    | .error exc => some (.error exc)
    | .ok children => descend fuel (sortTexts children ++ stack) (result ++ [current])

def descendants (fuel : Nat) (id : String) : QueryRun (List String) :=
  match t.childrenIds id with
  | .error exc => some (.error exc)
  | .ok children => t.descend fuel (sortTexts children) []

def IsNode (id : String) : Prop := (Dict.get? t.nodesById id).isSome = true

def IsParent (child parent : String) : Prop := Dict.get? t.parentById child = some (some parent)

/-- The indices of a hierarchy: every parent is a node, the children are the inverse of the
parents, the roots are the nodes without one, and no path comes back to its start. -/
structure WellFormed (t : TopologySnapshot) : Prop where
  indexed : ∀ id, t.IsNode id ↔ (Dict.get? t.parentById id).isSome = true
  known : ∀ child parent, t.IsParent child parent → t.IsNode parent
  children : ∀ child parent,
    child ∈ (Dict.get? t.childrenById parent).getD [] ↔ t.IsParent child parent
  once : ∀ parent, ((Dict.get? t.childrenById parent).getD []).Nodup
  roots : ∀ id, id ∈ t.roots ↔ Dict.get? t.parentById id = some none
  acyclic : Acyclic t.IsParent

/-- The empty snapshot of a failed build has no node to ask for. -/
theorem empty_wellFormed : empty.WellFormed where
  indexed id := by simp [IsNode, empty]
  known child parent hp := by simp [IsParent, empty] at hp
  children child parent := by simp [IsParent, empty]
  once parent := by simp [empty]
  roots id := by simp [empty]
  acyclic := by
    apply Acyclic.of_wellFounded
    exact ⟨fun id => ⟨id,fun other hp => by simp [IsParent, empty] at hp⟩⟩

variable {t}

theorem requireNode_of_isNode {id : String} (h : t.IsNode id) :
    ∃ node, t.requireNode id = .ok node ∧ Dict.get? t.nodesById id = some node := by
  obtain ⟨node,hnode⟩ := Option.isSome_iff_exists.mp h
  exact ⟨node,by simp [requireNode, hnode],hnode⟩

theorem parentId_of_isNode {id : String} (h : t.IsNode id) :
    t.parentId id = .ok (Dict.get? t.parentById id).join := by
  obtain ⟨node,hnode,_⟩ := requireNode_of_isNode h
  simp [parentId, hnode, Except.map]

theorem childrenIds_of_isNode {id : String} (h : t.IsNode id) :
    t.childrenIds id = .ok ((Dict.get? t.childrenById id).getD []) := by
  obtain ⟨node,hnode,_⟩ := requireNode_of_isNode h
  simp [childrenIds, hnode, Except.map]

theorem childrenIds_ok {parent : String} {ids : List String}
    (hids : t.childrenIds parent = .ok ids) :
    ids = (Dict.get? t.childrenById parent).getD [] := by
  by_cases hid : t.IsNode parent
  · rw [childrenIds_of_isNode hid] at hids
    exact (Except.ok.inj hids).symm
  · have hnode : Dict.get? t.nodesById parent = none := Option.not_isSome_iff_eq_none.mp hid
    simp [childrenIds, requireNode, hnode, Except.map] at hids

theorem nodes_finite : {id | t.IsNode id}.Finite := by
  apply (List.finite_toSet (Dict.keys t.nodesById)).subset
  intro id hid
  by_contra hnot
  have hnone := Dict.get?_eq_none hnot
  have hsome : (Dict.get? t.nodesById id).isSome = true := hid
  rw [hnone] at hsome
  cases hsome

/-- All nodes of a path have names, one for each. -/
theorem names_of_nodes {ids : List String} (hnodes : ∀ id ∈ ids, t.IsNode id) :
    ∃ names, ids.mapM t.canonicalName = .ok names ∧ names.length = ids.length := by
  induction ids with
  | nil => exact ⟨[],rfl,rfl⟩
  | cons id ids ih =>
    obtain ⟨names,hnames,hlength⟩ := ih fun other hother =>
      hnodes other (List.mem_cons_of_mem _ hother)
    obtain ⟨node,hnode,_⟩ := requireNode_of_isNode (hnodes id List.mem_cons_self)
    refine ⟨node.canonicalName::names,?_,by rw [List.length_cons, List.length_cons, hlength]⟩
    simp [hnames, canonicalName, hnode, Except.map, bind, Except.bind, pure, Except.pure]

/-- The ids from the root down to a node. -/
inductive RootPath (t : TopologySnapshot) : String → List String → Prop
  | root {id : String} (h : Dict.get? t.parentById id = some none) : RootPath t id [id]
  | child {id parent : String} {ids : List String} (hp : t.IsParent id parent)
      (h : RootPath t parent ids) : RootPath t id (ids ++ [id])

theorem RootPath.ends {id : String} {ids : List String} (hp : t.RootPath id ids) :
    ∃ above, ids = above ++ [id] := by
  cases hp with
  | root hroot => exact ⟨[],rfl⟩
  | child hparent hpath => exact ⟨_,rfl⟩

/-- Every stack that starts with these ids is worked off, if the rest of it is. -/
def Drains (t : TopologySnapshot) (stack : List String) : Prop :=
  ∀ result, ∃ fuel ids, t.descend fuel stack result = some (.ok ids)

theorem Drains.nil : t.Drains [] := fun result => ⟨0,result,rfl⟩

theorem Drains.append {ids stack : List String}
    (hids : ∀ id ∈ ids, ∀ rest, t.Drains rest → t.Drains (id::rest)) (h : t.Drains stack) :
    t.Drains (ids ++ stack) := by
  induction ids with
  | nil => exact h
  | cons id ids ih =>
    apply hids id List.mem_cons_self
    exact ih fun other hother => hids other (List.mem_cons_of_mem _ hother)

theorem mem_sortTexts {id : String} {ids : List String} : id ∈ sortTexts ids ↔ id ∈ ids :=
  List.mem_insertionSort _

/-- The sorted list shows which ids there are, not the order in which they came. -/
theorem sortTexts_congr {ids others : List String} (hids : ids.Nodup) (hothers : others.Nodup)
    (h : ∀ id, id ∈ ids ↔ id ∈ others) : sortTexts ids = sortTexts others := by
  have hperm : (sortTexts ids).Perm (sortTexts others) :=
    ((List.perm_insertionSort _ ids).trans ((List.perm_ext_iff_of_nodup hids hothers).mpr h)).trans
      (List.perm_insertionSort _ others).symm
  exact hperm.eq_of_pairwise' (List.pairwise_insertionSort _ ids)
    (List.pairwise_insertionSort _ others)

theorem childrenById_ofIndices (nodes : Dict String TopologyNode)
    (parents : Dict String (Option String)) (children : Dict String (List String))
    (parent : String) :
    (Dict.get? (ofIndices nodes parents children).childrenById parent).getD [] =
      sortTexts ((Dict.get? children parent).getD []) := by
  show (Dict.get? (children.map fun e => (e.1,sortTexts e.2)) parent).getD [] = _
  rw [Dict.get?_mapValues]
  cases Dict.get? children parent <;> rfl

theorem mem_rootIds {parents : Dict String (Option String)} (h : (Dict.keys parents).Nodup)
    (id : String) : id ∈ (parents.filter fun e => e.2.isNone).map Prod.fst ↔
      Dict.get? parents id = some none := by
  rw [← Dict.mem_iff_get? h]
  simp only [List.mem_map, List.mem_filter, Option.isNone_iff_eq_none]
  constructor
  · rintro ⟨e,⟨he,hnone⟩,rfl⟩
    exact hnone ▸ he
  · exact fun he => ⟨_,⟨he,rfl⟩,rfl⟩

/-- Equal as mappings: the same entries and the same roots. -/
structure Same (t u : TopologySnapshot) : Prop where
  nodes : ∀ id, Dict.get? t.nodesById id = Dict.get? u.nodesById id
  parents : ∀ id, Dict.get? t.parentById id = Dict.get? u.parentById id
  children : ∀ id, Dict.get? t.childrenById id = Dict.get? u.childrenById id
  roots : t.roots = u.roots

namespace WellFormed

variable (h : t.WellFormed)
include h

theorem isNode_of_isParent {child parent : String} (hp : t.IsParent child parent) :
    t.IsNode child ∧ t.IsNode parent :=
  ⟨(h.indexed child).mpr (by rw [show _ = _ from hp]; rfl),h.known child parent hp⟩

theorem parentId_ok_iff {id : String} {parent? : Option String} :
    t.parentId id = .ok parent? ↔ Dict.get? t.parentById id = some parent? := by
  by_cases hid : t.IsNode id
  · obtain ⟨stored,hstored⟩ := Option.isSome_iff_exists.mp ((h.indexed id).mp hid)
    simp [parentId_of_isNode hid, hstored]
  · have hnone : Dict.get? t.parentById id = none := by
      by_contra hsome
      exact hid ((h.indexed id).mpr (Option.ne_none_iff_isSome.mp hsome))
    have hnode : Dict.get? t.nodesById id = none := Option.not_isSome_iff_eq_none.mp hid
    simp [parentId, requireNode, hnode, hnone, Except.map]

theorem mem_childrenIds_iff (child parent : String) :
    (∃ ids, t.childrenIds parent = .ok ids ∧ child ∈ ids) ↔ t.parentId child = .ok (some parent) := by
  rw [h.parentId_ok_iff]
  constructor
  · rintro ⟨ids,hids,hmem⟩
    rw [childrenIds_ok hids] at hmem
    exact (h.children child parent).mp hmem
  · intro hp
    exact ⟨_,childrenIds_of_isNode (h.known child parent hp),(h.children child parent).mpr hp⟩

theorem wellFounded_up : WellFounded fun parent child => t.IsParent child parent :=
  h.acyclic.flip.wellFounded nodes_finite fun _ _ hp =>
    ⟨(h.isNode_of_isParent hp).2,(h.isNode_of_isParent hp).1⟩

theorem wellFounded_down : WellFounded t.IsParent :=
  h.acyclic.wellFounded nodes_finite fun _ _ hp => h.isNode_of_isParent hp

/-- Every node hangs below a root, by induction along the parents. -/
theorem exists_rootPath {id : String} (hid : t.IsNode id) : ∃ ids, t.RootPath id ids := by
  induction id using h.wellFounded_up.induction with
  | _ id ih =>
    obtain ⟨parent?,hparent⟩ := Option.isSome_iff_exists.mp ((h.indexed id).mp hid)
    cases parent? with
    | none => exact ⟨[id],.root hparent⟩
    | some parent =>
      obtain ⟨ids,hids⟩ := ih parent hparent (h.known id parent hparent)
      exact ⟨ids ++ [id],.child hparent hids⟩

theorem isNode_of_rootPath {id : String} {ids : List String} (hp : t.RootPath id ids) :
    ∀ other ∈ ids, t.IsNode other := by
  have hself : ∀ id parent?, Dict.get? t.parentById id = some parent? → t.IsNode id := by
    intro id parent? hparent
    exact (h.indexed id).mpr (by rw [hparent]; rfl)
  induction hp with
  | root hroot =>
    intro other hother
    rw [List.mem_singleton.mp hother]
    exact hself _ _ hroot
  | child hp _ ih =>
    intro other hother
    rcases List.mem_append.mp hother with hother | hother
    · exact ih other hother
    · rw [List.mem_singleton.mp hother]
      exact hself _ _ hp

/-- Climbing from a node collects its path, from the node up. -/
theorem climb_rootPath {id : String} {ids : List String} (hp : t.RootPath id ids) {fuel : Nat}
    (hfuel : ids.length ≤ fuel) (result : List String) :
    t.climb fuel (some id) result = some (.ok (result ++ ids.reverse)) := by
  induction hp generalizing fuel result with
  | root hroot =>
    have hid : t.IsNode _ := h.isNode_of_rootPath (.root hroot) _ List.mem_cons_self
    cases fuel with
    | zero => simp at hfuel
    | succ fuel => simp [climb, parentId_of_isNode hid, hroot]
  | @child id parent ids hparent hpath ih =>
    have hid := (h.isNode_of_isParent hparent).1
    cases fuel with
    | zero => simp at hfuel
    | succ fuel =>
      have hrest := ih (by simpa using hfuel) (result ++ [id])
      simp [climb, parentId_of_isNode hid, show _ = _ from hparent, hrest]

theorem climb_parent {id : String} {ids : List String} (hp : t.RootPath id (ids ++ [id]))
    {fuel : Nat} (hfuel : ids.length ≤ fuel) (result : List String) :
    t.climb fuel (Dict.get? t.parentById id).join result =
      some (.ok (result ++ ids.reverse)) := by
  generalize hpath : ids ++ [id] = path at hp
  cases hp with
  | root hroot =>
    have hids : ids = [] := by simpa using hpath
    rw [hroot, hids]
    simp [climb]
  | child hparent hpath' =>
    have hids := List.append_cancel_right hpath
    rw [show _ = _ from hparent, hids]
    exact h.climb_rootPath hpath' (hids ▸ hfuel) result

theorem ancestors_rootPath {id : String} {above : List String}
    (hp : t.RootPath id (above ++ [id])) {fuel : Nat} (hfuel : above.length ≤ fuel) :
    t.ancestors fuel id = some (.ok above.reverse) := by
  have hid := h.isNode_of_rootPath hp id (by simp)
  unfold ancestors
  rw [parentId_of_isNode hid]
  simpa using h.climb_parent hp hfuel []

theorem canonicalPath_rootPath {id : String} {above : List String}
    (hp : t.RootPath id (above ++ [id])) {fuel : Nat} (hfuel : above.length ≤ fuel) :
    t.canonicalPath fuel id = some ((above ++ [id]).mapM t.canonicalName) := by
  have hid := h.isNode_of_rootPath hp id (by simp)
  have hclimb := h.climb_parent hp hfuel [id]
  unfold canonicalPath pathToRoot
  rw [parentId_of_isNode hid]
  dsimp only
  rw [hclimb]
  simp [Except.bind]

/-- The children of a node come off the stack before what lay below it, by induction down the
hierarchy. -/
theorem drains_node {id : String} (hid : t.IsNode id) {stack : List String}
    (hstack : t.Drains stack) : t.Drains (id::stack) := by
  induction id using h.wellFounded_down.induction generalizing stack with
  | _ id ih =>
    intro result
    have hchildren : t.Drains (sortTexts ((Dict.get? t.childrenById id).getD []) ++ stack) := by
      apply Drains.append _ hstack
      intro child hchild rest hrest
      have hp := (h.children child id).mp (mem_sortTexts.mp hchild)
      exact ih child hp (h.isNode_of_isParent hp).1 hrest
    obtain ⟨fuel,ids,hrun⟩ := hchildren (result ++ [id])
    refine ⟨fuel + 1,ids,?_⟩
    simp [descend, childrenIds_of_isNode hid, hrun]

/-- Every query of a node ends. -/
theorem queries_end {id : String} (hid : t.IsNode id) :
    (∃ fuel ids, t.ancestors fuel id = some (.ok ids)) ∧
      (∃ fuel ids, t.descendants fuel id = some (.ok ids)) ∧
      ∃ fuel names, t.canonicalPath fuel id = some (.ok names) := by
  obtain ⟨ids,hp⟩ := h.exists_rootPath hid
  obtain ⟨above,rfl⟩ := hp.ends
  refine ⟨⟨_,_,h.ancestors_rootPath hp (Nat.le_refl _)⟩,?_,?_⟩
  · have hdrains : t.Drains (sortTexts ((Dict.get? t.childrenById id).getD []) ++ []) := by
      apply Drains.append _ Drains.nil
      intro child hchild rest hrest
      have hparent := (h.children child id).mp (mem_sortTexts.mp hchild)
      exact h.drains_node (h.isNode_of_isParent hparent).1 hrest
    obtain ⟨fuel,ids,hrun⟩ := hdrains []
    rw [List.append_nil] at hrun
    exact ⟨fuel,ids,by simp [descendants, childrenIds_of_isNode hid, hrun]⟩
  · obtain ⟨names,hnames,_⟩ := names_of_nodes (h.isNode_of_rootPath hp)
    exact ⟨_,names,by rw [h.canonicalPath_rootPath hp (Nat.le_refl _), hnames]⟩

end WellFormed
end TopologySnapshot
end NexusEtl
