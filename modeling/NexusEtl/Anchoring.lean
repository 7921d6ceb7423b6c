import NexusEtl.Library.Reach
import NexusEtl.TopologySnapshot

/-!
# Anchoring source nodes

Every source node should climb, parent by parent, to an anchor: a node without a
parent or a parent that the target has. A memoised visit climbs from every node;
a sweep over what it dropped then drops all that hangs below. The module says
where the sweep takes away a node that the visit had anchored.
-/

set_option autoImplicit false

namespace NexusEtl
open NexusEtl.Library

structure SourceAdjacencyNode where
  nodeId : String
  parentId : Option String
  label : String
  deriving DecidableEq, Repr

inductive SourceAnchoringReason
  | missingParent | unanchoredSubtree | cycle
  deriving DecidableEq, Repr

structure SourceAnchoringVerdict where
  nodeId : String
  reason : SourceAnchoringReason
  brokenAtParentId : Option String
  deriving DecidableEq, Repr

structure SourceAnchoringResult where
  anchoredIds : List String
  dropped : Dict String SourceAnchoringVerdict
  deriving DecidableEq, Repr

namespace SourceAnchoring

/-- The reason that is passed down from a dropped node. -/
def inherited : SourceAnchoringReason → SourceAnchoringReason
  | .cycle => .cycle
  | _ => .unanchoredSubtree

def deduplicateFirst (nodes : List SourceAdjacencyNode) : Dict String SourceAdjacencyNode :=
  nodes.foldl (fun d node =>
    if Dict.contains d node.nodeId then d else Dict.set d node.nodeId node) []

/-- `if parent_id in children: children[parent_id].append(node_id)`. -/
def linkChild (children : Dict String (List String)) (entry : String × Option String) :
    Dict String (List String) :=
  match entry.2 with
  | none => children
  | some parent =>
    match Dict.get? children parent with
    | none => children
    | some values => Dict.set children parent (values ++ [entry.1])

def buildChildren (parents : Dict String (Option String)) : Dict String (List String) :=
  let opened := parents.map fun entry => (entry.1,([] : List String))
  (parents.foldl linkChild opened).map fun entry => (entry.1,sortTexts entry.2)

/-- What has been decided so far; an anchored node has no verdict. -/
abbrev Memo := Dict String (Option SourceAnchoringVerdict)

/-- The inner `visit`. -/
def visit (parents : Dict String (Option String)) (targetIds : List String) :
    Nat → String → List String → Memo → QueryRun (Option SourceAnchoringVerdict × Memo)
  | 0, _, _, _ => none
  | fuel+1, id, stack, memo =>
    match Dict.get? memo id with
    | some verdict => some (.ok (verdict,memo))
    | none =>
      if id ∈ stack then
        let verdict := some ⟨id,.cycle,some id⟩
        some (.ok (verdict,Dict.set memo id verdict))
      else match Dict.get? parents id with
        | none => some (.error ⟨"KeyError","'" ++ id ++ "'"⟩)
        | some none => some (.ok (none,Dict.set memo id none))
        | some (some parent) =>
          if parent ∈ targetIds then some (.ok (none,Dict.set memo id none))
          else if Dict.contains parents parent = false then
            let verdict := some ⟨id,.missingParent,some parent⟩
            some (.ok (verdict,Dict.set memo id verdict))
          else match visit parents targetIds fuel parent (stack ++ [id]) memo with
            | none => none
            | some (.error exc) => some (.error exc)
            | some (.ok (none,memo)) => some (.ok (none,Dict.set memo id none))
            | some (.ok (some above,memo)) =>
              let verdict := some ⟨id,inherited above.reason,above.brokenAtParentId⟩
              some (.ok (verdict,Dict.set memo id verdict))

/-- `for node_id in sorted(parent_by_id): visit(node_id, ())`. -/
def visitAll (parents : Dict String (Option String)) (targetIds : List String) (fuel : Nat) :
    List String → Memo → QueryRun Memo
  | [], memo => some (.ok memo)
  | id::ids, memo =>
    match visit parents targetIds fuel id [] memo with
    | none => none
    | some (.error exc) => some (.error exc)
    | some (.ok (_,memo)) => visitAll parents targetIds fuel ids memo

def childrenOf (children : Dict String (List String)) (id : String) : List String :=
  (Dict.get? children id).getD []

def descendants (children : Dict String (List String)) (fuel : Nat) (id : String) :
    Option (List String) :=
  explore (childrenOf children) fuel (childrenOf children id) [id] []

def dropBelow (verdict : SourceAnchoringVerdict) (dropped : Dict String SourceAnchoringVerdict)
    (id : String) : Dict String SourceAnchoringVerdict :=
  if Dict.contains dropped id then dropped
  else Dict.set dropped id ⟨id,inherited verdict.reason,verdict.brokenAtParentId⟩

/-- The sweep over the nodes that the visit dropped. -/
def sweep (children : Dict String (List String)) (fuel : Nat) :
    List (String × SourceAnchoringVerdict) → Dict String SourceAnchoringVerdict →
      Option (Dict String SourceAnchoringVerdict)
  | [], dropped => some dropped
  | (root,verdict)::roots, dropped =>
    match descendants children fuel root with
    | none => none
    | some ids => sweep children fuel roots (ids.foldl (dropBelow verdict) dropped)

def verdicts (memo : Memo) : Dict String SourceAnchoringVerdict :=
  memo.filterMap fun entry => entry.2.map fun verdict => (entry.1,verdict)

def parentById (nodes : List SourceAdjacencyNode) : Dict String (Option String) :=
  (deduplicateFirst nodes).map fun entry => (entry.1,entry.2.parentId)

/-- `anchor_source_nodes`, with fuel for each climb and each exploration. -/
def anchorSourceNodes (fuel : Nat) (nodes : List SourceAdjacencyNode) (targetIds : List String) :
    QueryRun SourceAnchoringResult :=
  let parents := parentById nodes
  match visitAll parents targetIds fuel (sortTexts (Dict.keys parents)) [] with
  | none => none
  | some (.error exc) => some (.error exc)
  | some (.ok memo) =>
    (sweep (buildChildren parents) fuel (verdicts memo) (verdicts memo)).map fun dropped =>
      .ok ⟨(Dict.keys parents).filter fun id => !Dict.contains dropped id,dropped⟩

section Rule

variable (nodes : List SourceAdjacencyNode) (targetIds : List String)

def HasParent (id : String) (parent? : Option String) : Prop :=
  ∃ node ∈ nodes, node.nodeId = id ∧ node.parentId = parent?

def IsSource (id : String) : Prop := ∃ node ∈ nodes, node.nodeId = id

/-- The nodes that climb to an anchor. -/
inductive Anchored : String → Prop
  | root {id : String} (h : HasParent nodes id none) : Anchored id
  | target {id parent : String} (h : HasParent nodes id (some parent))
      (ht : parent ∈ targetIds) : Anchored id
  | parent {id parent : String} (h : HasParent nodes id (some parent))
      (hp : Anchored parent) : Anchored id

/-- The climb goes on from a node to its parent. -/
def Climbs (id parent : String) : Prop :=
  HasParent nodes id (some parent) ∧ parent ∉ targetIds ∧ IsSource nodes parent

/-- The climb ends at a parent that nobody knows. -/
def Breaks (id parent : String) : Prop :=
  HasParent nodes id (some parent) ∧ parent ∉ targetIds ∧ ¬IsSource nodes parent

/-- The verdict is about the node and its reason applies: its own parent is missing, that of a
node above it is, or the climb comes into a cycle. -/
def Applies (id : String) (verdict : SourceAnchoringVerdict) : Prop :=
  verdict.nodeId = id ∧
    match verdict.reason with
    | .missingParent => ∃ b, verdict.brokenAtParentId = some b ∧ Breaks nodes targetIds id b
    | .unanchoredSubtree => ∃ b, verdict.brokenAtParentId = some b ∧ ∃ top,
        Relation.TransGen (Climbs nodes targetIds) id top ∧ Breaks nodes targetIds top b
    | .cycle => ∃ c, verdict.brokenAtParentId = some c ∧
        Relation.ReflTransGen (Climbs nodes targetIds) id c ∧
          Relation.TransGen (Climbs nodes targetIds) c c

/-- What the memo may hold for a node. -/
def Fits (id : String) : Option SourceAnchoringVerdict → Prop
  | none => Anchored nodes targetIds id
  | some verdict => Applies nodes targetIds id verdict

variable {nodes targetIds}

theorem HasParent.isSource {id : String} {parent? : Option String}
    (h : HasParent nodes id parent?) : IsSource nodes id := by
  obtain ⟨node,hnode,hid,_⟩ := h
  exact ⟨node,hnode,hid⟩

theorem IsSource.hasParent {id : String} (h : IsSource nodes id) :
    ∃ parent?, HasParent nodes id parent? := by
  obtain ⟨node,hnode,hid⟩ := h
  exact ⟨_,node,hnode,hid,rfl⟩

theorem Anchored.isSource {id : String} (h : Anchored nodes targetIds id) : IsSource nodes id := by
  cases h with
  | root h => exact h.isSource
  | target h _ => exact h.isSource
  | parent h _ => exact h.isSource

/-- A source node is anchored by a parent that is null, in the target or anchored itself. -/
theorem anchored_iff {id : String} : Anchored nodes targetIds id ↔ HasParent nodes id none ∨
    ∃ parent, HasParent nodes id (some parent) ∧
      (parent ∈ targetIds ∨ Anchored nodes targetIds parent) := by
  constructor
  · intro h
    cases h with
    | root h => exact .inl h
    | target h ht => exact .inr ⟨_,h,.inl ht⟩
    | parent h hp => exact .inr ⟨_,h,.inr hp⟩
  · rintro (h | ⟨parent,h,ht | hp⟩)
    · exact .root h
    · exact .target h ht
    · exact .parent h hp

theorem Applies.isSource {id : String} {verdict : SourceAnchoringVerdict}
    (h : Applies nodes targetIds id verdict) : IsSource nodes id := by
  have hclimbs : ∀ {a b : String}, Relation.TransGen (Climbs nodes targetIds) a b →
      IsSource nodes a := by
    intro a b hab
    obtain ⟨c,hac,_⟩ := Relation.TransGen.head'_iff.mp hab
    exact hac.1.isSource
  obtain ⟨_,hreason⟩ := h
  split at hreason
  · obtain ⟨_,_,hbreak⟩ := hreason
    exact hbreak.1.isSource
  · obtain ⟨_,_,_,htop,_⟩ := hreason
    exact hclimbs htop
  · obtain ⟨_,_,hid,hcycle⟩ := hreason
    exact hclimbs (Relation.TransGen.trans_right hid hcycle)

/-- Node ids are unique in the list. -/
def Unique (nodes : List SourceAdjacencyNode) : Prop :=
  (nodes.map SourceAdjacencyNode.nodeId).Nodup

theorem HasParent.unique {id : String} {parent? other? : Option String} (hu : Unique nodes)
    (h : HasParent nodes id parent?) (h' : HasParent nodes id other?) : parent? = other? := by
  obtain ⟨node,hnode,hid,rfl⟩ := h
  obtain ⟨other,hother,hid',rfl⟩ := h'
  rw [List.inj_on_of_nodup_map hu hnode hother (hid.trans hid'.symm)]

theorem Climbs.unique {id parent other : String} (hu : Unique nodes)
    (h : Climbs nodes targetIds id parent) (h' : Climbs nodes targetIds id other) :
    parent = other :=
  Option.some.inj (h.1.unique hu h'.1)

/-- An anchored node climbs to anchored nodes only. -/
theorem Anchored.climb (hu : Unique nodes) {id parent : String}
    (h : Anchored nodes targetIds id) (hc : Climbs nodes targetIds id parent) :
    Anchored nodes targetIds parent := by
  cases h with
  | root h => cases h.unique hu hc.1
  | target h ht =>
    cases h.unique hu hc.1
    exact absurd ht hc.2.1
  | parent h hp =>
    cases h.unique hu hc.1
    exact hp

theorem Anchored.not_breaks (hu : Unique nodes) {id parent : String}
    (h : Anchored nodes targetIds id) : ¬Breaks nodes targetIds id parent := by
  rintro ⟨hparent,htarget,hsource⟩
  cases h with
  | root h => cases h.unique hu hparent
  | target h ht =>
    cases h.unique hu hparent
    exact htarget ht
  | parent h hp =>
    cases h.unique hu hparent
    exact hsource hp.isSource

theorem Anchored.climbs (hu : Unique nodes) {id top : String} (h : Anchored nodes targetIds id)
    (hc : Relation.ReflTransGen (Climbs nodes targetIds) id top) :
    Anchored nodes targetIds top := by
  induction hc with
  | refl => exact h
  | tail _ hstep ih => exact ih.climb hu hstep

/-- No climb from an anchored node comes into a cycle, by induction on how it is anchored. -/
theorem Anchored.no_cycle (hu : Unique nodes) {id c : String} (h : Anchored nodes targetIds id)
    (hc : Relation.ReflTransGen (Climbs nodes targetIds) id c) :
    ¬Relation.TransGen (Climbs nodes targetIds) c c := by
  induction h with
  | root h =>
    intro hcycle
    obtain ⟨b,hb,_⟩ := Relation.TransGen.head'_iff.mp (Relation.TransGen.trans_right hc hcycle)
    cases h.unique hu hb.1
  | target h ht =>
    intro hcycle
    obtain ⟨b,hb,_⟩ := Relation.TransGen.head'_iff.mp (Relation.TransGen.trans_right hc hcycle)
    cases h.unique hu hb.1
    exact hb.2.1 ht
  | @parent id parent h hp ih =>
    rcases Relation.ReflTransGen.cases_head hc with rfl | ⟨b,hb,hbc⟩
    · intro hcycle
      obtain ⟨b,hb,hbc⟩ := Relation.TransGen.head'_iff.mp hcycle
      cases h.unique hu hb.1
      exact ih hbc hcycle
    · cases h.unique hu hb.1
      exact ih hbc

/-- No reason to drop a node applies to an anchored one. -/
theorem Applies.not_anchored (hu : Unique nodes) {id : String} {verdict : SourceAnchoringVerdict}
    (h : Applies nodes targetIds id verdict) : ¬Anchored nodes targetIds id := by
  intro hanchored
  obtain ⟨_,hreason⟩ := h
  split at hreason
  · obtain ⟨b,_,hbreak⟩ := hreason
    exact hanchored.not_breaks hu hbreak
  · obtain ⟨b,_,top,htop,hbreak⟩ := hreason
    exact (hanchored.climbs hu htop.to_reflTransGen).not_breaks hu hbreak
  · obtain ⟨c,_,hc,hcycle⟩ := hreason
    exact hanchored.no_cycle hu hc hcycle

/-- The verdict of a node's parent is passed down. -/
theorem Applies.inherit {id parent : String} {verdict : SourceAnchoringVerdict}
    (hc : Climbs nodes targetIds id parent) (h : Applies nodes targetIds parent verdict) :
    Applies nodes targetIds id ⟨id,inherited verdict.reason,verdict.brokenAtParentId⟩ := by
  obtain ⟨_,hreason⟩ := h
  refine ⟨rfl,?_⟩
  cases hr : verdict.reason with
  | missingParent =>
    rw [hr] at hreason
    obtain ⟨b,hb,hbreak⟩ := hreason
    exact ⟨b,hb,parent,.single hc,hbreak⟩
  | unanchoredSubtree =>
    rw [hr] at hreason
    obtain ⟨b,hb,top,htop,hbreak⟩ := hreason
    exact ⟨b,hb,top,.head hc htop,hbreak⟩
  | cycle =>
    rw [hr] at hreason
    obtain ⟨c,hb,hreach,hcycle⟩ := hreason
    exact ⟨c,hb,.head hc hreach,hcycle⟩

end Rule

section Visit

variable {nodes : List SourceAdjacencyNode} {targetIds : List String}

theorem deduplicateFirst_unique (hu : Unique nodes) :
    deduplicateFirst nodes = nodes.map fun node => (node.nodeId,node) := by
  induction nodes using List.reverseRecOn with
  | nil => rfl
  | append_singleton nodes node ih =>
    unfold Unique at hu
    rw [List.map_append, List.nodup_append] at hu
    have hfresh : node.nodeId ∉ Dict.keys (nodes.map fun node => (node.nodeId,node)) := by
      intro hmem
      simp only [Dict.keys, List.map_map, List.mem_map, Function.comp_apply] at hmem
      obtain ⟨other,hother,heq⟩ := hmem
      exact hu.2.2 other.nodeId (List.mem_map_of_mem hother) node.nodeId (by simp) heq
    have hcontains : Dict.contains (nodes.map fun node => (node.nodeId,node)) node.nodeId =
        false := by
      rw [← Bool.not_eq_true]
      exact fun hc => hfresh (Dict.mem_keys_iff.mpr hc)
    have ih := ih hu.1
    unfold deduplicateFirst at ih ⊢
    rw [List.foldl_append, ih]
    simp [hcontains, Dict.set_eq_append hfresh]

theorem parentById_unique (hu : Unique nodes) :
    parentById nodes = nodes.map fun node => (node.nodeId,node.parentId) := by
  unfold parentById
  rw [deduplicateFirst_unique hu, List.map_map]
  rfl

theorem keys_parentById (hu : Unique nodes) :
    Dict.keys (parentById nodes) = nodes.map SourceAdjacencyNode.nodeId := by
  rw [parentById_unique hu]
  simp [Dict.keys]

theorem get?_parentById (hu : Unique nodes) {id : String} {parent? : Option String} :
    Dict.get? (parentById nodes) id = some parent? ↔ HasParent nodes id parent? := by
  have hkeys : (Dict.keys (parentById nodes)).Nodup := by
    rw [keys_parentById hu]
    exact hu
  rw [← Dict.mem_iff_get? hkeys, parentById_unique hu]
  simp [HasParent]

theorem contains_parentById (hu : Unique nodes) {id : String} :
    Dict.contains (parentById nodes) id = true ↔ IsSource nodes id := by
  unfold Dict.contains
  rw [← Dict.mem_keys_iff, keys_parentById hu]
  simp [IsSource]

/-- A memo of right decisions. -/
structure Sound (nodes : List SourceAdjacencyNode) (targetIds : List String) (memo : Memo) :
    Prop where
  fits : ∀ id verdict, Dict.get? memo id = some verdict → Fits nodes targetIds id verdict
  distinct : (Dict.keys memo).Nodup

theorem sound_nil : Sound nodes targetIds [] := ⟨by simp,List.nodup_nil⟩

theorem Sound.set {memo : Memo} (h : Sound nodes targetIds memo) {id : String}
    {verdict : Option SourceAnchoringVerdict} (hfits : Fits nodes targetIds id verdict) :
    Sound nodes targetIds (Dict.set memo id verdict) := by
  refine ⟨fun other v hget => ?_,Dict.nodup_keys_set h.distinct id verdict⟩
  rw [Dict.get?_set] at hget
  by_cases heq : id = other
  · subst heq
    rw [if_pos rfl] at hget
    cases hget
    exact hfits
  · rw [if_neg heq] at hget
    exact h.fits other v hget

/-- A visit decided the node and forgot nothing. -/
structure Visited (nodes : List SourceAdjacencyNode) (targetIds : List String) (id : String)
    (memo : Memo) (verdict : Option SourceAnchoringVerdict) (memo' : Memo) : Prop where
  fits : Fits nodes targetIds id verdict
  sound : Sound nodes targetIds memo'
  known : Dict.contains memo' id = true
  kept : ∀ other, Dict.contains memo other = true → Dict.contains memo' other = true

theorem visited_set {id : String} {memo memo' : Memo} {verdict : Option SourceAnchoringVerdict}
    (hfits : Fits nodes targetIds id verdict) (h : Sound nodes targetIds memo')
    (hkept : ∀ other, Dict.contains memo other = true → Dict.contains memo' other = true) :
    Visited nodes targetIds id memo verdict (Dict.set memo' id verdict) := by
  refine ⟨hfits,h.set hfits,by simp [Dict.contains],fun other hother => ?_⟩
  have hold := hkept other hother
  unfold Dict.contains at hold ⊢
  rw [Dict.get?_set]
  split
  · rfl
  · exact hold

/-- A stack of distinct nodes below another one holds no more than the source has. -/
theorem length_stack_le {id : String} {stack : List String} (hstack : stack.Nodup)
    (hclimb : ∀ s ∈ stack, Relation.TransGen (Climbs nodes targetIds) s id) :
    stack.length ≤ nodes.length := by
  have hsub : stack ⊆ nodes.map SourceAdjacencyNode.nodeId := by
    intro s hs
    obtain ⟨b,hb,_⟩ := Relation.TransGen.head'_iff.mp (hclimb s hs)
    obtain ⟨node,hnode,heq⟩ := hb.1.isSource
    exact List.mem_map.mpr ⟨node,hnode,heq⟩
  have hlength := hstack.length_le_of_subset hsub
  rwa [List.length_map] at hlength

theorem climbs_push {id parent : String} {stack : List String}
    (hclimb : ∀ s ∈ stack, Relation.TransGen (Climbs nodes targetIds) s id)
    (hstep : Climbs nodes targetIds id parent) :
    ∀ s ∈ stack ++ [id], Relation.TransGen (Climbs nodes targetIds) s parent := by
  intro s hs
  rcases List.mem_append.mp hs with hs | hs
  · exact (hclimb s hs).tail hstep
  · rw [List.mem_singleton.mp hs]
    exact .single hstep

theorem nodup_push {id : String} {stack : List String} (hstack : stack.Nodup)
    (hon : id ∉ stack) : (stack ++ [id]).Nodup := by
  apply List.nodup_append.mpr
  refine ⟨hstack,List.nodup_singleton _,fun a ha b hb heq => ?_⟩
  rw [heq, List.mem_singleton.mp hb] at ha
  exact hon ha

/-- The visit of a source node decides it within a round for every node that is not on the
stack; the stack holds the nodes that it has climbed through. -/
theorem visit_spec (hu : Unique nodes) {fuel : Nat} {id : String} {stack : List String}
    {memo : Memo} (hmemo : Sound nodes targetIds memo) (hid : IsSource nodes id)
    (hclimb : ∀ s ∈ stack, Relation.TransGen (Climbs nodes targetIds) s id)
    (hstack : stack.Nodup) (hfuel : nodes.length < fuel + stack.length) :
    ∃ verdict memo', visit (parentById nodes) targetIds fuel id stack memo =
      some (.ok (verdict,memo')) ∧ Visited nodes targetIds id memo verdict memo' := by
  induction fuel generalizing id stack memo with
  | zero =>
    have hlength := length_stack_le hstack hclimb
    omega
  | succ fuel ih =>
    unfold visit
    cases hget : Dict.get? memo id with
    | some verdict =>
      exact ⟨verdict,memo,rfl,hmemo.fits id verdict hget,hmemo,by simp [Dict.contains, hget],
        fun _ h => h⟩
    | none =>
      dsimp only
      by_cases hon : id ∈ stack
      · rw [if_pos hon]
        exact ⟨_,_,rfl,visited_set ⟨rfl,id,rfl,.refl,hclimb id hon⟩ hmemo fun _ h => h⟩
      · rw [if_neg hon]
        obtain ⟨parent?,hparent⟩ := hid.hasParent
        rw [(get?_parentById hu).mpr hparent]
        cases parent? with
        | none => exact ⟨_,_,rfl,visited_set (.root hparent) hmemo fun _ h => h⟩
        | some parent =>
          dsimp only
          by_cases htarget : parent ∈ targetIds
          · rw [if_pos htarget]
            exact ⟨_,_,rfl,visited_set (.target hparent htarget) hmemo fun _ h => h⟩
          · rw [if_neg htarget]
            by_cases hsource : IsSource nodes parent
            · have hstep : Climbs nodes targetIds id parent := ⟨hparent,htarget,hsource⟩
              obtain ⟨above,memo',hvisit,hvisited⟩ := ih hmemo hsource
                (climbs_push hclimb hstep) (nodup_push hstack hon)
                (by rw [List.length_append, List.length_singleton]; omega)
              rw [if_neg (by simp [(contains_parentById hu).mpr hsource]), hvisit]
              cases above with
              | none =>
                exact ⟨_,_,rfl,visited_set (.parent hparent hvisited.fits) hvisited.sound
                  hvisited.kept⟩
              | some above =>
                have hfits : Applies nodes targetIds parent above := hvisited.fits
                exact ⟨_,_,rfl,visited_set (hfits.inherit hstep) hvisited.sound hvisited.kept⟩
            · have hcontains : Dict.contains (parentById nodes) parent = false := by
                rw [← Bool.not_eq_true]
                exact fun hc => hsource ((contains_parentById hu).mp hc)
              rw [if_pos hcontains]
              exact ⟨_,_,rfl,visited_set ⟨rfl,parent,rfl,hparent,htarget,hsource⟩ hmemo
                fun _ h => h⟩

/-- The loop over all nodes decides each of them. -/
theorem visitAll_spec (hu : Unique nodes) {fuel : Nat} (hfuel : nodes.length < fuel)
    {ids : List String} {memo : Memo} (hmemo : Sound nodes targetIds memo)
    (hids : ∀ id ∈ ids, IsSource nodes id) :
    ∃ memo', visitAll (parentById nodes) targetIds fuel ids memo = some (.ok memo') ∧
      Sound nodes targetIds memo' ∧
      (∀ other, Dict.contains memo other = true → Dict.contains memo' other = true) ∧
      ∀ id ∈ ids, Dict.contains memo' id = true := by
  induction ids generalizing memo with
  | nil => exact ⟨memo,rfl,hmemo,fun _ h => h,by simp⟩
  | cons id ids ih =>
    obtain ⟨verdict,memo₁,hvisit,hvisited⟩ := visit_spec hu hmemo
      (hids id List.mem_cons_self) (by simp) List.nodup_nil (show nodes.length < fuel + [].length
        from hfuel)
    obtain ⟨memo₂,hrest,hsound,hkept,hknown⟩ := ih hvisited.sound fun other hother =>
      hids other (List.mem_cons_of_mem _ hother)
    refine ⟨memo₂,?_,hsound,fun other h => hkept other (hvisited.kept other h),?_⟩
    · simp [visitAll, hvisit, hrest]
    · intro other hother
      rcases List.mem_cons.mp hother with rfl | hother
      · exact hkept _ hvisited.known
      · exact hknown other hother

end Visit

section Sweep

/-- The children of a node, in the order of the entries. -/
def listed (parents : Dict String (Option String)) (parent : String) : List String :=
  (parents.filter fun entry => decide (entry.2 = some parent)).map Prod.fst

theorem get?_linkChild (entries : Dict String (Option String)) (d : Dict String (List String))
    (parent : String) : Dict.get? (entries.foldl linkChild d) parent =
      (Dict.get? d parent).map fun values => values ++ listed entries parent := by
  induction entries generalizing d with
  | nil => simp [listed]
  | cons entry entries ih =>
    obtain ⟨id,parent?⟩ := entry
    rw [List.foldl_cons, ih]
    cases parent? with
    | none => simp [linkChild, listed]
    | some other =>
      by_cases heq : other = parent
      · subst heq
        cases hget : Dict.get? d other with
        | none => simp [linkChild, hget]
        | some values => simp [linkChild, hget, listed]
      · cases hget : Dict.get? d other with
        | none => simp [linkChild, hget, listed, heq]
        | some values => simp [linkChild, hget, listed, heq, Dict.get?_set]

theorem childrenOf_buildChildren (parents : Dict String (Option String)) (parent : String) :
    childrenOf (buildChildren parents) parent =
      if Dict.contains parents parent then sortTexts (listed parents parent) else [] := by
  unfold childrenOf buildChildren
  dsimp only
  have hopened : Dict.get? (parents.map fun entry => (entry.1,([] : List String))) parent =
      (Dict.get? parents parent).map fun _ => [] := Dict.get?_mapValues parents (fun _ => []) parent
  rw [Dict.get?_mapValues, get?_linkChild, hopened]
  unfold Dict.contains
  cases Dict.get? parents parent <;> simp

variable {nodes : List SourceAdjacencyNode} {targetIds : List String}

theorem mem_listed (hu : Unique nodes) {id parent : String} :
    id ∈ listed (parentById nodes) parent ↔ HasParent nodes id (some parent) := by
  unfold listed
  rw [parentById_unique hu]
  simp only [HasParent, List.filter_map, List.map_map, List.mem_map, List.mem_filter,
    Function.comp_apply, decide_eq_true_eq, and_assoc]
  exact exists_congr fun node => and_congr_right fun _ => and_comm

theorem nodup_listed (hu : Unique nodes) (parent : String) :
    (listed (parentById nodes) parent).Nodup := by
  have hkeys : (Dict.keys (parentById nodes)).Nodup := by
    rw [keys_parentById hu]
    exact hu
  exact hkeys.sublist (List.filter_sublist.map Prod.fst)

theorem leads_iff (hu : Unique nodes) {parent child : String} :
    Leads (childrenOf (buildChildren (parentById nodes))) parent child ↔
      IsSource nodes parent ∧ HasParent nodes child (some parent) := by
  unfold Leads
  rw [childrenOf_buildChildren]
  by_cases hparent : IsSource nodes parent
  · rw [if_pos ((contains_parentById hu).mpr hparent), TopologySnapshot.mem_sortTexts,
      mem_listed hu]
    simp [hparent]
  · rw [if_neg (mt (contains_parentById hu).mp hparent)]
    simp [hparent]

/-- One edge for every entry with a parent. -/
def edges (parents : Dict String (Option String)) : List (String × String) :=
  parents.filterMap fun entry => entry.2.map fun parent => (parent,entry.1)

theorem length_listed (parents : Dict String (Option String)) (parent : String) :
    (listed parents parent).length =
      (edges parents).countP fun edge => decide (edge.1 = parent) := by
  induction parents with
  | nil => rfl
  | cons entry parents ih =>
    obtain ⟨id,parent?⟩ := entry
    cases parent? with
    | none => simpa [listed, edges] using ih
    | some other =>
      by_cases heq : other = parent
      · simpa [listed, edges, heq] using ih
      · simpa [listed, edges, heq] using ih

theorem length_edges (hu : Unique nodes) : (edges (parentById nodes)).length ≤ nodes.length := by
  have hlength := List.length_filterMap_le
    (fun entry : String × Option String => entry.2.map fun parent => (parent,entry.1))
    (parentById nodes)
  have hnodes : (parentById nodes).length = nodes.length := by
    rw [parentById_unique hu, List.length_map]
  unfold edges
  omega

theorem descendants_ends (hu : Unique nodes) {fuel : Nat} (hfuel : nodes.length < fuel)
    (id : String) : ∃ ids, descendants (buildChildren (parentById nodes)) fuel id = some ids := by
  have hcount : ∀ a, (childrenOf (buildChildren (parentById nodes)) a).length ≤
      (edges (parentById nodes)).countP fun edge => decide (edge.1 = a) := by
    intro a
    rw [childrenOf_buildChildren]
    split
    · rw [← length_listed]
      exact (List.perm_insertionSort _ _).length_eq.le
    · exact Nat.zero_le _
  apply explore_ends hcount
  have hvisit := countP_visit (edges (parentById nodes)) (@List.not_mem_nil _ id)
  have hall : ((edges (parentById nodes)).countP fun edge => !decide (edge.1 ∈ [])) ≤ _ :=
    List.countP_le_length
  have hedges := length_edges hu
  have hid := hcount id
  unfold work
  omega

theorem get?_dropBelow (verdict : SourceAnchoringVerdict) (ids : List String)
    (dropped : Dict String SourceAnchoringVerdict) (id : String) :
    Dict.contains (ids.foldl (dropBelow verdict) dropped) id = true ↔
      Dict.contains dropped id = true ∨ id ∈ ids := by
  induction ids generalizing dropped with
  | nil => simp
  | cons first ids ih =>
    have hstep : Dict.contains (dropBelow verdict dropped first) id = true ↔
        Dict.contains dropped id = true ∨ id = first := by
      unfold dropBelow
      by_cases hfirst : Dict.contains dropped first = true
      · rw [if_pos hfirst]
        constructor
        · exact .inl
        · rintro (h | rfl)
          · exact h
          · exact hfirst
      · rw [if_neg hfirst]
        unfold Dict.contains
        rw [Dict.get?_set]
        by_cases heq : first = id
        · simp [heq]
        · simp [heq, Ne.symm heq]
    rw [List.foldl_cons, ih, hstep, List.mem_cons, or_assoc]

theorem dropBelow_known {verdict : SourceAnchoringVerdict} {ids : List String}
    {dropped : Dict String SourceAnchoringVerdict}
    (h : ∀ id ∈ ids, Dict.contains dropped id = true) :
    ids.foldl (dropBelow verdict) dropped = dropped := by
  induction ids with
  | nil => rfl
  | cons id ids ih =>
    rw [List.foldl_cons, dropBelow, if_pos (h id List.mem_cons_self)]
    exact ih fun other hother => h other (List.mem_cons_of_mem _ hother)

/-- Below a node: the node is above it, at some distance. -/
def Below (nodes : List SourceAdjacencyNode) (root id : String) : Prop :=
  id ≠ root ∧
    Relation.TransGen (Leads (childrenOf (buildChildren (parentById nodes)))) root id

theorem mem_descendants {fuel : Nat} {root id : String} {ids : List String}
    (h : descendants (buildChildren (parentById nodes)) fuel root = some ids) :
    id ∈ ids ↔ Below nodes root id := mem_explore_iff h

/-- The sweep ends, and drops what is below a root besides what was dropped. -/
theorem sweep_spec (hu : Unique nodes) {fuel : Nat} (hfuel : nodes.length < fuel)
    (roots : List (String × SourceAnchoringVerdict))
    (dropped : Dict String SourceAnchoringVerdict) :
    ∃ dropped', sweep (buildChildren (parentById nodes)) fuel roots dropped = some dropped' ∧
      ∀ id, Dict.contains dropped' id = true ↔
        Dict.contains dropped id = true ∨ ∃ root ∈ roots, Below nodes root.1 id := by
  induction roots generalizing dropped with
  | nil => exact ⟨dropped,rfl,by simp⟩
  | cons root roots ih =>
    obtain ⟨id,verdict⟩ := root
    obtain ⟨ids,hids⟩ := descendants_ends hu hfuel id
    obtain ⟨dropped',hrest,hmem⟩ := ih (ids.foldl (dropBelow verdict) dropped)
    refine ⟨dropped',by simp [sweep, hids, hrest],fun other => ?_⟩
    rw [hmem, get?_dropBelow, mem_descendants hids]
    simp [or_assoc]

theorem sweep_known {fuel : Nat} {roots : List (String × SourceAnchoringVerdict)}
    {dropped dropped' : Dict String SourceAnchoringVerdict}
    (hrun : sweep (buildChildren (parentById nodes)) fuel roots dropped = some dropped')
    (h : ∀ root ∈ roots, ∀ id, Below nodes root.1 id → Dict.contains dropped id = true) :
    dropped' = dropped := by
  induction roots with
  | nil =>
    cases hrun
    rfl
  | cons root roots ih =>
    obtain ⟨id,verdict⟩ := root
    unfold sweep at hrun
    cases hids : descendants (buildChildren (parentById nodes)) fuel id with
    | none => simp [hids] at hrun
    | some ids =>
      have hknown : ids.foldl (dropBelow verdict) dropped = dropped :=
        dropBelow_known fun other hother =>
          h _ List.mem_cons_self other ((mem_descendants hids).mp hother)
      simp only [hids, hknown] at hrun
      exact ih hrun fun root hroot => h root (List.mem_cons_of_mem _ hroot)

end Sweep

section Order

variable {targetIds : List String} {parents others : Dict String (Option String)}

/-- A climb reads the parents, not the order in which they are listed. -/
theorem visit_congr (h : ∀ id, Dict.get? parents id = Dict.get? others id) (fuel : Nat) :
    visit parents targetIds fuel = visit others targetIds fuel := by
  induction fuel with
  | zero => rfl
  | succ fuel ih =>
    have hlookup : Dict.get? parents = Dict.get? others := funext h
    funext id stack memo
    unfold visit Dict.contains
    rw [hlookup, ih]

theorem visitAll_congr (h : ∀ id, Dict.get? parents id = Dict.get? others id) (fuel : Nat)
    (ids : List String) (memo : Memo) :
    visitAll parents targetIds fuel ids memo = visitAll others targetIds fuel ids memo := by
  induction ids generalizing memo with
  | nil => rfl
  | cons id ids ih => simp only [visitAll, visit_congr h, ih]

theorem sweep_congr {children siblings : Dict String (List String)}
    (h : childrenOf children = childrenOf siblings) (fuel : Nat)
    (roots : List (String × SourceAnchoringVerdict))
    (dropped : Dict String SourceAnchoringVerdict) :
    sweep children fuel roots dropped = sweep siblings fuel roots dropped := by
  induction roots generalizing dropped with
  | nil => rfl
  | cons root roots ih => simp only [sweep, descendants, h, ih]

variable {nodes nodes' : List SourceAdjacencyNode}

theorem Unique.perm (hu : Unique nodes) (h : nodes'.Perm nodes) : Unique nodes' :=
  (h.map SourceAdjacencyNode.nodeId).nodup_iff.mpr hu

theorem hasParent_perm (h : nodes'.Perm nodes) {id : String} {parent? : Option String} :
    HasParent nodes' id parent? ↔ HasParent nodes id parent? :=
  exists_congr fun _ => and_congr_left fun _ => h.mem_iff

theorem isSource_perm (h : nodes'.Perm nodes) {id : String} :
    IsSource nodes' id ↔ IsSource nodes id :=
  exists_congr fun _ => and_congr_left fun _ => h.mem_iff

theorem get?_parentById_perm (hu : Unique nodes) (h : nodes'.Perm nodes) (id : String) :
    Dict.get? (parentById nodes') id = Dict.get? (parentById nodes) id := by
  apply Option.ext
  intro parent?
  rw [get?_parentById (hu.perm h), get?_parentById hu]
  exact hasParent_perm h

theorem sortTexts_keys_perm (hu : Unique nodes) (h : nodes'.Perm nodes) :
    sortTexts (Dict.keys (parentById nodes')) = sortTexts (Dict.keys (parentById nodes)) := by
  rw [keys_parentById hu, keys_parentById (hu.perm h)]
  apply TopologySnapshot.sortTexts_congr (hu.perm h) hu
  intro id
  exact (h.map SourceAdjacencyNode.nodeId).mem_iff

theorem childrenOf_perm (hu : Unique nodes) (h : nodes'.Perm nodes) :
    childrenOf (buildChildren (parentById nodes')) =
      childrenOf (buildChildren (parentById nodes)) := by
  funext parent
  have hlisted : sortTexts (listed (parentById nodes') parent) =
      sortTexts (listed (parentById nodes) parent) := by
    apply TopologySnapshot.sortTexts_congr (nodup_listed (hu.perm h) parent)
      (nodup_listed hu parent)
    intro id
    rw [mem_listed (hu.perm h), mem_listed hu]
    exact hasParent_perm h
  rw [childrenOf_buildChildren, childrenOf_buildChildren, hlisted]
  unfold Dict.contains
  rw [get?_parentById_perm hu h]

end Order

section Result

variable {nodes : List SourceAdjacencyNode} {targetIds : List String}

/-- A source node that the rule does not anchor. -/
def Unanchored (nodes : List SourceAdjacencyNode) (targetIds : List String) (id : String) : Prop :=
  IsSource nodes id ∧ ¬Anchored nodes targetIds id

theorem get?_verdicts {memo : Memo} (h : Sound nodes targetIds memo) {id : String}
    {verdict : SourceAnchoringVerdict} :
    Dict.get? (verdicts memo) id = some verdict ↔ Dict.get? memo id = some (some verdict) := by
  have hget : Dict.get? (verdicts memo) id = (Dict.get? memo id).bind fun decided => decided :=
    Dict.get?_filterMapValues h.distinct (fun decided => decided) id
  rw [hget]
  cases Dict.get? memo id <;> simp

theorem contains_verdicts (hu : Unique nodes) {memo : Memo} (h : Sound nodes targetIds memo)
    (hknown : ∀ id, IsSource nodes id → Dict.contains memo id = true) (id : String) :
    Dict.contains (verdicts memo) id = true ↔ Unanchored nodes targetIds id := by
  unfold Dict.contains
  rw [Option.isSome_iff_exists]
  constructor
  · rintro ⟨verdict,hverdict⟩
    have happlies : Applies nodes targetIds id verdict :=
      h.fits id _ ((get?_verdicts h).mp hverdict)
    exact ⟨happlies.isSource,happlies.not_anchored hu⟩
  · rintro ⟨hsource,hnot⟩
    obtain ⟨decided,hdecided⟩ := Option.isSome_iff_exists.mp (hknown id hsource)
    cases decided with
    | none => exact absurd (h.fits id _ hdecided) hnot
    | some verdict => exact ⟨verdict,(get?_verdicts h).mpr hdecided⟩

/-- How a run goes: the visit decides by the rule, and the sweep adds what is below. -/
structure Ran (nodes : List SourceAdjacencyNode) (targetIds : List String) (fuel : Nat)
    (memo : Memo) (dropped : Dict String SourceAnchoringVerdict) : Prop where
  sound : Sound nodes targetIds memo
  swept : sweep (buildChildren (parentById nodes)) fuel (verdicts memo) (verdicts memo) =
    some dropped
  visited : ∀ id, Dict.contains (verdicts memo) id = true ↔ Unanchored nodes targetIds id
  drops : ∀ id, Dict.contains dropped id = true ↔ Unanchored nodes targetIds id ∨
    ∃ root, Unanchored nodes targetIds root ∧ Below nodes root id
  result : anchorSourceNodes fuel nodes targetIds = some (.ok
    ⟨(Dict.keys (parentById nodes)).filter fun id => !Dict.contains dropped id,dropped⟩)
  visits : visitAll (parentById nodes) targetIds fuel (sortTexts (Dict.keys (parentById nodes)))
    [] = some (.ok memo)

theorem exists_ran (hu : Unique nodes) {fuel : Nat} (hfuel : nodes.length < fuel) :
    ∃ memo dropped, Ran nodes targetIds fuel memo dropped := by
  have hkeys : ∀ id, id ∈ sortTexts (Dict.keys (parentById nodes)) ↔ IsSource nodes id := by
    intro id
    rw [TopologySnapshot.mem_sortTexts, keys_parentById hu, List.mem_map]
    exact Iff.rfl
  have hempty : Sound nodes targetIds [] := sound_nil
  obtain ⟨memo,hvisit,hsound,_,hknown⟩ := visitAll_spec hu hfuel hempty
    fun id hid => (hkeys id).mp hid
  have hverdicts := contains_verdicts hu hsound fun id hid => hknown id ((hkeys id).mpr hid)
  obtain ⟨dropped,hsweep,hdropped⟩ := sweep_spec hu hfuel (verdicts memo) (verdicts memo)
  refine ⟨memo,dropped,hsound,hsweep,hverdicts,fun id => ?_,?_,hvisit⟩
  · rw [hdropped, hverdicts]
    apply or_congr_right
    constructor
    · rintro ⟨⟨root,verdict⟩,hroot,hbelow⟩
      have hmem : root ∈ Dict.keys (verdicts memo) := List.mem_map_of_mem hroot
      exact ⟨root,(hverdicts root).mp (Dict.mem_keys_iff.mp hmem),hbelow⟩
    · rintro ⟨root,hroot,hbelow⟩
      have hmem := Dict.mem_keys_iff.mpr ((hverdicts root).mpr hroot)
      obtain ⟨entry,hentry,rfl⟩ := List.mem_map.mp hmem
      exact ⟨entry,hentry,hbelow⟩
  · simp [anchorSourceNodes, hvisit, hsweep]

theorem mem_anchoredIds (hu : Unique nodes) (dropped : Dict String SourceAnchoringVerdict)
    (id : String) :
    (id ∈ (Dict.keys (parentById nodes)).filter fun id => !Dict.contains dropped id) ↔
      IsSource nodes id ∧ Dict.contains dropped id = false := by
  rw [List.mem_filter, keys_parentById hu, List.mem_map, Bool.not_eq_true']
  exact Iff.rfl

/-- The outcome of the rule: source nodes are split into the anchored ones and the dropped ones,
each of these with a reason that applies to it. -/
structure Anchors (nodes : List SourceAdjacencyNode) (targetIds : List String)
    (result : SourceAnchoringResult) : Prop where
  anchored : ∀ id, id ∈ result.anchoredIds ↔ Anchored nodes targetIds id
  split : ∀ id, IsSource nodes id →
    (id ∈ result.anchoredIds ↔ Dict.get? result.dropped id = none)
  reasons : ∀ id verdict, Dict.get? result.dropped id = some verdict →
    Applies nodes targetIds id verdict

/-- The run follows the rule, in whatever order the nodes come. -/
def AnchorsWell (fuel : Nat) (nodes : List SourceAdjacencyNode) (targetIds : List String) :
    Prop :=
  ∃ result, anchorSourceNodes fuel nodes targetIds = some (.ok result) ∧
    Anchors nodes targetIds result ∧
    ∀ nodes', nodes'.Perm nodes → ∃ result',
      anchorSourceNodes fuel nodes' targetIds = some (.ok result') ∧
        (∀ id, id ∈ result'.anchoredIds ↔ id ∈ result.anchoredIds) ∧
          result'.dropped = result.dropped

/-- No target id of a source node that has children is left unanchored. -/
def NoLostAnchor (nodes : List SourceAdjacencyNode) (targetIds : List String) : Prop :=
  ∀ id ∈ targetIds, IsSource nodes id → (∃ child, HasParent nodes child (some id)) →
    Anchored nodes targetIds id

/-- Where no anchor is lost, all that is below an unanchored node is unanchored. -/
theorem Unanchored.below (hu : Unique nodes) (hlost : NoLostAnchor nodes targetIds)
    {root id : String} (h : Unanchored nodes targetIds root) (hbelow : Below nodes root id) :
    Unanchored nodes targetIds id := by
  have hstep : ∀ a b, Unanchored nodes targetIds a →
      Leads (childrenOf (buildChildren (parentById nodes))) a b → Unanchored nodes targetIds b := by
    intro a b ha hab
    obtain ⟨hsource,hparent⟩ := (leads_iff hu).mp hab
    refine ⟨hparent.isSource,fun hanchored => ?_⟩
    cases hanchored with
    | root h' => cases hparent.unique hu h'
    | target h' ht =>
      cases hparent.unique hu h'
      exact ha.2 (hlost a ht hsource ⟨b,hparent⟩)
    | parent h' hp =>
      cases hparent.unique hu h'
      exact ha.2 hp
  have hleads := hbelow.2
  clear hbelow
  induction hleads with
  | single hab => exact hstep _ _ h hab
  | tail _ hab ih => exact hstep _ _ ih hab

theorem Ran.swept_nothing (hu : Unique nodes) (hlost : NoLostAnchor nodes targetIds) {fuel : Nat}
    {memo : Memo} {dropped : Dict String SourceAnchoringVerdict}
    (h : Ran nodes targetIds fuel memo dropped) : dropped = verdicts memo := by
  apply sweep_known h.swept
  intro root hroot id hbelow
  have hmem : root.1 ∈ Dict.keys (verdicts memo) := List.mem_map_of_mem hroot
  have hunanchored := (h.visited root.1).mp (Dict.mem_keys_iff.mp hmem)
  exact (h.visited id).mpr (hunanchored.below hu hlost hbelow)

theorem Ran.anchors (hu : Unique nodes) (hlost : NoLostAnchor nodes targetIds) {fuel : Nat}
    {memo : Memo} {dropped : Dict String SourceAnchoringVerdict}
    (h : Ran nodes targetIds fuel memo dropped) : Anchors nodes targetIds
      ⟨(Dict.keys (parentById nodes)).filter fun id => !Dict.contains dropped id,dropped⟩ := by
  have hdropped := h.swept_nothing hu hlost
  subst hdropped
  refine ⟨fun id => ?_,fun id hid => ?_,fun id verdict hget => ?_⟩
  · rw [mem_anchoredIds hu, ← Bool.not_eq_true, h.visited]
    constructor
    · rintro ⟨hsource,hnot⟩
      by_contra hanchored
      exact hnot ⟨hsource,hanchored⟩
    · intro hanchored
      exact ⟨hanchored.isSource,fun hnot => hnot.2 hanchored⟩
  · rw [mem_anchoredIds hu]
    unfold Dict.contains
    simp [hid]
  · exact h.sound.fits id _ ((get?_verdicts h.sound).mp hget)

/-- The same run on the nodes in another order. -/
theorem Ran.perm (hu : Unique nodes) {nodes' : List SourceAdjacencyNode}
    (hperm : nodes'.Perm nodes) {fuel : Nat} {memo : Memo}
    {dropped : Dict String SourceAnchoringVerdict} (h : Ran nodes targetIds fuel memo dropped) :
    anchorSourceNodes fuel nodes' targetIds = some (.ok
      ⟨(Dict.keys (parentById nodes')).filter fun id => !Dict.contains dropped id,dropped⟩) := by
  have hvisits := h.visits
  rw [← visitAll_congr (get?_parentById_perm hu hperm), ← sortTexts_keys_perm hu hperm] at hvisits
  have hswept := h.swept
  rw [← sweep_congr (childrenOf_perm hu hperm)] at hswept
  simp [anchorSourceNodes, hvisits, hswept]

/-- A lost anchor: the sweep drops a node although the target has its parent. -/
theorem not_anchorsWell (hu : Unique nodes) {fuel : Nat} (hfuel : nodes.length < fuel)
    {id child : String} (htarget : id ∈ targetIds) (hid : Unanchored nodes targetIds id)
    (hchild : HasParent nodes child (some id)) : ¬AnchorsWell fuel nodes targetIds := by
  obtain ⟨memo,dropped,hran⟩ := @exists_ran nodes targetIds hu fuel hfuel
  rintro ⟨result,hresult,hanchors,_⟩
  rw [hran.result] at hresult
  cases hresult
  have hanchored : Anchored nodes targetIds child := .target hchild htarget
  have hne : child ≠ id := by
    rintro rfl
    exact hid.2 hanchored
  have hbelow : Below nodes id child := ⟨hne,.single ((leads_iff hu).mpr ⟨hid.1,hchild⟩)⟩
  have hdropped := (hran.drops child).mpr (.inr ⟨id,hid,hbelow⟩)
  have hkept := (mem_anchoredIds hu dropped child).mp ((hanchors.anchored child).mpr hanchored)
  rw [hdropped] at hkept
  cases hkept.2

/-- Anchoring always ends. It follows the rule exactly when every source node that is also a
target id and has a child is anchored itself. -/
theorem anchors_well_iff (nodes : List SourceAdjacencyNode) (targetIds : List String)
    (hu : Unique nodes) (fuel : Nat) (hfuel : nodes.length < fuel) :
    (∃ result, anchorSourceNodes fuel nodes targetIds = some (.ok result)) ∧
      (AnchorsWell fuel nodes targetIds ↔ NoLostAnchor nodes targetIds) := by
  obtain ⟨memo,dropped,hran⟩ := @exists_ran nodes targetIds hu fuel hfuel
  refine ⟨⟨_,hran.result⟩,fun hwell id htarget hsource hchild => ?_,fun hlost => ?_⟩
  · obtain ⟨child,hchild⟩ := hchild
    by_contra hnot
    exact not_anchorsWell hu hfuel htarget ⟨hsource,hnot⟩ hchild hwell
  · refine ⟨_,hran.result,hran.anchors hu hlost,fun nodes' hperm => ?_⟩
    refine ⟨_,hran.perm hu hperm,fun id => ?_,rfl⟩
    rw [mem_anchoredIds hu, mem_anchoredIds (hu.perm hperm), isSource_perm hperm]

end Result

def departments : List SourceAdjacencyNode :=
  [⟨"100",none,"Head"⟩,⟨"382",some "100","Service"⟩,⟨"383",some "382","Subservice"⟩,
    ⟨"400",some "399","Lost"⟩]

/-- The rule holds of these departments, with one that the target has already. -/
theorem anchors_well_departments :
    (∃ result, anchorSourceNodes 5 departments ["382"] = some (.ok result)) ∧
      (AnchorsWell 5 departments ["382"] ↔ NoLostAnchor departments ["382"]) :=
  anchors_well_iff departments ["382"] (by unfold Unique; decide) 5 (by decide)

/-- Department 383 hangs below 382, which the target has, and is dropped with the source's own
record of 382. -/
theorem sweep_drops_target_child :
    anchorSourceNodes 3 [⟨"382",some "378","Service"⟩,⟨"383",some "382","Subservice"⟩] ["382"] =
      some (.ok ⟨[],[("382",⟨"382",.missingParent,some "378"⟩),
        ("383",⟨"383",.unanchoredSubtree,some "378"⟩)]⟩) := by decide

end SourceAnchoring
end NexusEtl
