import NexusEtl.Library.Reach
import NexusEtl.SourceTopology
import NexusEtl.TargetTopology

/-!
# The queries of a snapshot against each other

Ancestors are read off the parents and descendants off the children, each in a
loop of its own. On every snapshot that a builder makes the two agree, and depth,
canonical path and root are those of the ancestors.
-/

set_option autoImplicit false

namespace NexusEtl
open NexusEtl.Library

namespace TopologySnapshot

/-- What a query answers once it has fuel enough. -/
def Answers {α : Type} (query : Nat → QueryRun α) (a : α) : Prop := Gives query (.ok a)

theorem Answers.unique {α : Type} {query : Nat → QueryRun α} {a b : α} (ha : Answers query a)
    (hb : Answers query b) : a = b := Except.ok.inj (Gives.unique ha hb)

variable (t : TopologySnapshot)

/-- The queries of the nodes end and say the same of the hierarchy. -/
structure Consistent : Prop where
  ends : ∀ id, t.IsNode id → (∃ above, Answers (t.ancestors · id) above) ∧
    (∃ below, Answers (t.descendants · id) below) ∧ (∃ n, Answers (t.depth · id) n) ∧
    (∃ names, Answers (t.canonicalPath · id) names) ∧ ∃ root, Answers (t.rootId · id) root
  inverse : ∀ a d above below, t.IsNode a → t.IsNode d → Answers (t.descendants · a) below →
    Answers (t.ancestors · d) above → (d ∈ below ↔ a ∈ above)
  ancestorsOnce : ∀ d above, t.IsNode d → Answers (t.ancestors · d) above → above.Nodup
  descendantsOnce : ∀ a below, t.IsNode a → Answers (t.descendants · a) below → below.Nodup
  depth : ∀ d n names, t.IsNode d → Answers (t.depth · d) n →
    Answers (t.canonicalPath · d) names → names ≠ [] ∧ n = names.length - 1
  root : ∀ d root above, t.IsNode d → Answers (t.rootId · d) root →
    Answers (t.ancestors · d) above → root = above.getLastD d ∧ root ∈ t.roots

variable {t}

theorem isParent_unique : Relator.RightUnique t.IsParent := by
  intro child parent parent' hp hp'
  exact Option.some.inj (Option.some.inj ((show _ = _ from hp).symm.trans hp'))

/-- The path to a node holds the node and what is above it. -/
theorem mem_rootPath_iff {id : String} {ids : List String} (hp : t.RootPath id ids)
    (a : String) : a ∈ ids ↔ Relation.ReflTransGen t.IsParent id a := by
  induction hp with
  | @root id hroot =>
    rw [List.mem_singleton]
    constructor
    · rintro rfl
      exact .refl
    · intro hup
      rcases Relation.ReflTransGen.cases_head hup with heq | ⟨parent,hparent,_⟩
      · exact heq.symm
      · have hnone : some none = some (some parent) := hroot.symm.trans hparent
        cases hnone
  | @child id parent ids hparent hpath ih =>
    rw [List.mem_append, List.mem_singleton, ih]
    constructor
    · rintro (hup | rfl)
      · exact hup.head hparent
      · exact .refl
    · intro hup
      rcases Relation.ReflTransGen.cases_head hup with heq | ⟨other,hother,hup⟩
      · exact .inr heq.symm
      · rw [isParent_unique hparent hother]
        exact .inl hup

namespace WellFormed

variable (h : t.WellFormed)
include h

theorem nodup_rootPath {id : String} {ids : List String} (hp : t.RootPath id ids) :
    ids.Nodup := by
  induction hp with
  | root hroot => exact List.nodup_singleton _
  | @child id parent ids hparent hpath ih =>
    refine List.nodup_append.mpr ⟨ih,List.nodup_singleton _,fun a ha b hb heq => ?_⟩
    rw [heq, List.mem_singleton.mp hb] at ha
    exact h.acyclic id ((Relation.TransGen.head' hparent ((mem_rootPath_iff hpath id).mp ha)))

theorem mem_above_iff {id : String} {above : List String} (hp : t.RootPath id (above ++ [id]))
    (a : String) : a ∈ above ↔ Relation.TransGen t.IsParent id a := by
  have hiff := mem_rootPath_iff hp a
  have hnodup := List.nodup_append.mp (h.nodup_rootPath hp)
  rw [List.mem_append, List.mem_singleton, Relation.reflTransGen_iff_eq_or_transGen] at hiff
  constructor
  · intro ha
    rcases hiff.mp (.inl ha) with heq | hup
    · exact absurd heq (hnodup.2.2 a ha id (List.mem_singleton_self id))
    · exact hup
  · intro hup
    rcases hiff.mpr (.inr hup) with ha | rfl
    · exact ha
    · exact absurd hup (h.acyclic a)

theorem answers_ancestors {id : String} {above : List String}
    (hp : t.RootPath id (above ++ [id])) : Answers (t.ancestors · id) above.reverse :=
  ⟨_,fun _ hfuel => h.ancestors_rootPath hp hfuel⟩

theorem answers_depth {id : String} {above : List String}
    (hp : t.RootPath id (above ++ [id])) : Answers (t.depth · id) above.length := by
  refine ⟨above.length,fun fuel hfuel => ?_⟩
  simp [depth, h.ancestors_rootPath hp hfuel, Except.map]

theorem answers_canonicalPath {id : String} {above : List String}
    (hp : t.RootPath id (above ++ [id])) :
    ∃ names, Answers (t.canonicalPath · id) names ∧ names.length = above.length + 1 := by
  obtain ⟨names,hnames,hlength⟩ := names_of_nodes (h.isNode_of_rootPath hp)
  refine ⟨names,⟨above.length,fun fuel hfuel => ?_⟩,by simpa using hlength⟩
  show t.canonicalPath fuel id = _
  rw [h.canonicalPath_rootPath hp hfuel, hnames]

theorem answers_rootId {id : String} {above : List String}
    (hp : t.RootPath id (above ++ [id])) : Answers (t.rootId · id) (above.headD id) := by
  have hid := h.isNode_of_rootPath hp id (by simp)
  refine ⟨above.length,fun fuel hfuel => ?_⟩
  have hclimb := h.climb_parent hp hfuel [id]
  simp only [rootId, pathToRoot, parentId_of_isNode hid, hclimb, Option.map_some, Except.bind]
  cases above with
  | nil => rfl
  | cons root above =>
    have hlast : ([id] ++ (root::above).reverse).getLast? = some root := by
      rw [List.reverse_cons, ← List.append_assoc, List.getLast?_concat]
    simp only [hlast, List.headD_cons]

theorem head_rootPath {id : String} {ids : List String} (hp : t.RootPath id ids) (other : String) :
    ids.headD other ∈ t.roots := by
  induction hp with
  | root hroot => exact (h.roots _).mpr hroot
  | @child id parent ids hparent hpath ih =>
    cases ids with
    | nil =>
      obtain ⟨_,hends⟩ := hpath.ends
      simp at hends
    | cons first ids => exact ih

end WellFormed

/-- The loop works this part of the stack off and collects exactly a set of ids, each once. -/
structure Collects (t : TopologySnapshot) (stack : List String) (s : Set String)
    (ids : List String) : Prop where
  mem : ∀ x, x ∈ ids ↔ x ∈ s
  once : ids.Nodup
  run : ∀ fuel rest result,
    t.descend (ids.length + fuel) (stack ++ rest) result = t.descend fuel rest (result ++ ids)

theorem collects_nil : t.Collects [] ∅ [] where
  mem _ := by simp
  once := List.nodup_nil
  run fuel rest result := by simp

theorem Collects.append {stack stack' : List String} {s s' : Set String}
    {ids ids' : List String} (h : t.Collects stack s ids) (h' : t.Collects stack' s' ids')
    (hdisjoint : ∀ x ∈ s, x ∉ s') : t.Collects (stack ++ stack') (s ∪ s') (ids ++ ids') where
  mem x := by rw [List.mem_append, h.mem, h'.mem, Set.mem_union]
  once := by
    refine List.nodup_append.mpr ⟨h.once,h'.once,fun a ha b hb heq => ?_⟩
    exact hdisjoint a ((h.mem a).mp ha) (heq ▸ (h'.mem b).mp hb)
  run fuel rest result := by
    rw [List.length_append, Nat.add_assoc, List.append_assoc, h.run, h'.run, List.append_assoc]

/-- What is below two nodes is below them in one line. -/
theorem below_total {x a b : String} (ha : Relation.ReflTransGen t.IsParent x a)
    (hb : Relation.ReflTransGen t.IsParent x b) :
    Relation.ReflTransGen t.IsParent a b ∨ Relation.ReflTransGen t.IsParent b a :=
  ha.total_of_right_unique isParent_unique hb

namespace WellFormed

variable (h : t.WellFormed)
include h

/-- Two children of one node have nothing below them in common. -/
theorem siblings_apart {parent a b x : String} (ha : t.IsParent a parent)
    (hb : t.IsParent b parent) (hne : a ≠ b) (hxa : Relation.ReflTransGen t.IsParent x a) :
    ¬Relation.ReflTransGen t.IsParent x b := by
  have hline : ∀ c d, t.IsParent c parent → t.IsParent d parent → c ≠ d →
      ¬Relation.ReflTransGen t.IsParent c d := by
    intro c d hc hd hcd hup
    rcases Relation.ReflTransGen.cases_head hup with heq | ⟨other,hother,hup⟩
    · exact hcd heq
    · rw [← isParent_unique hc hother] at hup
      exact h.acyclic parent (Relation.TransGen.tail' hup hd)
  intro hxb
  rcases below_total hxa hxb with hup | hup
  · exact hline a b ha hb hne hup
  · exact hline b a hb ha (Ne.symm hne) hup

/-- Children of one node, each collected with all below it, by induction on their list. -/
theorem collects_children {parent : String} {stack : List String} (honce : stack.Nodup)
    (hstack : ∀ id ∈ stack, t.IsParent id parent) (hcollects : ∀ id ∈ stack, ∃ ids,
      t.Collects [id] {x | Relation.ReflTransGen t.IsParent x id} ids) :
    ∃ ids, t.Collects stack
      {x | ∃ id ∈ stack, Relation.ReflTransGen t.IsParent x id} ids := by
  induction stack with
  | nil =>
    refine ⟨[],?_⟩
    simpa using collects_nil
  | cons id stack ih =>
    obtain ⟨hnew,honce⟩ := List.nodup_cons.mp honce
    obtain ⟨first,hfirst⟩ := hcollects id List.mem_cons_self
    obtain ⟨rest,hrest⟩ := ih honce (fun other hother => hstack other (.tail _ hother))
      fun other hother => hcollects other (.tail _ hother)
    refine ⟨first ++ rest,?_⟩
    have hset : {x | ∃ other ∈ id::stack, Relation.ReflTransGen t.IsParent x other} =
        {x | Relation.ReflTransGen t.IsParent x id} ∪
          {x | ∃ other ∈ stack, Relation.ReflTransGen t.IsParent x other} := by
      ext x
      simp
    rw [hset]
    apply hfirst.append hrest
    rintro x hx ⟨other,hother,hx'⟩
    have hne : id ≠ other := fun heq => hnew (heq ▸ hother)
    exact h.siblings_apart (hstack id List.mem_cons_self) (hstack other (.tail _ hother)) hne
      hx hx'

theorem isParent_of_child {child parent : String}
    (hchild : child ∈ sortTexts ((Dict.get? t.childrenById parent).getD [])) :
    t.IsParent child parent := (h.children child parent).mp (mem_sortTexts.mp hchild)

theorem nodup_children (parent : String) :
    (sortTexts ((Dict.get? t.childrenById parent).getD [])).Nodup :=
  (List.perm_insertionSort _ _).nodup_iff.mpr (h.once parent)

theorem below_iff_child {x parent : String} : Relation.TransGen t.IsParent x parent ↔
    ∃ child ∈ sortTexts ((Dict.get? t.childrenById parent).getD []),
      Relation.ReflTransGen t.IsParent x child := by
  rw [Relation.TransGen.tail'_iff]
  constructor
  · rintro ⟨child,hup,hparent⟩
    exact ⟨child,mem_sortTexts.mpr ((h.children child parent).mpr hparent),hup⟩
  · rintro ⟨child,hchild,hup⟩
    exact ⟨child,hup,h.isParent_of_child hchild⟩

/-- A node on the stack is collected with all below it, by induction down the hierarchy. -/
theorem collects_node {id : String} (hid : t.IsNode id) :
    ∃ ids, t.Collects [id] {x | Relation.ReflTransGen t.IsParent x id} ids := by
  induction id using h.wellFounded_down.induction with
  | _ id ih =>
    obtain ⟨below,hbelow⟩ := h.collects_children (h.nodup_children id)
      (fun child hchild => h.isParent_of_child hchild) fun child hchild =>
        ih child (h.isParent_of_child hchild)
          (h.isNode_of_isParent (h.isParent_of_child hchild)).1
    refine ⟨id::below,fun x => ?_,?_,fun fuel rest result => ?_⟩
    · rw [List.mem_cons, hbelow.mem]
      show _ ↔ Relation.ReflTransGen t.IsParent x id
      rw [Relation.reflTransGen_iff_eq_or_transGen, h.below_iff_child, eq_comm]
      rfl
    · refine List.nodup_cons.mpr ⟨fun hmem => ?_,hbelow.once⟩
      exact h.acyclic id (h.below_iff_child.mpr ((hbelow.mem id).mp hmem))
    · have hrun := hbelow.run fuel rest (result ++ [id])
      rw [List.length_cons, Nat.add_right_comm, List.singleton_append, descend,
        childrenIds_of_isNode hid]
      simpa using hrun

theorem answers_descendants {id : String} (hid : t.IsNode id) : ∃ below : List String,
    Answers (t.descendants · id) below ∧ below.Nodup ∧
      ∀ x, x ∈ below ↔ Relation.TransGen t.IsParent x id := by
  obtain ⟨below,hbelow⟩ := h.collects_children (h.nodup_children id)
    (fun child hchild => h.isParent_of_child hchild) fun child hchild =>
      h.collects_node (h.isNode_of_isParent (h.isParent_of_child hchild)).1
  refine ⟨below,⟨below.length,fun fuel hfuel => ?_⟩,hbelow.once,fun x => ?_⟩
  · obtain ⟨more,rfl⟩ := Nat.exists_eq_add_of_le hfuel
    have hrun := hbelow.run more [] []
    rw [List.append_nil] at hrun
    simp only [descendants, childrenIds_of_isNode hid]
    rw [hrun]
    cases more <;> rfl
  · rw [hbelow.mem, h.below_iff_child]
    rfl

theorem consistent : t.Consistent where
  ends id hid := by
    obtain ⟨ids,hp⟩ := h.exists_rootPath hid
    obtain ⟨above,rfl⟩ := hp.ends
    obtain ⟨below,hbelow,_⟩ := h.answers_descendants hid
    obtain ⟨names,hnames,_⟩ := h.answers_canonicalPath hp
    exact ⟨⟨_,h.answers_ancestors hp⟩,⟨_,hbelow⟩,⟨_,h.answers_depth hp⟩,⟨_,hnames⟩,
      ⟨_,h.answers_rootId hp⟩⟩
  inverse a d below above ha hd hbelow habove := by
    obtain ⟨ids,hp⟩ := h.exists_rootPath hd
    obtain ⟨up,rfl⟩ := hp.ends
    obtain ⟨down,hdown,_,hmem⟩ := h.answers_descendants ha
    rw [hbelow.unique hdown, habove.unique (h.answers_ancestors hp), List.mem_reverse, hmem,
      h.mem_above_iff hp]
  ancestorsOnce d above hd habove := by
    obtain ⟨ids,hp⟩ := h.exists_rootPath hd
    obtain ⟨up,rfl⟩ := hp.ends
    rw [habove.unique (h.answers_ancestors hp), List.nodup_reverse]
    exact (List.nodup_append.mp (h.nodup_rootPath hp)).1
  descendantsOnce a below ha hbelow := by
    obtain ⟨down,hdown,hnodup,_⟩ := h.answers_descendants ha
    rw [hbelow.unique hdown]
    exact hnodup
  depth d n names hd hn hnames := by
    obtain ⟨ids,hp⟩ := h.exists_rootPath hd
    obtain ⟨up,rfl⟩ := hp.ends
    obtain ⟨shown,hshown,hlength⟩ := h.answers_canonicalPath hp
    rw [hn.unique (h.answers_depth hp), hnames.unique hshown, hlength]
    exact ⟨List.ne_nil_of_length_pos (by omega),rfl⟩
  root d root above hd hroot habove := by
    obtain ⟨ids,hp⟩ := h.exists_rootPath hd
    obtain ⟨up,rfl⟩ := hp.ends
    rw [hroot.unique (h.answers_rootId hp), habove.unique (h.answers_ancestors hp)]
    have htop := h.head_rootPath hp d
    cases up with
    | nil => exact ⟨rfl,htop⟩
    | cons top up => exact ⟨by simp,htop⟩

end WellFormed
end TopologySnapshot

namespace SourcePathTopologyBuilder

variable {builder : SourcePathTopologyBuilder}

/-- The indices of a forest that grows node by node, whatever the digests are. -/
structure Grown (b : SourceIndices) : Prop where
  indexed : ∀ id, (Dict.get? b.nodes id).isSome = true ↔ (Dict.get? b.parents id).isSome = true
  known : ∀ child parent, Dict.get? b.parents child = some (some parent) →
    (Dict.get? b.nodes parent).isSome = true
  children : ∀ child parent, child ∈ (Dict.get? b.children parent).getD [] ↔
    Dict.get? b.parents child = some (some parent)
  once : ∀ parent, ((Dict.get? b.children parent).getD []).Nodup
  distinct : (Dict.keys b.parents).Nodup
  acyclic : Acyclic fun child parent => Dict.get? b.parents child = some (some parent)

theorem grown_empty : Grown ⟨[],[],[]⟩ where
  indexed _ := by simp
  known _ _ hp := by simp at hp
  children _ _ := by simp
  once _ := by simp
  distinct := List.nodup_nil
  acyclic := by
    intro id hcycle
    obtain ⟨_,hp,_⟩ := Relation.TransGen.head'_iff.mp hcycle
    simp at hp

/-- A new node hangs below a known one, so nothing hangs below it. -/
theorem Grown.ingestNode {b : SourceIndices} (h : Grown b) {parent? : Option String}
    (hparent : ∀ parent ∈ parent?, (Dict.get? b.nodes parent).isSome = true)
    (part : List String) : Grown (builder.ingestNode b parent? part) := by
  unfold SourcePathTopologyBuilder.ingestNode
  dsimp only
  generalize builder.syntheticId part = id
  by_cases hknown : Dict.contains b.nodes id = true
  · rw [if_pos hknown]
    exact h
  · rw [if_neg hknown]
    have hnode : ¬(Dict.get? b.nodes id).isSome = true := hknown
    have habsent : Dict.get? b.parents id = none := by
      rw [← Option.not_isSome_iff_eq_none, ← h.indexed]
      exact hnode
    have hleaf : ∀ child, Dict.get? b.parents child ≠ some (some id) :=
      fun child hp => hnode (h.known child id hp)
    have hnone : (Dict.get? b.children id).getD [] = [] := by
      rw [List.eq_nil_iff_forall_not_mem]
      exact fun child hchild => hleaf child ((h.children child id).mp hchild)
    have hparents : ∀ child parent,
        Dict.get? (Dict.set b.parents id parent?) child = some (some parent) ↔
          Dict.get? b.parents child = some (some parent) ∨
            parent? = some parent ∧ child = id := by
      intro child parent
      rw [Dict.get?_set]
      by_cases hid : id = child
      · subst hid
        simp [habsent]
      · simp [hid, Ne.symm hid]
    have hopened : ∀ parent, (Dict.get? (if Dict.contains b.children id then b.children
        else Dict.set b.children id []) parent).getD [] =
          (Dict.get? b.children parent).getD [] := by
      intro parent
      split
      · rfl
      · rw [Dict.get?_set]
        by_cases hid : id = parent
        · rw [if_pos hid, ← hid, hnone]
          rfl
        · rw [if_neg hid]
    refine ⟨fun other => ?_,fun child parent hp => ?_,fun child parent => ?_,fun parent => ?_,
      Dict.nodup_keys_set h.distinct _ _,?_⟩
    · rw [Dict.get?_set, Dict.get?_set]
      by_cases hid : id = other
      · simp [hid]
      · simpa [hid] using h.indexed other
    · rw [Dict.get?_set]
      split
      · rfl
      · rcases (hparents child parent).mp hp with hold | ⟨heq,_⟩
        · exact h.known child parent hold
        · exact hparent parent heq
    · rw [hparents, ← h.children, ← hopened]
      cases parent? with
      | none => simp
      | some above =>
        dsimp only
        rw [mem_addChild, Option.some.injEq]
        simp only [eq_comm]
    · cases parent? with
      | none =>
        dsimp only
        rw [hopened]
        exact h.once parent
      | some above => exact addChild_nodup (fun p => hopened p ▸ h.once p) above id parent
    · have hkept := fun child parent hp (hne : child ≠ id) =>
        ((hparents child parent).mp hp).resolve_right fun hnew => hne hnew.2
      refine h.acyclic.of_leaf hkept fun child hp => ?_
      rcases (hparents child id).mp hp with hold | ⟨heq,_⟩
      · exact hleaf child hold
      · exact hnode (hparent id heq)

theorem isSome_nodes_ingestNode (b : SourceIndices) (parent? : Option String)
    (part : List String) :
    (Dict.get? (builder.ingestNode b parent? part).nodes (builder.syntheticId part)).isSome =
      true := by
  unfold SourcePathTopologyBuilder.ingestNode
  dsimp only
  split
  · assumption
  · simp

theorem Grown.ingestPath {b : SourceIndices} (h : Grown b) (segments : List String) :
    Grown (builder.ingestPath b segments) := by
  have hrounds : ∀ (depths : List Nat) (acc : SourceIndices × Option String), Grown acc.1 →
      (∀ parent ∈ acc.2, (Dict.get? acc.1.nodes parent).isSome = true) →
      Grown (depths.foldl (builder.ingestPrefix segments) acc).1 := by
    intro depths
    induction depths with
    | nil => exact fun _ hgrown _ => hgrown
    | cons depth depths ih =>
      intro acc hgrown hparent
      apply ih
      · exact hgrown.ingestNode hparent _
      · intro parent hlast
        cases hlast
        exact isSome_nodes_ingestNode _ _ _
  exact hrounds _ _ h fun _ hnone => by cases hnone

theorem Grown.ingest {st : SourceBuild} (h : Grown st.indices) (entry : List String × Nat) :
    Grown (builder.ingest st entry).indices := by
  unfold SourcePathTopologyBuilder.ingest
  dsimp only
  split
  · exact h
  · split
    · exact h
    · split
      · exact h
      · exact h.ingestPath _

theorem grown_run (entries : List (List String × Nat)) {st : SourceBuild}
    (h : Grown st.indices) : Grown (entries.foldl builder.ingest st).indices := by
  induction entries generalizing st with
  | nil => exact h
  | cons entry entries ih => exact ih (h.ingest entry)

theorem Grown.wellFormed {b : SourceIndices} (h : Grown b) :
    (SourceIndices.snapshot b).WellFormed where
  indexed := h.indexed
  known := h.known
  children child parent := by
    rw [TopologySnapshot.childrenById_ofIndices, TopologySnapshot.mem_sortTexts]
    exact h.children child parent
  once parent := by
    rw [TopologySnapshot.childrenById_ofIndices]
    exact (List.perm_insertionSort _ _).nodup_iff.mpr (h.once parent)
  roots id := TopologySnapshot.mem_sortTexts.trans (TopologySnapshot.mem_rootIds h.distinct id)
  acyclic := h.acyclic

theorem snapshot_wellFormed (builder : SourcePathTopologyBuilder) (paths : List (List String)) :
    (builder.build paths).1.WellFormed := (grown_run paths.zipIdx grown_empty).wellFormed

end SourcePathTopologyBuilder

/-- Every snapshot that a builder makes answers its queries consistently. -/
theorem queries_consistent (source : SourcePathTopologyBuilder) (paths : List (List String))
    (target : TargetHierarchyTopologyBuilder) (rows : List TargetHierarchyRow) :
    (source.build paths).1.Consistent ∧ (target.build rows).1.Consistent :=
  ⟨(source.snapshot_wellFormed paths).consistent,(target.build_snapshot_wellFormed rows).consistent⟩

end NexusEtl
