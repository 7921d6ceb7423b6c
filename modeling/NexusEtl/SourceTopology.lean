import NexusEtl.JsonText
import NexusEtl.TopologySnapshot

/-!
# The source topology

Source paths have no ids. The builder names each prefix of a path by the digest
of its segments and hangs it below the prefix one shorter, so the snapshot is
the prefix tree of the accepted paths, in whatever order they come.
-/

set_option autoImplicit false

namespace NexusEtl
open NexusEtl.Library

/-- What the digest of a path prefix is taken of. -/
def sourceNodeText (version : String) (segments : List String) : String :=
  String.ofList (Text.asciiObject
    [("canonical_segments",Text.asciiList segments),
      ("kind",Text.asciiString "source_topology_node"),
      ("normalization_version",Text.asciiString version)])

theorem sourceNodeText_injective {version : String} {p q : List String}
    (h : sourceNodeText version p = sourceNodeText version q) : p = q := by
  have hlist := String.ofList_injective h
  simp only [Text.asciiObject, separated, List.append_assoc, List.cons.injEq, true_and,
    List.append_cancel_left_eq, List.cons_append, List.append_cancel_right_eq] at hlist
  exact Text.asciiList_selfDelimiting.injective hlist

structure SourceIndices where
  nodes : Dict String TopologyNode
  parents : Dict String (Option String)
  children : Dict String (List String)

structure SourceBuild where
  indices : SourceIndices
  errors : List DiagnosticItem
  warnings : List DiagnosticItem
  seen : Dict (List String) Nat

structure SourcePathTopologyBuilder where
  catalog : ErrorCatalog
  normalizationVersion : String
  sha256 : String → String

namespace SourcePathTopologyBuilder

variable (builder : SourcePathTopologyBuilder)

def syntheticId (segments : List String) : String :=
  builder.sha256 (sourceNodeText builder.normalizationVersion segments)

def ingestNode (b : SourceIndices) (parent? : Option String) (part : List String) :
    SourceIndices :=
  let id := builder.syntheticId part
  let name := part.getLastD ""
  if Dict.contains b.nodes id then b
  else
    let opened := if Dict.contains b.children id then b.children else Dict.set b.children id []
    { nodes := Dict.set b.nodes id ⟨id,parent?,name,name⟩
      parents := Dict.set b.parents id parent?
      children := match parent? with
        | none => opened
        | some parent => addChild opened parent id }

/-- One round of the loop of `_ingest_path`, with the parent that the round before left. -/
def ingestPrefix (segments : List String) (acc : SourceIndices × Option String) (depth : Nat) :
    SourceIndices × Option String :=
  (builder.ingestNode acc.1 acc.2 (segments.take (depth + 1)),
    some (builder.syntheticId (segments.take (depth + 1))))

def ingestPath (b : SourceIndices) (segments : List String) : SourceIndices :=
  ((List.range segments.length).foldl (builder.ingestPrefix segments) (b,none)).1

def segmentsValue (segments : List String) : Value := .list (segments.map .str)

def indexValue (index : Nat) : Value := .int index

def ingest (st : SourceBuild) (entry : List String × Nat) : SourceBuild :=
  let segments := entry.1
  if segments.isEmpty || segments.all (fun s => Text.strip s == "") then
    { st with errors := st.errors ++ [diagError builder.catalog .topologyBootstrap
        "TOPOLOGY_SOURCE_PATH_EMPTY" none none none (some [("path_index",indexValue entry.2)])] }
  else if segments.any (fun s => Text.strip s == "") then
    { st with warnings := st.warnings ++ [diagWarning builder.catalog .topologyBootstrap
        "TOPOLOGY_SOURCE_PATH_MALFORMED" none none none (some [("path_index",indexValue entry.2),
          ("canonical_segments",segmentsValue segments)]) none] }
  else match Dict.get? st.seen segments with
    | some kept =>
      { st with warnings := st.warnings ++ [diagWarning builder.catalog .topologyBootstrap
          "TOPOLOGY_SOURCE_COLLISION" none none none
          (some [("canonical_segments",segmentsValue segments),
            ("kept_path_index",indexValue kept),("dropped_path_index",indexValue entry.2)]) none] }
    | none =>
      { st with
        seen := Dict.set st.seen segments entry.2
        indices := builder.ingestPath st.indices segments }

def build (paths : List (List String)) :
    TopologySnapshot × List DiagnosticItem × List DiagnosticItem :=
  let st := paths.zipIdx.foldl builder.ingest ⟨⟨[],[],[]⟩,[],[],[]⟩
  (.ofIndices st.indices.nodes st.indices.parents st.indices.children,st.errors,st.warnings)

def parentOf (part : List String) : Option String :=
  if part.dropLast = [] then none else some (builder.syntheticId part.dropLast)

def nodeOf (part : List String) : TopologyNode :=
  ⟨builder.syntheticId part,builder.parentOf part,part.getLastD "",part.getLastD ""⟩

/-- The digest is injective on what is encoded for these prefixes. -/
def DigestsApart (s : Set (List String)) : Prop :=
  ∀ p ∈ s, ∀ q ∈ s, builder.syntheticId p = builder.syntheticId q →
    sourceNodeText builder.normalizationVersion p = sourceNodeText builder.normalizationVersion q

variable {builder}

theorem DigestsApart.eq {s : Set (List String)} (h : builder.DigestsApart s) {p q : List String}
    (hp : p ∈ s) (hq : q ∈ s) (heq : builder.syntheticId p = builder.syntheticId q) : p = q :=
  sourceNodeText_injective (h p hp q hq heq)

theorem DigestsApart.mono {s u : Set (List String)} (h : builder.DigestsApart u) (hsub : s ⊆ u) :
    builder.DigestsApart s := fun p hp q hq => h p (hsub hp) q (hsub hq)

theorem parentOf_eq_some {part : List String} {parent : String} :
    builder.parentOf part = some parent ↔
      part.dropLast ≠ [] ∧ builder.syntheticId part.dropLast = parent := by
  unfold parentOf
  by_cases hroot : part.dropLast = []
  · simp [hroot]
  · simp [hroot]

/-- A set of path prefixes: none is empty, and each hangs below another or is a root. -/
def IsForest (s : Set (List String)) : Prop :=
  ∀ p ∈ s, p ≠ [] ∧ (p.dropLast = [] ∨ p.dropLast ∈ s)

/-- The indices hold exactly the tree of a set of prefixes. -/
structure Holds (builder : SourcePathTopologyBuilder) (s : Set (List String))
    (b : SourceIndices) : Prop where
  nodes : ∀ id node, Dict.get? b.nodes id = some node ↔
    ∃ p ∈ s, builder.syntheticId p = id ∧ builder.nodeOf p = node
  parents : ∀ id parent?, Dict.get? b.parents id = some parent? ↔
    ∃ p ∈ s, builder.syntheticId p = id ∧ builder.parentOf p = parent?
  opened : ∀ id, (Dict.get? b.children id).isSome = true ↔ ∃ p ∈ s, builder.syntheticId p = id
  children : ∀ child parent, child ∈ (Dict.get? b.children parent).getD [] ↔
    ∃ p ∈ s, builder.syntheticId p = child ∧ builder.parentOf p = some parent
  once : ∀ parent, ((Dict.get? b.children parent).getD []).Nodup
  distinct : (Dict.keys b.parents).Nodup

theorem Holds.contains_iff {s : Set (List String)} {b : SourceIndices} (h : builder.Holds s b)
    (id : String) : Dict.contains b.nodes id = true ↔ ∃ p ∈ s, builder.syntheticId p = id := by
  unfold Dict.contains
  rw [Option.isSome_iff_exists]
  constructor
  · rintro ⟨node,hnode⟩
    obtain ⟨p,hp,hid,_⟩ := (h.nodes id node).mp hnode
    exact ⟨p,hp,hid⟩
  · rintro ⟨p,hp,hid⟩
    exact ⟨_,(h.nodes id _).mpr ⟨p,hp,hid,rfl⟩⟩

theorem holds_empty : builder.Holds ∅ ⟨[],[],[]⟩ where
  nodes _ _ := by simp
  parents _ _ := by simp
  opened _ := by simp
  children _ _ := by simp
  once _ := by simp
  distinct := List.nodup_nil

/-- An index of the prefixes with one more that has a digest of its own. -/
theorem get?_set_fresh {β : Type} {index : Dict String β} {entry : List String → β}
    {s : Set (List String)} (h : ∀ id v, Dict.get? index id = some v ↔
      ∃ p ∈ s, builder.syntheticId p = id ∧ entry p = v) {part : List String}
    (hfresh : ∀ p ∈ s, builder.syntheticId p ≠ builder.syntheticId part) (id : String) (v : β) :
    Dict.get? (Dict.set index (builder.syntheticId part) (entry part)) id = some v ↔
      ∃ p ∈ insert part s, builder.syntheticId p = id ∧ entry p = v := by
  rw [Dict.get?_set]
  by_cases hid : builder.syntheticId part = id
  · subst hid
    simp only [if_true, Option.some.injEq, Set.mem_insert_iff, exists_eq_or_imp, true_and]
    constructor
    · exact .inl
    · rintro (heq | ⟨p,hp,hsame,_⟩)
      · exact heq
      · exact absurd hsame (hfresh p hp)
  · simp [hid, h]

/-- A prefix whose parent is there already joins the tree. -/
theorem Holds.add_node {s : Set (List String)} {b : SourceIndices} (h : builder.Holds s b)
    {part : List String} (hapart : builder.DigestsApart (insert part s))
    (hparent : part.dropLast = [] ∨ part.dropLast ∈ s) :
    builder.Holds (insert part s) (builder.ingestNode b (builder.parentOf part) part) := by
  unfold ingestNode
  dsimp only
  by_cases hknown : Dict.contains b.nodes (builder.syntheticId part) = true
  · obtain ⟨p,hp,hid⟩ := (h.contains_iff _).mp hknown
    have hmem : part ∈ s := hapart.eq (.inr hp) (.inl rfl) hid ▸ hp
    rw [if_pos hknown, Set.insert_eq_of_mem hmem]
    exact h
  · rw [if_neg hknown]
    have hfresh : ∀ p ∈ s, builder.syntheticId p ≠ builder.syntheticId part :=
      fun p hp hid => hknown ((h.contains_iff _).mpr ⟨p,hp,hid⟩)
    have hclosed : Dict.get? b.children (builder.syntheticId part) = none := by
      by_contra hsome
      obtain ⟨p,hp,hid⟩ := (h.opened _).mp (Option.ne_none_iff_isSome.mp hsome)
      exact hfresh p hp hid
    have hset : (if Dict.contains b.children (builder.syntheticId part) then b.children
        else Dict.set b.children (builder.syntheticId part) []) =
          Dict.set b.children (builder.syntheticId part) [] := by
      simp [Dict.contains, hclosed]
    have hopened : ∀ c q, c ∈ (Dict.get? (Dict.set b.children (builder.syntheticId part) [])
        q).getD [] ↔ c ∈ (Dict.get? b.children q).getD [] := by
      intro c q
      rw [Dict.get?_set]
      by_cases hq : builder.syntheticId part = q
      · subst hq
        simp [hclosed]
      · simp [hq]
    have hparents : ∀ parent, builder.parentOf part = some parent →
        ∃ p ∈ s, builder.syntheticId p = parent := by
      intro parent hpart
      obtain ⟨hne,hid⟩ := parentOf_eq_some.mp hpart
      exact ⟨_,hparent.resolve_left hne,hid⟩
    rw [hset]
    refine ⟨fun id node => ?_,fun id parent? => ?_,fun id => ?_,fun child parent => ?_,
      fun parent => ?_,?_⟩
    · exact get?_set_fresh h.nodes hfresh id node
    · exact get?_set_fresh h.parents hfresh id parent?
    · have hopen : (Dict.get? (Dict.set b.children (builder.syntheticId part) []) id).isSome =
          true ↔ ∃ p ∈ insert part s, builder.syntheticId p = id := by
        rw [Dict.get?_set]
        by_cases hid : builder.syntheticId part = id
        · simp [hid]
        · simp [hid, h.opened]
      cases hpart : builder.parentOf part with
      | none => exact hopen
      | some parent =>
        dsimp only
        rw [isSome_addChild, hopen]
        constructor
        · rintro (rfl | hthere)
          · obtain ⟨p,hp,hid⟩ := hparents id hpart
            exact ⟨p,.inr hp,hid⟩
          · exact hthere
        · exact .inr
    · rw [Set.exists_mem_insert, ← h.children, ← hopened]
      cases hpart : builder.parentOf part with
      | none => simp
      | some above =>
        dsimp only
        rw [mem_addChild, or_comm, Option.some.injEq]
        simp only [eq_comm, and_comm]
    · have honce : ∀ q, ((Dict.get? (Dict.set b.children (builder.syntheticId part) [])
          q).getD []).Nodup := by
        intro q
        rw [Dict.get?_set]
        split
        · exact List.nodup_nil
        · exact h.once q
      cases builder.parentOf part with
      | none => exact honce parent
      | some above => exact addChild_nodup honce above _ parent
    · exact Dict.nodup_keys_set h.distinct _ _

theorem union_prefixes_concat (s : Set (List String)) (l : List String) (a : String) :
    s ∪ {p | p ≠ [] ∧ p <+: l ++ [a]} = insert (l ++ [a]) (s ∪ {p | p ≠ [] ∧ p <+: l}) := by
  ext p
  simp only [Set.mem_union, Set.mem_ofPred_eq, Set.mem_insert_iff, List.prefix_concat_iff]
  by_cases hp : p = l ++ [a]
  · simp [hp]
  · simp [hp]

/-- The rounds of the loop, by induction on their number: the prefixes up to the depth reached
are in the tree, and the last of them is the parent of the next. -/
theorem Holds.add_rounds {s : Set (List String)} {b : SourceIndices} (h : builder.Holds s b)
    {segments : List String} (hapart : builder.DigestsApart (s ∪ {p | p ≠ [] ∧ p <+: segments}))
    {depth : Nat} (hdepth : depth ≤ segments.length) :
    builder.Holds (s ∪ {p | p ≠ [] ∧ p <+: segments.take depth})
      ((List.range depth).foldl (builder.ingestPrefix segments) (b,none)).1 ∧
    ((List.range depth).foldl (builder.ingestPrefix segments) (b,none)).2 =
      if segments.take depth = [] then none
      else some (builder.syntheticId (segments.take depth)) := by
  induction depth with
  | zero =>
    have hnone : {p : List String | p ≠ [] ∧ p <+: segments.take 0} = ∅ := by
      ext p
      simp
    rw [hnone, Set.union_empty]
    exact ⟨h,rfl⟩
  | succ depth ih =>
    obtain ⟨htree,hlast⟩ := ih (Nat.le_of_succ_le hdepth)
    have htake : segments.take (depth + 1) = segments.take depth ++ [segments[depth]] :=
      List.take_succ_eq_append_getElem hdepth
    have hdrop : (segments.take (depth + 1)).dropLast = segments.take depth := by
      rw [htake, List.dropLast_concat]
    have hset : s ∪ {p | p ≠ [] ∧ p <+: segments.take (depth + 1)} =
        insert (segments.take (depth + 1)) (s ∪ {p | p ≠ [] ∧ p <+: segments.take depth}) := by
      rw [htake]
      exact union_prefixes_concat s _ _
    rw [List.range_succ, List.foldl_append]
    simp only [List.foldl_cons, List.foldl_nil, ingestPrefix]
    have hparent : ((List.range depth).foldl (builder.ingestPrefix segments) (b,none)).2 =
        builder.parentOf (segments.take (depth + 1)) := by
      rw [hlast, parentOf, hdrop]
    rw [hset, hparent]
    constructor
    · apply htree.add_node
      · rw [← hset]
        apply hapart.mono
        apply Set.union_subset_union_right
        exact fun p hp => ⟨hp.1,hp.2.trans (List.take_prefix _ _)⟩
      rw [hdrop]
      by_cases hroot : segments.take depth = []
      · exact .inl hroot
      · exact .inr (.inr ⟨hroot,List.prefix_refl _⟩)
    · rw [if_neg (htake ▸ List.concat_ne_nil _ _)]

theorem Holds.add_path {s : Set (List String)} {b : SourceIndices} (h : builder.Holds s b)
    {segments : List String} (hapart : builder.DigestsApart (s ∪ {p | p ≠ [] ∧ p <+: segments})) :
    builder.Holds (s ∪ {p | p ≠ [] ∧ p <+: segments}) (builder.ingestPath b segments) := by
  have hrounds := (h.add_rounds hapart (Nat.le_refl _)).1
  rw [List.take_length] at hrounds
  exact hrounds

/-- What the builder takes for a path: it has segments and none of them is blank. -/
def Accepted (path : List String) : Prop := path ≠ [] ∧ ∀ s ∈ path, Text.strip s ≠ ""

/-- The prefixes that the accepted ones of some paths have. -/
def prefixes (paths : List (List String)) : Set (List String) :=
  {p | p ≠ [] ∧ ∃ path ∈ paths, Accepted path ∧ p <+: path}

theorem isForest_prefixes (paths : List (List String)) : IsForest (prefixes paths) := by
  rintro p ⟨hne,path,hpath,haccepted,hpre⟩
  refine ⟨hne,?_⟩
  by_cases hroot : p.dropLast = []
  · exact .inl hroot
  · exact .inr ⟨hroot,path,hpath,haccepted,(List.dropLast_prefix p).trans hpre⟩

theorem prefixes_concat {paths : List (List String)} {path : List String} :
    prefixes (paths ++ [path]) =
      prefixes paths ∪ {p | Accepted path ∧ p ≠ [] ∧ p <+: path} := by
  ext p
  simp only [prefixes, Set.mem_union, Set.mem_ofPred_eq, List.mem_append, List.mem_singleton]
  constructor
  · rintro ⟨hne,other,hmem | rfl,haccepted,hpre⟩
    · exact .inl ⟨hne,other,hmem,haccepted,hpre⟩
    · exact .inr ⟨haccepted,hne,hpre⟩
  · rintro (⟨hne,other,hmem,haccepted,hpre⟩ | ⟨haccepted,hne,hpre⟩)
    · exact ⟨hne,other,.inl hmem,haccepted,hpre⟩
    · exact ⟨hne,path,.inr rfl,haccepted,hpre⟩

/-- What the loop knows after some paths. -/
structure HasRead (builder : SourcePathTopologyBuilder) (paths : List (List String))
    (st : SourceBuild) : Prop where
  tree : builder.Holds (prefixes paths) st.indices
  seen : ∀ path, (Dict.get? st.seen path).isSome = true → path ∈ paths

theorem accepted_iff (segments : List String) : Accepted segments ↔
    (segments.isEmpty || segments.all (fun s => Text.strip s == "")) = false ∧
      segments.any (fun s => Text.strip s == "") = false := by
  cases segments with
  | nil => simp [Accepted]
  | cons s rest =>
    simp only [Accepted, List.isEmpty_cons, Bool.false_or, List.any_eq_false, beq_iff_eq]
    constructor
    · rintro ⟨_,hall⟩
      refine ⟨?_,hall⟩
      simp [hall s List.mem_cons_self]
    · rintro ⟨_,hall⟩
      exact ⟨List.cons_ne_nil s rest,hall⟩

theorem HasRead.ingest {paths : List (List String)} {st : SourceBuild}
    (h : builder.HasRead paths st) (entry : List String × Nat)
    (hapart : builder.DigestsApart (prefixes (paths ++ [entry.1]))) :
    builder.HasRead (paths ++ [entry.1]) (builder.ingest st entry) := by
  have hskip : ¬Accepted entry.1 → prefixes (paths ++ [entry.1]) = prefixes paths := by
    intro hnot
    rw [prefixes_concat]
    simp [hnot]
  have hseen : ∀ path, (Dict.get? st.seen path).isSome = true → path ∈ paths ++ [entry.1] :=
    fun path hpath => List.mem_append_left _ (h.seen path hpath)
  unfold SourcePathTopologyBuilder.ingest
  dsimp only
  split
  · rename_i hblank
    have hnot : ¬Accepted entry.1 := fun hok => by
      rw [((accepted_iff _).mp hok).1] at hblank
      cases hblank
    exact ⟨hskip hnot ▸ h.tree,hseen⟩
  · rename_i hfilled
    split
    · rename_i hblank
      have hnot : ¬Accepted entry.1 := fun hok => by
        rw [((accepted_iff _).mp hok).2] at hblank
        cases hblank
      exact ⟨hskip hnot ▸ h.tree,hseen⟩
    · rename_i hwhole
      have hok : Accepted entry.1 := (accepted_iff _).mpr
        ⟨Bool.not_eq_true _ ▸ hfilled,Bool.not_eq_true _ ▸ hwhole⟩
      split
      · rename_i kept hkept
        have hold : prefixes (paths ++ [entry.1]) = prefixes paths := by
          rw [prefixes_concat, Set.union_eq_left]
          rintro p ⟨_,hne,hpre⟩
          exact ⟨hne,entry.1,h.seen _ (by rw [hkept]; rfl),hok,hpre⟩
        exact ⟨hold ▸ h.tree,hseen⟩
      · have hmore : prefixes (paths ++ [entry.1]) =
            prefixes paths ∪ {p | p ≠ [] ∧ p <+: entry.1} := by
          rw [prefixes_concat]
          simp [hok]
        refine ⟨?_,fun path hpath => ?_⟩
        · rw [hmore] at hapart ⊢
          exact h.tree.add_path hapart
        · rw [Dict.get?_set] at hpath
          split at hpath
          · rename_i heq
            exact heq ▸ List.mem_append_right _ (List.mem_singleton_self _)
          · exact hseen path hpath

theorem prefixes_mono {paths others : List (List String)} (h : ∀ path ∈ paths, path ∈ others) :
    prefixes paths ⊆ prefixes others := by
  rintro p ⟨hne,path,hpath,haccepted,hpre⟩
  exact ⟨hne,path,h path hpath,haccepted,hpre⟩

theorem HasRead.run {paths : List (List String)} {st : SourceBuild} (h : builder.HasRead paths st)
    (rest : List (List String)) (n : Nat)
    (hapart : builder.DigestsApart (prefixes (paths ++ rest))) :
    builder.HasRead (paths ++ rest) ((rest.zipIdx n).foldl builder.ingest st) := by
  induction rest generalizing paths st n with
  | nil => simpa using h
  | cons path rest ih =>
    have hassoc : paths ++ path::rest = paths ++ [path] ++ rest := by simp
    rw [hassoc] at hapart ⊢
    have hfirst : builder.DigestsApart (prefixes (paths ++ [path])) :=
      hapart.mono (prefixes_mono fun other hother => List.mem_append_left _ hother)
    exact ih (h.ingest (path,n) hfirst) (n + 1) hapart

abbrev SourceIndices.snapshot (b : SourceIndices) : TopologySnapshot :=
  .ofIndices b.nodes b.parents b.children

theorem build_snapshot (builder : SourcePathTopologyBuilder) (paths : List (List String)) :
    ∃ st : SourceBuild, (builder.build paths).1 = SourceIndices.snapshot st.indices ∧
      (builder.DigestsApart (prefixes paths) → builder.HasRead paths st) := by
  refine ⟨_,rfl,fun hapart => ?_⟩
  have hstart : builder.HasRead [] ⟨⟨[],[],[]⟩,[],[],[]⟩ := by
    refine ⟨?_,fun path hpath => by simp at hpath⟩
    have hnone : prefixes [] = ∅ := by simp [prefixes]
    exact hnone ▸ holds_empty
  exact hstart.run paths 0 hapart

namespace Holds

variable {s : Set (List String)} {b c : SourceIndices} (h : builder.Holds s b)
include h

theorem isNode_iff (id : String) :
    (SourceIndices.snapshot b).IsNode id ↔ ∃ p ∈ s, builder.syntheticId p = id := h.contains_iff id

theorem mem_roots (id : String) :
    id ∈ (b.parents.filter fun e => e.2.isNone).map Prod.fst ↔
      Dict.get? b.parents id = some none := TopologySnapshot.mem_rootIds h.distinct id

theorem nodup_roots : ((b.parents.filter fun e => e.2.isNone).map Prod.fst).Nodup :=
  h.distinct.sublist (List.filter_sublist.map Prod.fst)

/-- Who is above a prefix is shorter. -/
theorem length_lt (hapart : builder.DigestsApart s) (hs : IsForest s) {child parent : String}
    (hpath : Relation.TransGen (SourceIndices.snapshot b).IsParent child parent) :
    ∃ p ∈ s, ∃ q ∈ s, builder.syntheticId p = child ∧ builder.syntheticId q = parent ∧
      q.length < p.length := by
  have hstep : ∀ {child parent}, (SourceIndices.snapshot b).IsParent child parent →
      ∃ p ∈ s, p.dropLast ∈ s ∧ builder.syntheticId p = child ∧
        builder.syntheticId p.dropLast = parent ∧ p.dropLast.length < p.length := by
    intro child parent hparent
    obtain ⟨p,hmem,hp,habove⟩ := (h.parents child (some parent)).mp hparent
    obtain ⟨hne,hid⟩ := parentOf_eq_some.mp habove
    have hpos := List.length_pos_iff.mpr (hs p hmem).1
    exact ⟨p,hmem,(hs p hmem).2.resolve_left hne,hp,hid,by rw [List.length_dropLast]; omega⟩
  induction hpath with
  | single hparent =>
    obtain ⟨p,hmem,habove,hp,hid,hlt⟩ := hstep hparent
    exact ⟨p,hmem,_,habove,hp,hid,hlt⟩
  | tail _ hparent ih =>
    obtain ⟨p,hmem,q,hq,hp,hqid,hlt⟩ := ih
    obtain ⟨q',hq',habove,hqid',hid,hlt'⟩ := hstep hparent
    have heq := hapart.eq hq hq' (hqid.trans hqid'.symm)
    exact ⟨p,hmem,_,habove,hp,hid,hlt'.trans (heq ▸ hlt)⟩

theorem acyclic (hapart : builder.DigestsApart s) (hs : IsForest s) :
    Acyclic (SourceIndices.snapshot b).IsParent := by
  intro id hpath
  obtain ⟨p,hp,q,hq,hpid,hqid,hlt⟩ := h.length_lt hapart hs hpath
  have heq := hapart.eq hp hq (hpid.trans hqid.symm)
  rw [heq] at hlt
  exact Nat.lt_irrefl _ hlt

theorem wellFormed (hapart : builder.DigestsApart s) (hs : IsForest s) :
    (SourceIndices.snapshot b).WellFormed where
  indexed id := by
    rw [h.isNode_iff, Option.isSome_iff_exists]
    constructor
    · rintro ⟨p,hp,hid⟩
      exact ⟨_,(h.parents id _).mpr ⟨p,hp,hid,rfl⟩⟩
    · rintro ⟨parent?,hparent⟩
      obtain ⟨p,hp,hid,_⟩ := (h.parents id parent?).mp hparent
      exact ⟨p,hp,hid⟩
  known child parent hparent := by
    obtain ⟨p,hp,_,habove⟩ := (h.parents child (some parent)).mp hparent
    obtain ⟨hne,hid⟩ := parentOf_eq_some.mp habove
    exact (h.isNode_iff parent).mpr ⟨_,(hs p hp).2.resolve_left hne,hid⟩
  children child parent := by
    rw [TopologySnapshot.childrenById_ofIndices, TopologySnapshot.mem_sortTexts, h.children]
    exact (h.parents child (some parent)).symm
  once parent := by
    rw [TopologySnapshot.childrenById_ofIndices]
    exact (List.perm_insertionSort _ _).nodup_iff.mpr (h.once parent)
  roots id := TopologySnapshot.mem_sortTexts.trans (h.mem_roots id)
  acyclic := h.acyclic hapart hs

theorem same (h' : builder.Holds s c) :
    (SourceIndices.snapshot b).Same (SourceIndices.snapshot c) where
  nodes id := Option.ext fun node => (h.nodes id node).trans (h'.nodes id node).symm
  parents id := Option.ext fun parent? => (h.parents id parent?).trans (h'.parents id parent?).symm
  children id := by
    show Dict.get? (b.children.map fun e => (e.1,sortTexts e.2)) id =
      Dict.get? (c.children.map fun e => (e.1,sortTexts e.2)) id
    have hopen := (h.opened id).trans (h'.opened id).symm
    have hmem : ∀ child, child ∈ (Dict.get? b.children id).getD [] ↔
        child ∈ (Dict.get? c.children id).getD [] :=
      fun child => (h.children child id).trans (h'.children child id).symm
    have hsort := TopologySnapshot.sortTexts_congr (h.once id) (h'.once id) hmem
    rw [Dict.get?_mapValues, Dict.get?_mapValues]
    cases hb : Dict.get? b.children id with
    | none =>
      have hc : Dict.get? c.children id = none := by
        rw [hb] at hopen
        simpa using hopen
      rw [hc]
    | some ids =>
      obtain ⟨others,hc⟩ := Option.isSome_iff_exists.mp (hopen.mp (by rw [hb]; rfl))
      rw [hb, hc] at hsort
      rw [hc]
      exact congrArg some hsort
  roots := TopologySnapshot.sortTexts_congr h.nodup_roots h'.nodup_roots fun id =>
    ((h.mem_roots id).trans (h.parents id none)).trans
      ((h'.mem_roots id).trans (h'.parents id none)).symm

/-- The path to a prefix goes through the prefixes of it, by induction on its length. -/
theorem rootPath (hs : IsForest s) {p : List String} (hp : p ∈ s) : ∃ above,
    (SourceIndices.snapshot b).RootPath (builder.syntheticId p) (above ++ [builder.syntheticId p]) ∧
      (above ++ [builder.syntheticId p]).mapM (SourceIndices.snapshot b).canonicalName = .ok p ∧
      above.length < p.length := by
  have hname : ∀ q ∈ s, (SourceIndices.snapshot b).canonicalName (builder.syntheticId q) =
      .ok (q.getLastD "") := by
    intro q hq
    have hnode := (h.nodes (builder.syntheticId q) _).mpr ⟨q,hq,rfl,rfl⟩
    simp [TopologySnapshot.canonicalName, TopologySnapshot.requireNode, SourceIndices.snapshot,
      TopologySnapshot.ofIndices, hnode, Except.map, nodeOf]
  induction p using List.reverseRecOn with
  | nil => exact absurd rfl (hs [] hp).1
  | append_singleton p last ih =>
    have hparent := (h.parents (builder.syntheticId (p ++ [last])) _).mpr ⟨_,hp,rfl,rfl⟩
    have hlast := hname _ hp
    rw [List.getLastD_concat] at hlast
    rw [parentOf, List.dropLast_concat] at hparent
    by_cases hroot : p = []
    · subst hroot
      rw [List.nil_append] at hlast
      exact ⟨[],.root hparent,by simp [hlast],by simp⟩
    · rw [if_neg hroot] at hparent
      have habove : p ∈ s := by
        have hmem := (hs _ hp).2
        rw [List.dropLast_concat] at hmem
        exact hmem.resolve_left hroot
      obtain ⟨above,hpath,hnames,hlen⟩ := ih habove
      refine ⟨_,.child hparent hpath,?_,?_⟩
      · rw [List.mapM_append, hnames]
        simp only [List.mapM_cons, List.mapM_nil, hlast]
        rfl
      · simp only [List.length_append, List.length_singleton]
        omega

end Holds

/-- A snapshot that is the prefix tree of a set of prefixes, under the names the builder gives. -/
structure IsPrefixTree (builder : SourcePathTopologyBuilder) (s : Set (List String))
    (t : TopologySnapshot) : Prop where
  onePerPrefix : Set.BijOn builder.syntheticId s {id | t.IsNode id}
  node : ∀ p ∈ s, t.requireNode (builder.syntheticId p) = .ok (builder.nodeOf p)
  parent : ∀ p ∈ s, t.parentId (builder.syntheticId p) =
    .ok (if p.dropLast = [] then none else some (builder.syntheticId p.dropLast))
  path : ∀ p ∈ s, ∀ fuel, p.length ≤ fuel →
    t.canonicalPath fuel (builder.syntheticId p) = some (.ok p)

theorem Holds.isPrefixTree {s : Set (List String)} {b : SourceIndices} (h : builder.Holds s b)
    (hapart : builder.DigestsApart s) (hs : IsForest s) :
    builder.IsPrefixTree s (SourceIndices.snapshot b) where
  onePerPrefix := by
    refine ⟨fun p hp => (h.isNode_iff _).mpr ⟨p,hp,rfl⟩,fun p hp q hq heq => hapart.eq hp hq heq,
      fun id hid => ?_⟩
    obtain ⟨p,hp,rfl⟩ := (h.isNode_iff id).mp hid
    exact ⟨p,hp,rfl⟩
  node p hp := by
    have hnode := (h.nodes (builder.syntheticId p) _).mpr ⟨p,hp,rfl,rfl⟩
    simp [TopologySnapshot.requireNode, SourceIndices.snapshot, TopologySnapshot.ofIndices, hnode]
  parent p hp := (h.wellFormed hapart hs).parentId_ok_iff.mpr
    ((h.parents _ _).mpr ⟨p,hp,rfl,rfl⟩)
  path p hp fuel hfuel := by
    obtain ⟨above,hpath,hnames,hlen⟩ := h.rootPath hs hp
    rw [(h.wellFormed hapart hs).canonicalPath_rootPath hpath (by omega), hnames]

/-- The snapshot is the prefix tree of the accepted paths, and it does not show how often or in
which order they came. -/
theorem source_topology (builder : SourcePathTopologyBuilder) (paths : List (List String))
    (hapart : builder.DigestsApart (prefixes paths)) :
    builder.IsPrefixTree (prefixes paths) (builder.build paths).1 ∧
      ∀ others : List (List String), (∀ path, path ∈ others ↔ path ∈ paths) →
        (builder.build others).1.Same (builder.build paths).1 := by
  obtain ⟨st,hsnapshot,hread⟩ := build_snapshot builder paths
  have htree := (hread hapart).tree
  constructor
  · rw [hsnapshot]
    exact htree.isPrefixTree hapart (isForest_prefixes paths)
  · intro others hothers
    obtain ⟨st',hsnapshot',hread'⟩ := build_snapshot builder others
    have hprefixes : prefixes others = prefixes paths := by
      ext p
      simp only [prefixes, Set.mem_ofPred_eq, hothers]
    have htree' := (hread' (hprefixes ▸ hapart)).tree
    rw [hsnapshot, hsnapshot']
    exact (hprefixes ▸ htree').same htree

/-- The digests of three prefixes. -/
def officeDigests (text : String) : String :=
  if text = sourceNodeText "1" ["A"] then
    "9fae42bb4e69802d409e03f9d6232cfdf4ad6d8545f75204af7e509a61a97836"
  else if text = sourceNodeText "1" ["A","B"] then
    "e8607cf5e64029507a11e42c0ee83d47025c893351809d0e897f65756751a7dc"
  else if text = sourceNodeText "1" ["A","C"] then
    "deec1f2d807d4c7bf502e8f2907dc1ab8bb4bd6d67226b9839c51b14b8699419"
  else text

def offices : SourcePathTopologyBuilder := ⟨[],"1",officeDigests⟩

theorem offices_apart : offices.DigestsApart (prefixes [["A","B"],["A","C"],["A","B"]]) := by
  have hall : ∀ p ∈ [["A"],["A","B"],["A","C"]], ∀ q ∈ [["A"],["A","B"],["A","C"]],
      offices.syntheticId p = offices.syntheticId q →
        sourceNodeText "1" p = sourceNodeText "1" q := by decide
  have hmem : ∀ p ∈ prefixes [["A","B"],["A","C"],["A","B"]],
      p ∈ [["A"],["A","B"],["A","C"]] := by
    rintro p ⟨hne,path,hpath,_,hpre⟩
    have hinits := (List.mem_inits p path).mpr hpre
    simp only [List.mem_cons, List.not_mem_nil, or_false] at hpath
    rcases hpath with rfl | rfl | rfl <;>
      simp only [List.inits, List.map_cons, List.map_nil, List.mem_cons, List.not_mem_nil,
        or_false] at hinits <;>
      rcases hinits with rfl | rfl | rfl <;> simp at hne ⊢
  exact fun p hp q hq => hall p (hmem p hp) q (hmem q hq)

theorem source_topology_offices :
    offices.IsPrefixTree (prefixes [["A","B"],["A","C"],["A","B"]])
      (offices.build [["A","B"],["A","C"],["A","B"]]).1 ∧
    (offices.build [["A","C"],["A","B"]]).1.Same
      (offices.build [["A","B"],["A","C"],["A","B"]]).1 := by
  have h := source_topology offices [["A","B"],["A","C"],["A","B"]] offices_apart
  refine ⟨h.1,h.2 _ fun path => ?_⟩
  simp only [List.mem_cons, List.not_mem_nil, or_false]
  tauto

end SourcePathTopologyBuilder
end NexusEtl
