import NexusEtl.Library.Ladder
import NexusEtl.LinkDatasets
import NexusEtl.TargetTopology

/-!
# The topology comparison ladder

Candidates of the target's tree are compared with the path of a source row, rung
by rung. The comparison reads the path of every candidate from the snapshot, so
it needs every candidate to be a node of it; then it decides by the first rung
at which a candidate agrees, whatever the order of the candidates.
-/

set_option autoImplicit false

namespace NexusEtl
open NexusEtl.Library

namespace TopologySnapshot

variable (t : TopologySnapshot)

/-- `canonical_path`, with a round of the loop for every node. -/
def pathOf (id : String) : Except PyException (List String) :=
  (t.canonicalPath t.nodesById.length id).getD
    (.error ⟨"RuntimeError","the path to the root does not end"⟩)

/-- The names from the root down to a node. -/
inductive NamePath (t : TopologySnapshot) : String → List String → Prop
  | root {id : String} {node : TopologyNode} (hp : Dict.get? t.parentById id = some none)
      (hn : Dict.get? t.nodesById id = some node) : NamePath t id [node.canonicalName]
  | child {id parent : String} {node : TopologyNode} {names : List String}
      (hp : t.IsParent id parent) (hn : Dict.get? t.nodesById id = some node)
      (h : NamePath t parent names) : NamePath t id (names ++ [node.canonicalName])

variable {t}

theorem NamePath.ne_nil {id : String} {names : List String} (h : t.NamePath id names) :
    names ≠ [] := by
  cases h <;> simp

theorem NamePath.unique {id : String} {names others : List String} (h : t.NamePath id names)
    (h' : t.NamePath id others) : names = others := by
  induction h generalizing others with
  | root hp hn =>
    cases h' with
    | root hp' hn' =>
      rw [Option.some.inj (hn.symm.trans hn')]
    | child hp' hn' h' => cases hp.symm.trans hp'
  | child hp hn h ih =>
    cases h' with
    | root hp' hn' => cases hp'.symm.trans hp
    | child hp' hn' h' =>
      cases hp.symm.trans hp'
      rw [ih h', Option.some.inj (hn.symm.trans hn')]

theorem RootPath.namePath {id : String} {ids : List String} (h : t.RootPath id ids)
    (hnodes : ∀ other ∈ ids, t.IsNode other) :
    ∃ names, t.NamePath id names ∧ ids.mapM t.canonicalName = .ok names := by
  have hname : ∀ other, t.IsNode other → ∃ node, Dict.get? t.nodesById other = some node ∧
      t.canonicalName other = .ok node.canonicalName := by
    intro other hother
    obtain ⟨node,hnode,hget⟩ := requireNode_of_isNode hother
    exact ⟨node,hget,by simp [canonicalName, hnode, Except.map]⟩
  induction h with
  | @root id hp =>
    obtain ⟨node,hnode,hcanonical⟩ := hname id (hnodes id List.mem_cons_self)
    refine ⟨[node.canonicalName],.root hp hnode,?_⟩
    simp [hcanonical, bind, Except.bind, pure, Except.pure]
  | @child id parent ids hp h ih =>
    obtain ⟨node,hnode,hcanonical⟩ := hname id (hnodes id (by simp))
    obtain ⟨names,hpath,hnames⟩ := ih fun other hother =>
      hnodes other (List.mem_append_left _ hother)
    refine ⟨names ++ [node.canonicalName],.child hp hnode hpath,?_⟩
    simp [List.mapM_append, hnames, hcanonical, bind, Except.bind, pure, Except.pure]

theorem RootPath.descends {id other : String} {ids : List String} (h : t.RootPath id ids)
    (hother : other ∈ ids) : Relation.ReflTransGen t.IsParent id other := by
  induction h with
  | root hp =>
    rw [List.mem_singleton.mp hother]
  | child hp h ih =>
    rcases List.mem_append.mp hother with hother | hother
    · exact .head hp (ih hother)
    · rw [List.mem_singleton.mp hother]

theorem WellFormed.rootPath_nodup (h : t.WellFormed) {id : String} {ids : List String}
    (hp : t.RootPath id ids) : ids.Nodup := by
  induction hp with
  | root hp => exact List.nodup_singleton _
  | @child id parent ids hparent hpath ih =>
    have hfresh : id ∉ ids := fun hid => h.acyclic id (.head' hparent (hpath.descends hid))
    exact List.nodup_append.mpr ⟨ih,List.nodup_singleton _,fun a ha b hb heq =>
      hfresh (List.mem_singleton.mp hb ▸ heq ▸ ha)⟩

theorem IsNode.mem_keys {id : String} (h : t.IsNode id) : id ∈ Dict.keys t.nodesById :=
  Dict.mem_keys_iff.mpr h

/-- A path visits a node once, so a round for every node is enough. -/
theorem WellFormed.rootPath_length (h : t.WellFormed) {id : String} {ids : List String}
    (hp : t.RootPath id ids) : ids.length ≤ t.nodesById.length := by
  have hsub : ids ⊆ Dict.keys t.nodesById := fun other hother =>
    (h.isNode_of_rootPath hp other hother).mem_keys
  have hlength := (h.rootPath_nodup hp).length_le_of_subset hsub
  simpa [Dict.keys] using hlength

theorem canonicalPath_unknown {id : String} (h : ¬t.IsNode id) (fuel : Nat) :
    t.canonicalPath fuel id =
      some (.error ⟨"KeyError","'Unknown topology node: " ++ id ++ "'"⟩) := by
  have hnode : Dict.get? t.nodesById id = none := Option.not_isSome_iff_eq_none.mp h
  simp [canonicalPath, pathToRoot, parentId, requireNode, hnode, Except.map, Except.bind]

theorem WellFormed.canonicalPath_node (h : t.WellFormed) {id : String} (hid : t.IsNode id) :
    ∃ names, t.NamePath id names ∧
      ∀ fuel, t.nodesById.length ≤ fuel → t.canonicalPath fuel id = some (.ok names) := by
  obtain ⟨ids,hp⟩ := h.exists_rootPath hid
  obtain ⟨above,rfl⟩ := hp.ends
  obtain ⟨names,hpath,hnames⟩ := hp.namePath (h.isNode_of_rootPath hp)
  refine ⟨names,hpath,fun fuel hfuel => ?_⟩
  have hlength := h.rootPath_length hp
  rw [List.length_append] at hlength
  rw [h.canonicalPath_rootPath hp (by omega), hnames]

theorem WellFormed.pathOf_node (h : t.WellFormed) {id : String} (hid : t.IsNode id) :
    ∃ names, t.NamePath id names ∧ t.pathOf id = .ok names := by
  obtain ⟨names,hpath,hends⟩ := h.canonicalPath_node hid
  exact ⟨names,hpath,by simp [pathOf, hends _ (Nat.le_refl _)]⟩

theorem pathOf_unknown {id : String} (h : ¬t.IsNode id) :
    t.pathOf id = .error ⟨"KeyError","'Unknown topology node: " ++ id ++ "'"⟩ := by
  simp [pathOf, canonicalPath_unknown h]

/-- The loop ends for every id within a round for every node. -/
theorem WellFormed.canonicalPath_ends (h : t.WellFormed) (id : String) {fuel : Nat}
    (hfuel : t.nodesById.length ≤ fuel) : t.canonicalPath fuel id = some (t.pathOf id) := by
  by_cases hid : t.IsNode id
  · obtain ⟨names,_,hends⟩ := h.canonicalPath_node hid
    simp [pathOf, hends _ hfuel, hends _ (Nat.le_refl _)]
  · rw [canonicalPath_unknown hid, pathOf_unknown hid]

end TopologySnapshot

/-- What a rung asks of the path of a candidate. -/
def PathsAgree (source path : List String) : TopologyMatchMode → Prop
  | .exactCanonicalPath => path = source
  | .exactLeafParentChain => ∃ above above' parent leaf,
      source = above ++ [parent,leaf] ∧ path = above' ++ [parent,leaf]
  | .exactLeafRootDepth => path.length = source.length ∧
      (∃ root, path.head? = some root ∧ source.head? = some root) ∧
        ∃ leaf, path.getLast? = some leaf ∧ source.getLast? = some leaf
  | .ambiguous | .noMatch => False

namespace TopologyComparison

theorem exists_leafPair {path : List String} (h : 2 ≤ path.length) :
    ∃ above parent leaf, path = above ++ [parent,leaf] ∧ leafPair path = [parent,leaf] := by
  have hlength : (leafPair path).length = 2 := by
    unfold leafPair
    rw [List.length_drop]
    omega
  obtain ⟨parent,leaf,hpair⟩ := List.length_eq_two.mp hlength
  refine ⟨path.take (path.length - 2),parent,leaf,?_,hpair⟩
  rw [← hpair]
  exact (List.take_append_drop _ path).symm

theorem leafPair_append (above : List String) (parent leaf : String) :
    leafPair (above ++ [parent,leaf]) = [parent,leaf] := by
  simp [leafPair]

theorem candidateMatchesMode_iff {source path : List String} {mode : TopologyMatchMode} :
    candidateMatchesMode source path mode = true ↔ PathsAgree source path mode := by
  cases mode with
  | exactCanonicalPath => simp [candidateMatchesMode, PathsAgree]
  | exactLeafParentChain =>
    simp only [candidateMatchesMode, PathsAgree, Bool.and_eq_true, decide_eq_true_eq,
      beq_iff_eq]
    constructor
    · rintro ⟨⟨hsource,hpath⟩,heq⟩
      obtain ⟨above,parent,leaf,hs,hpair⟩ := exists_leafPair hsource
      obtain ⟨above',parent',leaf',hp,hpair'⟩ := exists_leafPair hpath
      rw [hpair, hpair'] at heq
      exact ⟨above,above',parent,leaf,hs,heq ▸ hp⟩
    · rintro ⟨above,above',parent,leaf,rfl,rfl⟩
      rw [leafPair_append, leafPair_append]
      simp
  | exactLeafRootDepth =>
    simp only [candidateMatchesMode, PathsAgree, Bool.and_eq_true, beq_iff_eq]
    cases source with
    | nil => simp
    | cons first source =>
      cases path with
      | nil => simp
      | cons root path =>
        simp only [List.head?_cons, Option.some.injEq, List.isEmpty_cons, Bool.not_false,
          true_and]
        constructor
        · rintro ⟨⟨hleaf,hroot⟩,hdepth⟩
          refine ⟨hdepth,⟨first,hroot,rfl⟩,?_⟩
          exact ⟨_,List.getLast?_eq_some_getLast (List.cons_ne_nil _ _),
            hleaf.symm.trans (List.getLast?_eq_some_getLast (List.cons_ne_nil _ _))⟩
        · rintro ⟨hdepth,⟨_,rfl,rfl⟩,leaf,hleaf,hleaf'⟩
          exact ⟨⟨hleaf.trans hleaf'.symm,rfl⟩,hdepth⟩
  | ambiguous => simp [candidateMatchesMode, PathsAgree]
  | noMatch => simp [candidateMatchesMode, PathsAgree]

structure RungResult where
  mode : String
  matchedCandidateIds : List String
  matchedCount : Nat
  deriving DecidableEq, Repr

structure Evidence where
  sourceSegments : List String
  candidateIds : List String
  rungs : List RungResult
  deriving DecidableEq, Repr

/-- The result of a comparison with what explains it. -/
structure ExplainedResult extends Result where
  evidence : Evidence
  deriving DecidableEq, Repr

def Result.matchedCandidateId (result : Result) : Option String :=
  match result.matchedCandidateIds with
  | [id] => some id
  | _ => none

variable (canonicalPath : String → Except PyException (List String)) (source ids : List String)

def climbLadder : List TopologyMatchMode → List RungResult → Except PyException ExplainedResult
  | [], rungs => .ok ⟨⟨[],.noMatch,"no_topology_confirmation"⟩,⟨source,ids,rungs⟩⟩
  | mode::ladder, rungs => do
    let matched ← matchCandidates canonicalPath source mode ids
    let rungs := rungs ++ [⟨mode.value,matched,matched.length⟩]
    match matched with
    | [] => climbLadder ladder rungs
    | [id] => return ⟨⟨[id],mode,"resolved_by_" ++ mode.value⟩,⟨source,ids,rungs⟩⟩
    | matched => return ⟨⟨matched,.ambiguous,"ambiguous_on_" ++ mode.value⟩,⟨source,ids,rungs⟩⟩

/-- `compare_topology_candidates` with its evidence. -/
def compareTopologyCandidates (ladder : List TopologyMatchMode) :
    Except PyException ExplainedResult :=
  if source = [] ∨ ids = [] then
    .ok ⟨⟨[],.noMatch,"empty_source_or_candidates"⟩,⟨source,ids.eraseDups,[]⟩⟩
  else climbLadder canonicalPath source ids.eraseDups ladder []

variable {canonicalPath source ids}

theorem climbLadder_result (ladder : List TopologyMatchMode) (rungs : List RungResult) :
    (climbLadder canonicalPath source ids ladder rungs).map ExplainedResult.toResult =
      climb canonicalPath source ids ladder := by
  induction ladder generalizing rungs with
  | nil => rfl
  | cons mode ladder ih =>
    unfold climbLadder climb
    cases hmatched : matchCandidates canonicalPath source mode ids with
    | error exc => rfl
    | ok matched =>
      cases matched with
      | nil => exact ih _
      | cons id matched => cases matched <;> rfl

/-- The evidence does not take part in the decision. -/
theorem compareTopologyCandidates_result (ladder : List TopologyMatchMode) :
    (compareTopologyCandidates canonicalPath source ids ladder).map ExplainedResult.toResult =
      compare canonicalPath source ids ladder := by
  unfold compareTopologyCandidates compare
  split
  · rfl
  · exact climbLadder_result ladder []

theorem matchCandidates_known {names : String → List String}
    (h : ∀ id ∈ ids, canonicalPath id = .ok (names id)) (mode : TopologyMatchMode) :
    matchCandidates canonicalPath source mode ids =
      .ok (ids.filter fun id => candidateMatchesMode source (names id) mode) := by
  induction ids with
  | nil => rfl
  | cons id ids ih =>
    have hrest := ih fun other hother => h other (List.mem_cons_of_mem _ hother)
    simp only [matchCandidates, h id List.mem_cons_self, hrest, bind, Except.bind, pure,
      Except.pure, List.filter_cons]

theorem matchCandidates_unknown {id : String} {exc : PyException} (hid : id ∈ ids)
    (h : canonicalPath id = .error exc) (mode : TopologyMatchMode) :
    ∃ exc, matchCandidates canonicalPath source mode ids = .error exc := by
  induction ids with
  | nil => cases hid
  | cons first ids ih =>
    unfold matchCandidates
    cases hfirst : canonicalPath first with
    | error exc => exact ⟨exc,rfl⟩
    | ok path =>
      rcases List.mem_cons.mp hid with rfl | hid
      · cases h.symm.trans hfirst
      · obtain ⟨exc,hexc⟩ := ih hid
        exact ⟨exc,by simp [hexc, bind, Except.bind]⟩

def decision : Option (TopologyMatchMode × List String) → Result
  | none => ⟨[],.noMatch,"no_topology_confirmation"⟩
  | some (mode,[id]) => ⟨[id],mode,"resolved_by_" ++ mode.value⟩
  | some (mode,matched) => ⟨matched,.ambiguous,"ambiguous_on_" ++ mode.value⟩

/-- On candidates with a path, climbing is the decision of the first rung. -/
theorem climb_known {names : String → List String}
    (h : ∀ id ∈ ids, canonicalPath id = .ok (names id)) (ladder : List TopologyMatchMode) :
    climb canonicalPath source ids ladder = .ok (decision (firstRung
      (fun mode id => candidateMatchesMode source (names id) mode) ids ladder)) := by
  induction ladder with
  | nil => rfl
  | cons mode ladder ih =>
    unfold climb firstRung
    rw [matchCandidates_known h]
    generalize ids.filter (fun id => candidateMatchesMode source (names id) mode) = matched
    cases matched with
    | nil => exact ih
    | cons id matched => cases matched <;> rfl

/-- The same decision, up to the order in which it lists several matches. -/
structure SameOutcome (a b : Result) : Prop where
  mode : a.mode = b.mode
  reason : a.reason = b.reason
  matched : a.matchedCandidateId = b.matchedCandidateId
  listed : a.matchedCandidateIds.Perm b.matchedCandidateIds

theorem SameOutcome.refl (a : Result) : SameOutcome a a := ⟨rfl,rfl,rfl,.refl _⟩

theorem decision_perm {mode : TopologyMatchMode} {matched others : List String}
    (h : matched.Perm others) :
    SameOutcome (decision (some (mode,matched))) (decision (some (mode,others))) := by
  match matched, others with
  | [], [] => exact .refl _
  | [], _::_ => cases List.nil_perm.mp h
  | [id], others =>
    cases List.singleton_perm.mp h
    exact .refl _
  | _::_::_, [] => cases List.perm_nil.mp h
  | _::_::_, [other] => cases List.perm_singleton.mp h
  | _::_::_, _::_::_ => exact ⟨rfl,rfl,rfl,h⟩

end TopologyComparison

/-- The path of the candidate agrees with the path of the source at this rung. -/
def TopologySnapshot.Agrees (t : TopologySnapshot) (source : List String)
    (mode : TopologyMatchMode) (id : String) : Prop :=
  ∃ path, t.NamePath id path ∧ PathsAgree source path mode

namespace TopologyComparison

variable {t : TopologySnapshot} {source ids : List String} {ladder : List TopologyMatchMode}

def DecidesAt (t : TopologySnapshot) (source ids : List String) (ladder : List TopologyMatchMode)
    (mode : TopologyMatchMode) : Prop :=
  FirstRung (t.Agrees source) {id | id ∈ ids} ladder mode

/-- The first rung at which a candidate agrees decides: one candidate is matched, several are
ambiguous, and without such a rung nothing is confirmed. -/
structure Decides (t : TopologySnapshot) (source ids : List String)
    (ladder : List TopologyMatchMode) (result : Result) : Prop where
  matched : ∀ c, result.matchedCandidateId = some c ↔
    ∃ mode, DecidesAt t source ids ladder mode ∧ ∀ d ∈ ids, t.Agrees source mode d ↔ d = c
  mode : ∀ c mode, result.matchedCandidateId = some c → DecidesAt t source ids ladder mode →
    result.mode = mode
  ambiguous : result.mode = .ambiguous ↔ ∃ mode, DecidesAt t source ids ladder mode ∧
    ∃ c ∈ ids, ∃ d ∈ ids, c ≠ d ∧ t.Agrees source mode c ∧ t.Agrees source mode d
  unconfirmed : result.mode = .noMatch ↔ ∀ mode, ¬DecidesAt t source ids ladder mode

/-- What the comparison of these candidates should do: decide, and decide the same for every
list of the same candidates. -/
def ComparesWell (t : TopologySnapshot) (source ids : List String)
    (ladder : List TopologyMatchMode) : Prop :=
  ∃ result, compareTopologyCandidates t.pathOf source ids ladder = .ok result ∧
    Decides t source ids ladder result.toResult ∧
    ∀ others, (∀ id, id ∈ others ↔ id ∈ ids) →
      ∃ result', compareTopologyCandidates t.pathOf source others ladder = .ok result' ∧
        SameOutcome result'.toResult result.toResult

theorem not_agrees_nil {mode : TopologyMatchMode} {id : String} : ¬t.Agrees [] mode id := by
  rintro ⟨path,hpath,hagree⟩
  cases mode with
  | exactCanonicalPath => exact hpath.ne_nil hagree
  | exactLeafParentChain =>
    obtain ⟨above,_,_,_,hsource,_⟩ := hagree
    simp at hsource
  | exactLeafRootDepth =>
    obtain ⟨_,⟨_,_,hroot⟩,_⟩ := hagree
    cases hroot
  | ambiguous => exact hagree
  | noMatch => exact hagree

theorem not_agrees_ambiguous {id : String} : ¬t.Agrees source .ambiguous id := by
  rintro ⟨_,_,hagree⟩
  exact hagree

theorem not_agrees_noMatch {id : String} : ¬t.Agrees source .noMatch id := by
  rintro ⟨_,_,hagree⟩
  exact hagree

theorem DecidesAt.mode_ne {mode : TopologyMatchMode} (h : DecidesAt t source ids ladder mode) :
    mode ≠ .ambiguous ∧ mode ≠ .noMatch := by
  obtain ⟨id,_,hagree⟩ := h.exists_mem
  constructor
  · rintro rfl
    exact not_agrees_ambiguous hagree
  · rintro rfl
    exact not_agrees_noMatch hagree

/-- Where no rung decides, the answer without a match is right. -/
theorem decides_none (h : ∀ mode, ¬DecidesAt t source ids ladder mode) (reason : String) :
    Decides t source ids ladder ⟨[],.noMatch,reason⟩ where
  matched c := by
    apply iff_of_false (by simp [Result.matchedCandidateId])
    rintro ⟨mode,hmode,_⟩
    exact h mode hmode
  mode c mode hc := by cases hc
  ambiguous := by
    apply iff_of_false (by simp)
    rintro ⟨mode,hmode,_⟩
    exact h mode hmode
  unconfirmed := iff_of_true rfl h

theorem decides_some {mode : TopologyMatchMode} {matched : List String}
    (h : DecidesAt t source ids ladder mode) (hnodup : matched.Nodup)
    (hmatched : ∀ id, id ∈ matched ↔ id ∈ ids ∧ t.Agrees source mode id) :
    Decides t source ids ladder (decision (some (mode,matched))) := by
  obtain ⟨hambiguous,hnoMatch⟩ := h.mode_ne
  have honly : ∀ mode', DecidesAt t source ids ladder mode' → mode' = mode :=
    fun mode' h' => h'.unique h
  match matched with
  | [] =>
    obtain ⟨id,hid,hagree⟩ := h.exists_mem
    cases (hmatched id).mpr ⟨hid,hagree⟩
  | [id] =>
    have hone : ∀ d ∈ ids, t.Agrees source mode d ↔ d = id := by
      intro d hd
      have hiff := hmatched d
      rw [List.mem_singleton] at hiff
      exact ⟨fun hagree => hiff.mpr ⟨hd,hagree⟩,fun heq => (hiff.mp heq).2⟩
    refine ⟨fun c => ?_,fun c mode' _ h' => (honly mode' h').symm,?_,?_⟩
    · constructor
      · intro hc
        cases hc
        exact ⟨mode,h,hone⟩
      · rintro ⟨mode',h',hc⟩
        rw [honly mode' h'] at hc
        have hid := (hmatched id).mp List.mem_cons_self
        rw [(hc id hid.1).mp hid.2]
        rfl
    · apply iff_of_false hambiguous
      rintro ⟨mode',h',c,hc,d,hd,hne,hagree,hagree'⟩
      rw [honly mode' h'] at hagree hagree'
      exact hne (((hone c hc).mp hagree).trans ((hone d hd).mp hagree').symm)
    · exact iff_of_false hnoMatch fun hnone => hnone mode h
  | a::b::rest =>
    have ha := (hmatched a).mp List.mem_cons_self
    have hb := (hmatched b).mp (List.mem_cons_of_mem _ List.mem_cons_self)
    have hne : a ≠ b := by
      rintro rfl
      exact (List.nodup_cons.mp hnodup).1 List.mem_cons_self
    refine ⟨fun c => ?_,fun c mode' hc => (by cases hc),?_,?_⟩
    · apply iff_of_false (by simp [decision, Result.matchedCandidateId])
      rintro ⟨mode',h',hc⟩
      rw [honly mode' h'] at hc
      exact hne (((hc a ha.1).mp ha.2).trans ((hc b hb.1).mp hb.2).symm)
    · exact iff_of_true rfl ⟨mode,h,a,ha.1,b,hb.1,hne,ha.2,hb.2⟩
    · exact iff_of_false (by simp [decision]) fun hnone => hnone mode h

theorem eraseDups_perm {others : List String} (h : ∀ id, id ∈ others ↔ id ∈ ids) :
    others.eraseDups.Perm ids.eraseDups := by
  apply (List.perm_ext_iff_of_nodup (nodup_eraseDups _) (nodup_eraseDups _)).mpr
  intro id
  rw [List.mem_eraseDups, List.mem_eraseDups]
  exact h id

theorem exists_of_result {canonicalPath : String → Except PyException (List String)}
    {result : Result} (h : compare canonicalPath source ids ladder = .ok result) :
    ∃ explained, compareTopologyCandidates canonicalPath source ids ladder = .ok explained ∧
      explained.toResult = result := by
  rw [← compareTopologyCandidates_result] at h
  cases hrun : compareTopologyCandidates canonicalPath source ids ladder with
  | error exc =>
    rw [hrun] at h
    cases h
  | ok explained =>
    rw [hrun] at h
    exact ⟨explained,rfl,Except.ok.inj h⟩

theorem exists_canonicalNames (ht : t.WellFormed) :
    ∃ names : String → List String, ∀ id, t.IsNode id →
      t.NamePath id (names id) ∧ t.pathOf id = .ok (names id) := by
  have hpaths : ∀ id, ∃ names, t.IsNode id → t.NamePath id names ∧ t.pathOf id = .ok names := by
    intro id
    by_cases hid : t.IsNode id
    · obtain ⟨names,hpath⟩ := ht.pathOf_node hid
      exact ⟨names,fun _ => hpath⟩
    · exact ⟨[],fun h => absurd h hid⟩
  exact Classical.axiomOfChoice hpaths

theorem matches_iff_agrees {id : String} {names : List String} (hpath : t.NamePath id names)
    (mode : TopologyMatchMode) :
    candidateMatchesMode source names mode = true ↔ t.Agrees source mode id := by
  rw [candidateMatchesMode_iff]
  constructor
  · intro hagree
    exact ⟨names,hpath,hagree⟩
  · rintro ⟨path,hpath',hagree⟩
    rwa [hpath.unique hpath']

/-- A test that answers as the rungs do for every candidate finds the deciding rung. -/
theorem firstRung_iff_decidesAt {agrees : TopologyMatchMode → String → Bool}
    (h : ∀ mode, ∀ id ∈ ids, agrees mode id = true ↔ t.Agrees source mode id)
    (mode : TopologyMatchMode) :
    FirstRung (fun mode id => agrees mode id = true) {id | id ∈ ids.eraseDups} ladder mode ↔
      DecidesAt t source ids ladder mode := by
  constructor
  · exact FirstRung.congr (fun id => List.mem_eraseDups) fun q id hid =>
      h q id (List.mem_eraseDups.mp hid)
  · exact FirstRung.congr (fun id => List.mem_eraseDups.symm) fun q id hid => (h q id hid).symm

theorem decides_firstRung {agrees : TopologyMatchMode → String → Bool}
    (h : ∀ mode, ∀ id ∈ ids, agrees mode id = true ↔ t.Agrees source mode id) :
    Decides t source ids ladder (decision (firstRung agrees ids.eraseDups ladder)) := by
  cases hdecide : firstRung agrees ids.eraseDups ladder with
  | none =>
    apply decides_none
    intro mode hmode
    exact firstRung_none_iff.mp hdecide mode ((firstRung_iff_decidesAt h mode).mpr hmode)
  | some decided =>
    obtain ⟨mode,matched⟩ := decided
    obtain ⟨hmode,rfl⟩ := firstRung_some hdecide
    apply decides_some ((firstRung_iff_decidesAt h mode).mp hmode)
      ((nodup_eraseDups ids).filter _)
    intro id
    rw [List.mem_filter, List.mem_eraseDups]
    exact and_congr_right (h mode id)

/-- The decision about known candidates is that of the rungs. -/
theorem compare_known (ht : t.WellFormed) (hsource : source ≠ []) (hne : ids ≠ [])
    (hknown : ∀ id ∈ ids, t.IsNode id) :
    ∃ first, compare t.pathOf source ids ladder = .ok (decision first) ∧
      Decides t source ids ladder (decision first) ∧
      ∀ others, (∀ id, id ∈ others ↔ id ∈ ids) → ∃ first',
        compare t.pathOf source others ladder = .ok (decision first') ∧
          SameOutcome (decision first') (decision first) := by
  obtain ⟨names,hnames⟩ := exists_canonicalNames ht
  let agrees := fun mode id => candidateMatchesMode source (names id) mode
  have hagrees : ∀ mode, ∀ id ∈ ids, agrees mode id = true ↔ t.Agrees source mode id :=
    fun mode id hid => matches_iff_agrees (hnames id (hknown id hid)).1 mode
  have hrun : ∀ others : List String, (∀ id, id ∈ others ↔ id ∈ ids) →
      compare t.pathOf source others ladder =
        .ok (decision (firstRung agrees others.eraseDups ladder)) := by
    intro others hothers
    have hsome : others ≠ [] := by
      rintro rfl
      obtain ⟨id,hid⟩ := List.exists_mem_of_ne_nil ids hne
      cases (hothers id).mpr hid
    unfold compare
    rw [if_neg (by simp [hsource, hsome])]
    apply climb_known
    intro id hid
    exact (hnames id (hknown id ((hothers id).mp (List.mem_eraseDups.mp hid)))).2
  refine ⟨_,hrun ids fun _ => Iff.rfl,decides_firstRung hagrees,fun others hothers =>
    ⟨_,hrun others hothers,?_⟩⟩
  rcases @firstRung_perm _ _ agrees _ _ (eraseDups_perm hothers) ladder with
    ⟨hnone,hnone'⟩ | ⟨mode,matched,matched',hsome,hsome',hperm⟩
  · rw [hnone, hnone']
    exact .refl _
  · rw [hsome, hsome']
    exact decision_perm hperm

theorem compare_unknown {id : String} (hid : id ∈ ids) (hunknown : ¬t.IsNode id)
    (hsource : source ≠ []) (hladder : ladder ≠ []) :
    ∃ exc, compare t.pathOf source ids ladder = .error exc := by
  have hne : ids ≠ [] := List.ne_nil_of_mem hid
  obtain ⟨mode,rest,rfl⟩ := List.exists_cons_of_ne_nil hladder
  have hfails : ∃ exc, matchCandidates t.pathOf source mode ids.eraseDups = .error exc :=
    matchCandidates_unknown (List.mem_eraseDups.mpr hid) (TopologySnapshot.pathOf_unknown hunknown)
      mode
  obtain ⟨exc,hexc⟩ := hfails
  refine ⟨exc,?_⟩
  unfold compare
  rw [if_neg (by simp [hsource, hne])]
  simp [climb, hexc, bind, Except.bind]

theorem comparesWell_of_compare {result : Result}
    (h : compare t.pathOf source ids ladder = .ok result)
    (hdecides : Decides t source ids ladder result)
    (hothers : ∀ others, (∀ id, id ∈ others ↔ id ∈ ids) → ∃ result',
      compare t.pathOf source others ladder = .ok result' ∧ SameOutcome result' result) :
    ComparesWell t source ids ladder := by
  obtain ⟨explained,hexplained,rfl⟩ := exists_of_result h
  refine ⟨explained,hexplained,hdecides,fun others hids => ?_⟩
  obtain ⟨result',hcompare,hsame⟩ := hothers others hids
  obtain ⟨explained',hexplained',rfl⟩ := exists_of_result hcompare
  exact ⟨explained',hexplained',hsame⟩

theorem comparesWell_empty (h : source = [] ∨ ids = []) : ComparesWell t source ids ladder := by
  have hempty : ∀ others : List String, (∀ id, id ∈ others ↔ id ∈ ids) →
      compare t.pathOf source others ladder =
        .ok ⟨[],.noMatch,"empty_source_or_candidates"⟩ := by
    intro others hothers
    unfold compare
    rw [if_pos]
    apply h.imp_right
    rintro rfl
    exact List.eq_nil_iff_forall_not_mem.mpr fun id hid => by cases (hothers id).mp hid
  apply comparesWell_of_compare (hempty ids fun _ => Iff.rfl)
  · apply decides_none
    intro mode hmode
    obtain ⟨id,hid,hagree⟩ := hmode.exists_mem
    rcases h with rfl | rfl
    · exact not_agrees_nil hagree
    · cases hid
  · intro others hothers
    exact ⟨_,hempty others hothers,.refl _⟩

theorem comparesWell_no_rung (hsource : source ≠ []) (hids : ids ≠ []) :
    ComparesWell t source ids [] := by
  have hrun : ∀ others : List String, (∀ id, id ∈ others ↔ id ∈ ids) →
      compare t.pathOf source others [] = .ok ⟨[],.noMatch,"no_topology_confirmation"⟩ := by
    intro others hothers
    have hsome : others ≠ [] := by
      rintro rfl
      obtain ⟨id,hid⟩ := List.exists_mem_of_ne_nil ids hids
      cases (hothers id).mpr hid
    unfold compare
    rw [if_neg (by simp [hsource, hsome])]
    rfl
  apply comparesWell_of_compare (hrun ids fun _ => Iff.rfl)
  · exact decides_none (fun mode hmode => not_firstRung_nil hmode) _
  · intro others hothers
    exact ⟨_,hrun others hothers,.refl _⟩

theorem comparesWell_of (ht : t.WellFormed)
    (h : source = [] ∨ ladder = [] ∨ ∀ id ∈ ids, t.IsNode id) :
    ComparesWell t source ids ladder := by
  by_cases hempty : source = [] ∨ ids = []
  · exact comparesWell_empty hempty
  · obtain ⟨hsource,hids⟩ := not_or.mp hempty
    rcases h with h | h | hknown
    · exact absurd h hsource
    · rw [h]
      exact comparesWell_no_rung hsource hids
    · obtain ⟨first,hrun,hdecides,hothers⟩ := compare_known ht hsource hids hknown
      apply comparesWell_of_compare hrun hdecides
      intro others hsame
      obtain ⟨first',hrun',houtcome⟩ := hothers others hsame
      exact ⟨_,hrun',houtcome⟩

/-- A comparison that returns asked for no path, or knew every candidate. -/
theorem known_of_run {result : ExplainedResult}
    (h : compareTopologyCandidates t.pathOf source ids ladder = .ok result) :
    source = [] ∨ ladder = [] ∨ ∀ id ∈ ids, t.IsNode id := by
  by_contra hnot
  simp only [not_or, not_forall] at hnot
  obtain ⟨hsource,hladder,id,hid,hunknown⟩ := hnot
  obtain ⟨exc,hexc⟩ := compare_unknown hid hunknown hsource hladder
  rw [← compareTopologyCandidates_result, h] at hexc
  cases hexc

theorem decides_of_run (ht : t.WellFormed) {result : ExplainedResult}
    (h : compareTopologyCandidates t.pathOf source ids ladder = .ok result) :
    Decides t source ids ladder result.toResult := by
  obtain ⟨result',hrun,hdecides,_⟩ := comparesWell_of ht (known_of_run h)
  rw [h] at hrun
  cases hrun
  exact hdecides

/-- A matched candidate is one of those compared. -/
theorem Decides.mem {result : Result} (h : Decides t source ids ladder result) {c : String}
    (hc : result.matchedCandidateId = some c) : c ∈ ids := by
  obtain ⟨mode,hmode,honly⟩ := (h.matched c).mp hc
  obtain ⟨d,hd,hagree⟩ := hmode.exists_mem
  exact (honly d hd).mp hagree ▸ hd

/-- Without a match the mode says why. -/
theorem Decides.unmatched {result : Result} (h : Decides t source ids ladder result)
    (hnone : result.matchedCandidateId = none) :
    result.mode = .ambiguous ∨ result.mode = .noMatch := by
  by_cases hdecides : ∃ mode, DecidesAt t source ids ladder mode
  · obtain ⟨mode,hmode⟩ := hdecides
    obtain ⟨c,hc,hagree⟩ := hmode.exists_mem
    apply Or.inl
    apply h.ambiguous.mpr
    by_contra hnot
    have honly : ∀ d ∈ ids, t.Agrees source mode d ↔ d = c := by
      intro d hd
      constructor
      · intro hagree'
        by_contra hne
        exact hnot ⟨mode,hmode,d,hd,c,hc,hne,hagree',hagree⟩
      · rintro rfl
        exact hagree
    have hmatched := (h.matched c).mpr ⟨mode,hmode,honly⟩
    rw [hnone] at hmatched
    cases hmatched
  · exact .inr (h.unconfirmed.mpr fun mode hmode => hdecides ⟨mode,hmode⟩)

/-- On a built tree the comparison does what its rungs say exactly when it asks for no path, or
every candidate is a node of the tree. -/
theorem compares_well_iff (builder : TargetHierarchyTopologyBuilder)
    (rows : List TargetHierarchyRow) (source ids : List String)
    (ladder : List TopologyMatchMode) :
    (∀ id fuel, (builder.build rows).1.nodesById.length ≤ fuel →
      (builder.build rows).1.canonicalPath fuel id = some ((builder.build rows).1.pathOf id)) ∧
    (ComparesWell (builder.build rows).1 source ids ladder ↔
      source = [] ∨ ladder = [] ∨ ∀ id ∈ ids, (builder.build rows).1.IsNode id) := by
  have ht : (builder.build rows).1.WellFormed := builder.build_snapshot_wellFormed rows
  refine ⟨fun id fuel hfuel => ht.canonicalPath_ends id hfuel,?_,comparesWell_of ht⟩
  rintro ⟨result,hrun,_⟩
  exact known_of_run hrun

def headOffice : List TargetHierarchyRow := [⟨"10",none,"head office"⟩,⟨"20",some "10","branch"⟩]

/-- An id that the tree does not know keeps the candidate that agrees from being matched. -/
theorem unknown_candidate_raises :
    compareTopologyCandidates (TargetHierarchyTopologyBuilder.build ⟨[]⟩ headOffice).1.pathOf
      ["head office","branch"] ["20","99"] [.exactCanonicalPath] =
        .error ⟨"KeyError","'Unknown topology node: 99'"⟩ := by decide

example : (compareTopologyCandidates
    (TargetHierarchyTopologyBuilder.build ⟨[]⟩ headOffice).1.pathOf ["head office","branch"]
      ["20","10"] [.exactCanonicalPath]).map (fun result => result.matchedCandidateId) =
        .ok (some "20") := by decide

end TopologyComparison
end NexusEtl
