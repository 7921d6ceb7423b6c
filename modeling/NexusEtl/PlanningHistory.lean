import NexusEtl.MatchCore
import NexusEtl.PendingReplay

/-!
# Planning runs as histories

A planning run does to the store what a history of its rows and sweeps does, so
the store after it is reachable again. The rows of the source come from the
matcher, whose results can always be written and read back.
-/

set_option autoImplicit false

namespace NexusEtl
open NexusEtl.Library

/-- A reason and a mode that can be read back. -/
structure MatchState.Named (state : MatchState) : Prop where
  reason : state.reason ≠ ""
  mode : state.mode ≠ ""

namespace MatchCore

variable {core : MatchCore}

/-- The identity of a row comes from a rule that found a value for it. -/
theorem matchIdentity_of {P : Identity → Prop} {row : Fields} {ctx : MatchContext}
    {rules : List IdentityRule} {start : Option Identity} {identity : Identity}
    {existing : Option Fields}
    (hP : ∀ rule ∈ rules, ∀ i, rule.buildIdentity row ctx = .ok i → i.primaryValue ≠ "" → P i)
    (hstart : ∀ i ∈ start, P i)
    (h : core.matchIdentity row ctx rules start = .ok (.ok (identity,existing))) :
    P identity := by
  induction rules generalizing start with
  | nil =>
    cases start with
    | none => cases h
    | some i =>
      cases h
      exact hstart _ rfl
  | cons rule rules ih =>
    have hrest := fun r hr => hP r (List.mem_cons_of_mem _ hr)
    simp only [matchIdentity, bind, Except.bind, pure, Except.pure] at h
    split at h
    · cases h
    · rename_i candidate hcandidate
      split at h
      · exact ih hrest hstart h
      · rename_i hvalue
        have hP' : P candidate := hP rule List.mem_cons_self candidate hcandidate hvalue
        split at h
        · cases h
        · split at h
          · refine ih hrest ?_ h
            rintro i ⟨⟩
            cases start with
            | none => exact hP'
            | some i => exact hstart i rfl
          · cases h
            exact hP'
          · cases h

theorem matchWithFuzzy_named {row desired : Fields} {identity : Identity} {state : MatchState}
    (h : core.matchWithFuzzy row desired identity = .ok state) : state.Named := by
  simp only [matchWithFuzzy, bind, Except.bind, pure, Except.pure] at h
  split at h
  · cases h
  · split at h
    · cases h
      exact ⟨by simp [fuzzyState],by simp [fuzzyState]⟩
    · cases h
      refine ⟨?_,by simp [fuzzyState]⟩
      simp only [fuzzyState]
      repeat' split
      all_goals simp

theorem matchState_named {row desired : Fields} {identity : Identity} {existing : Option Fields}
    {state : MatchState} (h : core.matchState row desired identity existing = .ok state) :
    state.Named := by
  unfold matchState at h
  split at h
  · cases h
    exact ⟨by simp [exactState],by simp [exactState]⟩
  · split at h
    · exact matchWithFuzzy_named h
    · cases h
      exact ⟨by simp [notFoundState],by simp [notFoundState]⟩

theorem refineWith_named {state : MatchState} {candidates : Dict String Fields}
    {result : TopologyMatchResult} (h : state.Named) :
    (refineWith state candidates result).Named := by
  unfold refineWith
  split
  · exact ⟨by cases result.mode <;> simp [topologyReasonCode],h.mode⟩
  · split
    · exact ⟨by simp,h.mode⟩
    · split
      · exact ⟨by simp,h.mode⟩
      · exact h

theorem refineWithTopology_named {enriched : TransformResult Fields} {state refined : MatchState}
    {topology : Option TopologyMatchResult} (h : state.Named)
    (hr : core.refineWithTopology enriched state = .ok (.ok (refined,topology))) :
    refined.Named := by
  unfold refineWithTopology at hr
  split at hr
  · split at hr
    · cases hr
      exact h
    · simp only [bind, Except.bind, pure, Except.pure] at hr
      split at hr
      · cases hr
      · split at hr
        · split at hr
          · cases hr
          · cases hr
            exact h
        · split at hr
          · cases hr
            exact h
          · split at hr
            · cases hr
            · cases hr
              exact refineWith_named h
  · cases hr
    exact h

theorem matchDecision_named {state : MatchState} (h : state.Named) (identity : Identity)
    (topology : Option TopologyMatchResult) :
    (matchDecision state identity topology).reasonCode ≠ "" ∧
      (∀ c ∈ (matchDecision state identity topology).selected, c.matchMode ≠ "") ∧
      ∀ c ∈ (matchDecision state identity topology).candidates, c.matchMode ≠ "" := by
  have hselected : ∀ c ∈ (matchDecision state identity topology).selected, c.matchMode ≠ "" := by
    intro c hc
    simp only [matchDecision] at hc
    split at hc
    · obtain ⟨record,_,rfl⟩ := Option.map_eq_some_iff.mp hc
      simp only
      repeat' split
      · rename_i result _
        cases result.mode <;> simp [TopologyMatchMode.value]
      · exact h.mode
      · exact h.mode
    · cases hc
  refine ⟨h.reason,hselected,fun c hc => ?_⟩
  by_cases htop : toMatchCandidates state.top state.mode = []
  · simp only [matchDecision, htop, if_true] at hc
    exact hselected c (Option.mem_toList.mp hc)
  · simp only [matchDecision, htop, if_false] at hc
    obtain ⟨top,_,rfl⟩ := List.mem_map.mp hc
    exact h.mode

/-- What the rules and the source promise so that a matched row can be stored. -/
structure Readable (core : MatchCore) (enriched : TransformResult Fields) : Prop where
  lineNo : (buildMatchContext enriched).rowRef.lineNo.isSome
  rowId : (buildMatchContext enriched).rowRef.rowId ≠ ""
  hash : ∀ fields, core.hash fields ≠ ""
  primary : ∀ rule ∈ core.matchingRules.identityRules, ∀ row ctx i,
    rule.buildIdentity row ctx = .ok i → i.primary ≠ ""
  links : ∀ row ctx links, core.buildLinks row ctx = .ok links →
    ∀ link ∈ links, link.2.primary ≠ ""

/-- A row that the matcher emits can be written as a payload and read back. -/
theorem matchRow_replayable {enriched : TransformResult Fields}
    {matched : TransformResult MatchedRow} {row : MatchedRow} (hread : core.Readable enriched)
    (h : core.matchRow enriched = .ok matched) (hrow : matched.row = some row) :
    PendingCodec.Replayable row := by
  rcases core.matchRow_cases h with ⟨errs,_,rfl⟩ | ⟨source,identity,state,topology,links,desired,hok⟩
  · cases hrow
  · obtain ⟨existing,first,hid,hfirst,href⟩ := hok.found
    obtain rfl : core.matchedRow source desired (buildMatchContext enriched) identity state topology
        links = row := by simpa [hok.result] using hrow
    obtain ⟨hprimary,hvalue⟩ := matchIdentity_of (P := fun i => i.primary ≠ "" ∧ i.primaryValue ≠ "")
      (fun rule hr i hi hv => ⟨hread.primary rule hr _ _ i hi,hv⟩) (by simp) hid
    obtain ⟨hreason,hselected,hcandidates⟩ := matchDecision_named
      (refineWithTopology_named (matchState_named hfirst) href) identity topology
    exact ⟨hread.lineNo,hread.rowId,hprimary,hvalue,hread.hash _,hreason,hselected,hcandidates,
      hread.links _ _ links hok.linked⟩

end MatchCore

/-- A row that was read back can be written again. -/
theorem PendingCodec.Replayable.replayed {matched : MatchedRow}
    (h : PendingCodec.Replayable matched) (desired : Fields) :
    PendingCodec.Replayable (PendingCodec.replayedRow matched desired) :=
  ⟨h.lineNo,h.rowId,h.primary,h.primaryValue,h.fingerprint,h.reasonCode,h.selected,h.candidates,
    h.links⟩

/-- The row of a result, as a step of a history. -/
def ResolveStage.stepOf (stage : ResolveStage) (dataset source : String) (clock : Clock)
    (m : TransformResult MatchedRow) (row : MatchedRow) (h : PendingCodec.Replayable row) :
    RowStep :=
  ⟨dataset,source,stage.resolver,stage.callOf m row clock,h⟩

/-- The events of a planning run of a dataset. -/
def OfRun (dataset : String) : Event → Prop
  | .resolve r => r.dataset = dataset
  | .sweep _ _ => True
  | _ => False

namespace World

/-- Planning rows that can be stored moves the store along a history of the run. -/
theorem resolveStream_history (stage : ResolveStage) (dataset source : String)
    (schedule : Nat → Tick) (n : Nat) (w : World) (rows : List (TransformResult MatchedRow))
    (h : ∀ m ∈ rows, ∀ row ∈ m.row, PendingCodec.Replayable row) :
    ∃ es, (∀ e ∈ es, OfRun dataset e) ∧
      (run World.step w es).db = (stage.resolveStream schedule n w.db rows).2 := by
  induction rows generalizing n w with
  | nil => exact ⟨[],by simp,rfl⟩
  | cons m rows ih =>
    have hrow : ∃ es, (∀ e ∈ es, OfRun dataset e) ∧
        (run World.step w es).db = (stage.resolveRow (schedule n).clock w.db m).2 := by
      cases hm : m.row with
      | none => exact ⟨[],by simp,by simp [run, ResolveStage.resolveRow, hm]⟩
      | some row =>
        exact ⟨[.resolve (stage.stepOf dataset source (schedule n).clock m row
            (h m List.mem_cons_self row hm))],by simp [OfRun, ResolveStage.stepOf],
          by simp [run, step, outcome, ResolveStage.stepOf, ResolveStage.resolveRow, hm]⟩
    have hsweep : ∀ v : World, ∃ es, (∀ e ∈ es, OfRun dataset e) ∧
        (run World.step v es).db = sweepTick (schedule n) v.db := by
      intro v
      cases ht : (schedule n).sweep with
      | none => exact ⟨[],by simp,by simp [run, sweepTick, ht]⟩
      | some sweep => exact ⟨[.sweep sweep.1 sweep.2],by simp [OfRun],
          by simp [run, step, withPending, sweepTick, ht]⟩
    obtain ⟨es,hes,hdb⟩ := hrow
    obtain ⟨fs,hfs,hdb'⟩ := hsweep (run World.step w es)
    obtain ⟨gs,hgs,hdb''⟩ := ih (n+1) (run World.step (run World.step w es) fs)
      fun m' hm' => h m' (List.mem_cons_of_mem _ hm')
    refine ⟨es ++ fs ++ gs,?_,?_⟩
    · intro e he
      rcases List.mem_append.mp he with he | he
      · rcases List.mem_append.mp he with he | he
        · exact hes e he
        · exact hfs e he
      · exact hgs e he
    · rw [run_append, run_append, hdb'', hdb', hdb]
      rfl

/-- A planning run takes a reachable store to a reachable store. -/
theorem iterResolved_history (es : List Event) (resolver : ResolveCore) (catalog : ErrorCatalog)
    (dataset source : String) (schedule : Nat → Tick)
    {stream : List (TransformResult MatchedRow)}
    (h : ∀ m ∈ stream, ∀ row ∈ m.row, PendingCodec.Replayable row) :
    ∃ planned fs, iterResolved resolver catalog dataset schedule (after es).db stream =
        .ok planned ∧ (∀ e ∈ fs, OfRun dataset e) ∧ (after (es ++ fs)).db = planned.db := by
  obtain ⟨replayed,hload,hall⟩ := (after_sound es).load dataset
  have hreplayed : ∀ m ∈ replayed, ∀ row ∈ m.row, PendingCodec.Replayable row := by
    intro m hm row hrow
    obtain ⟨_,_,matched,desired,_,hr,_,_,rfl⟩ := PendingCodec.exists_loaded hall hm
    cases hrow
    exact hr.replayed desired
  obtain ⟨fs,hfs,hdb⟩ := resolveStream_history (planningStage resolver catalog stream) dataset
    source schedule 0 (after es) (stream ++ replayed) fun m hm => by
      rcases List.mem_append.mp hm with hm | hm
      · exact h m hm
      · exact hreplayed m hm
  refine ⟨_,fs,iterResolved_of_load _ _ hload schedule stream,hfs,?_⟩
  rw [after, run_append]
  exact hdb

end World

section Samples

/-- The lookups of a cache that holds the given records. -/
def findIn (records : List Fields) (_ : String) (filter : Fields) (_ : Bool) :
    Except PyException (List Fields) :=
  .ok (records.filter fun record =>
    filter.all fun kv => Value.pyEq (Fields.read record kv.1) kv.2)

/-- A rule that identifies a row by one of its fields. -/
def fieldRule (name : String) : IdentityRule :=
  ⟨name,fun row _ => .ok ⟨name,match Fields.read row name with
    | .str s => [(name,s)]
    | _ => []⟩⟩

def fieldMatcher (names : List String) (records : List Fields) : MatchCore :=
  { dataset := "employees"
    find := findIn records
    matchingRules := { identityRules := names.map fieldRule }
    buildDesiredState := fun row _ => .ok (row.filter fun kv => kv.1 ≠ "target_id")
    hash := fun fields => Text.join " " (fields.map fun kv => kv.1 ++ "=" ++ kv.2.pyStr)
    includeDeleted := false
    catalog := []
    topologyServices := none }

/-- An enriched row of the source. -/
def sourceRow (lineNo : Int) (rowId : String) (row : Fields) : TransformResult Fields :=
  { record := ⟨lineNo,rowId,[]⟩, row := some row, rowRef := some ⟨some lineNo,rowId,none,none⟩
    matchKey := some rowId, metadata := [], secretCandidates := [], errors := []
    warnings := [] }

end Samples
end NexusEtl
