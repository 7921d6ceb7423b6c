import NexusEtl.TransformStages

/-!
# Where the plaintext of a secret goes

A secret value of a run is a text held, in some state of the operation loop, as
a secret candidate or as the row value of a field listed as secret. Every write
is logged with its old and new value, so the audit events in the metadata keep
what the clearing step removes from the row and from the candidates.
-/

set_option autoImplicit false

namespace NexusEtl
open NexusEtl.Library

namespace Value

theorem occurs_self (v : Value) : occurs v.pyStr v = true := by
  cases v <;> simp [occurs]

theorem occursList_of_mem {s : String} {v : Value} {items : List Value} (hv : v ∈ items)
    (h : occurs s v = true) : occursList s items = true := by
  induction items with
  | nil => cases hv
  | cons w items ih =>
    rcases List.mem_cons.mp hv with rfl | hv
    · simp [occursList, h]
    · simp [occursList, ih hv]

theorem occursFields_of_mem {s k : String} {v : Value} {fields : List (String × Value)}
    (hv : (k,v) ∈ fields) (h : occurs s v = true) : occursFields s fields = true := by
  induction fields with
  | nil => cases hv
  | cons p fields ih =>
    obtain ⟨l,w⟩ := p
    rcases List.mem_cons.mp hv with he | hv
    · cases he
      simp [occursFields, h]
    · simp [occursFields, ih hv]

theorem occurs_dict_of_mem {s k : String} {v : Value} {fields : Fields} (hv : (k,v) ∈ fields)
    (h : occurs s v = true) : occurs s (.dict fields) = true := by
  simp [occurs, occursFields_of_mem hv h]

theorem occurs_list_of_mem {s : String} {v : Value} {items : List Value} (hv : v ∈ items)
    (h : occurs s v = true) : occurs s (.list items) = true := by
  simp [occurs, occursList_of_mem hv h]

end Value

/-- A value that is not missing is an entry of the row. -/
theorem Fields.mem_of_read {row : Fields} {name : String} {v : Value}
    (h : Fields.read row name = v) (hv : v.isNull = false) : (name,v) ∈ row := by
  unfold Fields.read at h
  cases hg : Dict.get? row name with
  | none =>
    rw [hg] at h
    subst h
    simp [Value.isNull] at hv
  | some w =>
    rw [hg, Option.getD_some] at h
    exact h ▸ Dict.mem_of_get? hg

/-- The places in which the plaintext may still be found after the enrich stage. -/
def plaintextLeft (out : Enriching) (s : String) : Bool :=
  (out.row.any fun row => Value.occurs s (.dict row)) ||
    (Dict.values out.secretCandidates).contains s || Value.occurs s (.dict out.metadata)

/-- A text held as a candidate, or as the row value of a field listed as secret. -/
def HoldsSecret (listed : List String) (builder : Enriching) (s : String) : Prop :=
  (∃ f, Dict.get? builder.secretCandidates f = some s) ∨
    ∃ f ∈ listed, ∃ row, builder.row = some row ∧ (Fields.read row f).isNull = false ∧
      s = (Fields.read row f).pyStr

namespace EnricherCore

variable {D : Type} (core : EnricherCore D) (deps : D)

/-- The states of the operation loop, from the first to the last one reached. -/
def visited (ctx : EnrichContext) : List (EnrichmentOperation D) → RunState → List RunState
  | [], run => [run]
  | op::ops, run => run::match core.stepOperation deps ctx op run with
    | .ok (next,true) => [next]
    | .ok (next,false) => visited ctx ops next
    | .error _ => []

def SecretOf (listed : List String) (result : Enriching) (s : String) : Prop :=
  result.row.isSome ∧ ∃ run ∈ core.visited deps core.context core.spec.operations (core.startRun result),
    HoldsSecret listed run.state.builder s

/-- No secret value of the run is left in what the enricher returns. -/
def NoPlaintextLeft (listed : List String) (result out : Enriching) : Prop :=
  ∀ s, core.SecretOf deps listed result s → plaintextLeft out s = false

def loggedEvents (run : RunState) : List Value :=
  match Fields.read run.state.builder.metadata "enrich_events" with
  | .list events => events
  | _ => []

/-- Every held candidate is the new value of a logged event. -/
def CandidatesLogged (run : RunState) : Prop :=
  ∀ f s, Dict.get? run.state.builder.secretCandidates f = some s →
    ∃ e ∈ loggedEvents run, Value.occurs s e = true

/-- The old value of a row field is still in the row or in a logged event. -/
def KeepsValue (f : String) (v : Value) (run : RunState) : Prop :=
  (∃ row, run.state.builder.row = some row ∧ Fields.read row f = v) ∨
    ∃ e ∈ loggedEvents run, Value.occurs v.pyStr e = true

theorem event_occurs_after (e : EnrichEvent) : Value.occurs e.after.pyStr e.toValue = true :=
  Value.occurs_dict_of_mem (k := "after") (by simp) (Value.occurs_self e.after)

theorem event_occurs_before (e : EnrichEvent) :
    Value.occurs e.before.pyStr e.toValue = true :=
  Value.occurs_dict_of_mem (k := "before") (by simp) (Value.occurs_self e.before)

@[simp] theorem setFieldValue_metadata (builder : Enriching) (field : String) (v : Value) :
    (setFieldValue builder field v).metadata = builder.metadata := by
  unfold setFieldValue
  split_ifs <;> try rfl
  split <;> rfl

/-- A write puts its value into the candidates only under a secret target. -/
theorem setFieldValue_candidates {builder : Enriching} {field f s : String} {v : Value}
    (h : Dict.get? (setFieldValue builder field v).secretCandidates f = some s) :
    Dict.get? builder.secretCandidates f = some s ∨ s = v.pyStr := by
  unfold setFieldValue at h
  split_ifs at h
  · exact .inl h
  · exact .inl h
  · rw [Dict.get?_set] at h
    split_ifs at h
    · exact .inr (Option.some.inj h).symm
    · exact .inl h
  · split at h <;> exact .inl h

theorem set_ne_nil (d : Dict String String) (k v : String) : Dict.set d k v ≠ [] := by
  intro h
  have := Dict.mem_set_self d k v
  simp [h] at this

theorem setFieldValue_candidates_ne {builder : Enriching} (field : String) (v : Value)
    (h : builder.secretCandidates ≠ []) :
    (setFieldValue builder field v).secretCandidates ≠ [] := by
  unfold setFieldValue
  split_ifs
  · exact h
  · exact h
  · exact set_ne_nil _ _ _
  · split <;> exact h

/-- A write replaces the row value of its own field only. -/
theorem setFieldValue_row {builder : Enriching} {row : Fields} (field f : String) (v : Value)
    (hrow : builder.row = some row) :
    ∃ row', (setFieldValue builder field v).row = some row' ∧
      (Fields.read row' f = Fields.read row f ∨
        getFieldValue builder field = Fields.read row f) := by
  unfold setFieldValue getFieldValue
  split_ifs
  · exact ⟨row,hrow,.inl rfl⟩
  · exact ⟨row,hrow,.inl rfl⟩
  · exact ⟨row,hrow,.inl rfl⟩
  · rw [hrow]
    refine ⟨_,rfl,?_⟩
    by_cases hf : field = f
    · exact .inr (by rw [hf])
    · exact .inl (Fields.read_set_ne row v hf)

theorem mem_loggedEvents_iff (run : RunState) (e : Value) :
    e ∈ loggedEvents run ↔ ∃ events,
      Fields.read run.state.builder.metadata "enrich_events" = .list events ∧ e ∈ events := by
  unfold loggedEvents
  split
  · rename_i events h
    simp [h]
  · rename_i h
    simp only [List.not_mem_nil, false_iff, not_exists, not_and]
    intro events he
    exact absurd he (h events)

theorem extendMeta_read_ne {metadata out : Fields} {key other : String} {items : List Value}
    (h : extendMeta metadata key items = .ok out) (hne : key ≠ other) :
    Fields.read out other = Fields.read metadata other := by
  rcases extendMeta_events h with ⟨_,rfl⟩ | ⟨old,_,rfl⟩
  · rfl
  · exact Fields.read_set_ne metadata _ hne

/-- The log only grows: a turn of the loop keeps the logged events and adds its own. -/
theorem stepOperation_logged {ctx : EnrichContext} {op : EnrichmentOperation D}
    {run next : RunState} {stop : Bool}
    (h : core.stepOperation deps ctx op run = .ok (next,stop)) :
    ∃ (state : EnrichState) (events : List EnrichEvent), Effect run.state state events ∧
      next.state.builder.row = state.builder.row ∧
      next.state.builder.secretCandidates = state.builder.secretCandidates ∧
      (∀ e ∈ loggedEvents run, e ∈ loggedEvents next) ∧
      ∀ e ∈ events, e.toValue ∈ loggedEvents next := by
  rcases core.stepOperation_spec deps h with rfl | ⟨state,events,fields,_,_,heff,_,hev,⟨_,hhints⟩,hb⟩
  · exact ⟨next.state,[],.inl rfl,rfl,rfl,fun _ he => he,by simp⟩
  · have hmeta : state.builder.metadata = run.state.builder.metadata := by
      rcases heff with rfl | ⟨⟨_,_,hw,_⟩⟩
      · rfl
      · rw [hw, setFieldValue_metadata]
    have hread : Fields.read next.state.builder.metadata "enrich_events" =
        Fields.read fields "enrich_events" := extendMeta_read_ne hhints (by decide)
    refine ⟨state,events,heff,by rw [hb],by rw [hb],?_,?_⟩
    · intro e he
      obtain ⟨old,hold,hmem⟩ := (mem_loggedEvents_iff run e).mp he
      rw [mem_loggedEvents_iff, hread]
      rcases extendMeta_events hev with ⟨_,rfl⟩ | ⟨old',hold',rfl⟩
      · exact ⟨old,by rw [hmeta, hold],hmem⟩
      · rw [hmeta, hold] at hold'
        cases hold'
        exact ⟨_,Fields.read_set_self _ _ _,List.mem_append_left _ hmem⟩
    · intro e he
      rw [mem_loggedEvents_iff, hread]
      rcases extendMeta_events hev with ⟨hnil,_⟩ | ⟨old,_,rfl⟩
      · rw [List.map_eq_nil_iff.mp hnil] at he
        cases he
      · exact ⟨_,Fields.read_set_self _ _ _,
          List.mem_append_right _ (List.mem_map_of_mem he)⟩

theorem stepOperation_candidatesLogged {ctx : EnrichContext} {op : EnrichmentOperation D}
    {run next : RunState} {stop : Bool}
    (h : core.stepOperation deps ctx op run = .ok (next,stop))
    (hlog : CandidatesLogged run) : CandidatesLogged next := by
  obtain ⟨state,events,heff,_,hcand,hkeep,hnew⟩ := core.stepOperation_logged deps h
  intro f s hs
  rw [hcand] at hs
  rcases heff with rfl | ⟨⟨field,v,hw,e,he,_,_,hafter⟩⟩
  · obtain ⟨e,he,ho⟩ := hlog f s hs
    exact ⟨e,hkeep e he,ho⟩
  · rw [hw] at hs
    rcases setFieldValue_candidates hs with hs | rfl
    · obtain ⟨e,he,ho⟩ := hlog f s hs
      exact ⟨e,hkeep e he,ho⟩
    · exact ⟨_,hnew e he,by rw [← hafter]; exact event_occurs_after e⟩

theorem stepOperation_candidates_ne {ctx : EnrichContext} {op : EnrichmentOperation D}
    {run next : RunState} {stop : Bool}
    (h : core.stepOperation deps ctx op run = .ok (next,stop))
    (hne : run.state.builder.secretCandidates ≠ []) :
    next.state.builder.secretCandidates ≠ [] := by
  obtain ⟨state,events,heff,_,hcand,_⟩ := core.stepOperation_logged deps h
  rw [hcand]
  rcases heff with rfl | ⟨⟨field,v,hw,_⟩⟩
  · exact hne
  · rw [hw]
    exact setFieldValue_candidates_ne field v hne

theorem stepOperation_keepsValue {ctx : EnrichContext} {op : EnrichmentOperation D}
    {run next : RunState} {stop : Bool} {f : String} {v : Value}
    (h : core.stepOperation deps ctx op run = .ok (next,stop))
    (hkeep : KeepsValue f v run) : KeepsValue f v next := by
  obtain ⟨state,events,heff,hrow,_,hlog,hnew⟩ := core.stepOperation_logged deps h
  rcases hkeep with ⟨row,hr,hv⟩ | ⟨e,he,ho⟩
  · rcases heff with rfl | ⟨⟨field,w,hw,e,he,_,hbefore,_⟩⟩
    · exact .inl ⟨row,by rw [hrow, hr],hv⟩
    · obtain ⟨row',hr',hcase⟩ := setFieldValue_row field f w hr
      rcases hcase with hsame | hget
      · exact .inl ⟨row',by rw [hrow, hw, hr'],by rw [hsame, hv]⟩
      · refine .inr ⟨_,hnew e he,?_⟩
        rw [← hv, ← hget, ← hbefore]
        exact event_occurs_before e
  · exact .inr ⟨e,hlog e he,ho⟩

/-- A property that every turn of the loop keeps holds at the end of the loop
when it held in some state on the way. -/
theorem runOperations_keeps {ctx : EnrichContext} {P : RunState → Prop}
    (hstep : ∀ op run next stop, core.stepOperation deps ctx op run = .ok (next,stop) →
      P run → P next)
    {ops : List (EnrichmentOperation D)} {run mid final : RunState}
    (hmid : mid ∈ core.visited deps ctx ops run)
    (hrun : core.runOperations deps ctx ops run = .ok final) (h : P mid) : P final := by
  induction ops generalizing run mid with
  | nil =>
    simp only [visited, List.mem_singleton] at hmid
    simp only [runOperations, Except.ok.injEq] at hrun
    exact hrun ▸ hmid ▸ h
  | cons op ops ih =>
    have hself : ∀ r, r ∈ core.visited deps ctx ops r := by
      intro r
      cases ops <;> simp [visited]
    simp only [visited, List.mem_cons] at hmid
    simp only [runOperations, bind, Except.bind] at hrun
    cases hs : core.stepOperation deps ctx op run with
    | error exc => simp [hs] at hrun
    | ok turn =>
      obtain ⟨next,stop⟩ := turn
      have hnext : P run → P next := hstep op run next stop hs
      cases stop with
      | true =>
        simp only [hs, pure, Except.pure, Except.ok.injEq] at hrun hmid
        subst hrun
        rcases hmid with rfl | hmid
        · exact hnext h
        · exact List.mem_singleton.mp hmid ▸ h
      | false =>
        simp only [hs] at hrun hmid
        rcases hmid with rfl | hmid
        · exact ih (hself next) hrun (hnext h)
        · exact ih hmid hrun h

/-- A property of the first state that every turn keeps holds in every state visited. -/
theorem visited_keeps {ctx : EnrichContext} {P : RunState → Prop}
    (hstep : ∀ op run next stop, core.stepOperation deps ctx op run = .ok (next,stop) →
      P run → P next)
    {ops : List (EnrichmentOperation D)} {run mid : RunState}
    (hmid : mid ∈ core.visited deps ctx ops run) (h : P run) : P mid := by
  induction ops generalizing run with
  | nil => exact List.mem_singleton.mp hmid ▸ h
  | cons op ops ih =>
    simp only [visited, List.mem_cons] at hmid
    rcases hmid with rfl | hmid
    · exact h
    · cases hs : core.stepOperation deps ctx op run with
      | error exc => simp [hs] at hmid
      | ok turn =>
        obtain ⟨next,stop⟩ := turn
        have hnext := hstep op run next stop hs h
        cases stop with
        | true =>
          rw [hs] at hmid
          exact List.mem_singleton.mp hmid ▸ hnext
        | false =>
          rw [hs] at hmid
          exact ih hmid hnext

theorem final_mem_visited {ctx : EnrichContext} {ops : List (EnrichmentOperation D)}
    {run final : RunState} (hrun : core.runOperations deps ctx ops run = .ok final) :
    final ∈ core.visited deps ctx ops run := by
  induction ops generalizing run with
  | nil =>
    simp only [runOperations, Except.ok.injEq] at hrun
    simp [visited, hrun]
  | cons op ops ih =>
    simp only [runOperations, bind, Except.bind] at hrun
    simp only [visited, List.mem_cons]
    cases hs : core.stepOperation deps ctx op run with
    | error exc => simp [hs] at hrun
    | ok turn =>
      obtain ⟨next,stop⟩ := turn
      cases stop with
      | true =>
        simp only [hs, pure, Except.pure, Except.ok.injEq] at hrun
        simp [hrun]
      | false =>
        simp only [hs] at hrun
        exact .inr (ih hrun)

theorem start_mem_visited {ctx : EnrichContext} (ops : List (EnrichmentOperation D))
    (run : RunState) : run ∈ core.visited deps ctx ops run := by
  cases ops <;> simp [visited]

theorem startRun_candidates (result : Enriching) :
    (core.startRun result).state.builder.secretCandidates = result.secretCandidates := by
  unfold startRun startBuilder
  dsimp only
  split <;> rfl

theorem storeSecrets_read (builder : Enriching) :
    Fields.read (core.storeSecrets deps builder).metadata "enrich_events" =
      Fields.read builder.metadata "enrich_events" := by
  unfold storeSecrets
  split
  · rfl
  · split
    · rfl
    · dsimp only
      rw [Fields.read_set_ne _ _ (by decide)]
      split
      · rfl
      · split <;> rfl

theorem logged_left {final : RunState} {s : String} {e : Value} (he : e ∈ loggedEvents final)
    (ho : Value.occurs s e = true) : plaintextLeft (core.finish deps final) s = true := by
  obtain ⟨events,hread,hmem⟩ := (mem_loggedEvents_iff final e).mp he
  have hout : Fields.read (core.finish deps final).metadata "enrich_events" = .list events := by
    unfold finish
    dsimp only
    rw [Fields.read_set_ne _ _ (by decide), core.storeSecrets_read deps, hread]
  have hocc := Value.occurs_dict_of_mem (Fields.mem_of_read hout rfl)
    (Value.occurs_list_of_mem hmem ho)
  simp [plaintextLeft, hocc]

theorem finish_row {final : RunState} (h : final.state.builder.secretCandidates = []) :
    (core.finish deps final).row = final.state.builder.row := by
  simp [finish, storeSecrets, h]

theorem enrich_run {result out : Enriching} (hrow : result.row.isSome)
    (hout : core.enrich deps result = .ok out) :
    ∃ final, core.runOperations deps core.context core.spec.operations (core.startRun result) =
      .ok final ∧ out = core.finish deps final := by
  obtain ⟨row,hr⟩ := Option.isSome_iff_exists.mp hrow
  simp only [enrich, hr, bind, Except.bind, pure, Except.pure] at hout
  split at hout
  · cases hout
  · rename_i final hrun
    cases hout
    exact ⟨final,hrun,rfl⟩

/-- A text that was ever a secret candidate is itself left in the result. -/
theorem candidate_left {result out : Enriching} {mid : RunState} {f s : String}
    (hentry : result.secretCandidates = []) (hrow : result.row.isSome)
    (hout : core.enrich deps result = .ok out)
    (hmid : mid ∈ core.visited deps core.context core.spec.operations (core.startRun result))
    (hs : Dict.get? mid.state.builder.secretCandidates f = some s) :
    plaintextLeft out s = true := by
  obtain ⟨final,hrun,rfl⟩ := core.enrich_run deps hrow hout
  have hlogged : CandidatesLogged mid :=
    core.visited_keeps deps
      (fun _ _ _ _ hstep h => core.stepOperation_candidatesLogged deps hstep h) hmid
      (by intro f t ht; simp [core.startRun_candidates, hentry] at ht)
  have hkept : ∃ e ∈ loggedEvents final, Value.occurs s e = true :=
    core.runOperations_keeps deps
      (P := fun run => ∃ e ∈ loggedEvents run, Value.occurs s e = true)
      (by
        intro op run next stop hstep ⟨e,he,ho⟩
        obtain ⟨_,_,_,_,_,hkeep,_⟩ := core.stepOperation_logged deps hstep
        exact ⟨e,hkeep e he,ho⟩) hmid hrun (hlogged f s hs)
  obtain ⟨e,he,ho⟩ := hkept
  exact core.logged_left deps he ho

/-- A run that holds a secret in some state leaves a secret of the run in its result. -/
theorem secret_left {listed : List String} {result out : Enriching} {s : String}
    (hentry : result.secretCandidates = []) (hout : core.enrich deps result = .ok out)
    (hs : core.SecretOf deps listed result s) :
    ∃ t, core.SecretOf deps listed result t ∧ plaintextLeft out t = true := by
  obtain ⟨hrow,mid,hmid,hheld⟩ := hs
  obtain ⟨final,hrun,rfl⟩ := core.enrich_run deps hrow hout
  have hfinal := core.final_mem_visited deps hrun
  by_cases hc : final.state.builder.secretCandidates = []
  · have hmidc : mid.state.builder.secretCandidates = [] := by
      by_contra hne
      exact core.runOperations_keeps deps
        (fun _ _ _ _ hstep h => core.stepOperation_candidates_ne deps hstep h)
        hmid hrun hne hc
    rcases hheld with ⟨f,hf⟩ | ⟨f,hf,row,hr,hnn,rfl⟩
    · simp [hmidc] at hf
    · have hkeep : KeepsValue f (Fields.read row f) final :=
        core.runOperations_keeps deps
          (fun _ _ _ _ hstep h => core.stepOperation_keepsValue deps hstep h)
          hmid hrun (.inl ⟨row,hr,rfl⟩)
      refine ⟨_,⟨hrow,mid,hmid,.inr ⟨f,hf,row,hr,hnn,rfl⟩⟩,?_⟩
      rcases hkeep with ⟨row',hr',hv⟩ | ⟨e,he,ho⟩
      · have hocc := Value.occurs_dict_of_mem (Fields.mem_of_read hv hnn)
          (Value.occurs_self (Fields.read row f))
        simp [plaintextLeft, core.finish_row deps hc, hr', hocc]
      · exact core.logged_left deps he ho
  · obtain ⟨⟨f,t⟩,rest,hcons⟩ := List.exists_cons_of_ne_nil hc
    have ht : Dict.get? final.state.builder.secretCandidates f = some t := by
      simp [hcons, Dict.get?]
    exact ⟨t,⟨hrow,final,hfinal,.inl ⟨f,ht⟩⟩,
      core.candidate_left deps hentry hrow hout hfinal ht⟩

/-- The enrich stage leaves no plaintext of a secret behind exactly in the runs in
which no secret value ever arises; every candidate that arises is itself left. -/
theorem no_plaintext_left_iff (mapper : MapperCore) (normalizer : NormalizerCore)
    (catalog : ErrorCatalog) (record : SourceRecord) (listed : List String) (out : Enriching)
    (h : core.enrich deps (normalizeStage normalizer (mapStage mapper catalog
      (extracted record))) = .ok out) :
    let source := normalizeStage normalizer (mapStage mapper catalog (extracted record))
    (core.NoPlaintextLeft deps listed source out ↔ ∀ s, ¬ core.SecretOf deps listed source s) ∧
      ∀ s, core.SecretOf deps [] source s → plaintextLeft out s = true := by
  intro source
  have hentry : source.secretCandidates = [] := by
    rw [normalizeStage_secretCandidates]
    exact mapStage_secretCandidates mapper catalog _ rfl
  refine ⟨⟨?_,?_⟩,?_⟩
  · intro hno s hs
    obtain ⟨t,ht,hleft⟩ := core.secret_left deps hentry h hs
    rw [hno t ht] at hleft
    cases hleft
  · intro hnone s hs
    exact absurd hs (hnone s)
  · rintro s ⟨hrow,mid,hmid,⟨f,hf⟩ | ⟨f,hf,_⟩⟩
    · exact core.candidate_left deps hentry hrow h hmid hf
    · cases hf

end EnricherCore

/-- One column, mapped and normalized without operations. -/
def mailMapper : MapperCore :=
  { compiled := { rules := [⟨some "mail",[],some "mail",[],[],false,.error⟩], metaRules := []
                  schemaRequired := [], sourceColumns := [] }
    registry := [], sinkSpec := none, catalog := [] }

def plainNormalizer : NormalizerCore :=
  { compiled := ⟨[],.error,false⟩, registry := [], sinkSpec := none, catalog := [] }

def mailRecord : SourceRecord := ⟨2,"line:2",[("mail",.str "a@x")]⟩

/-- A match key, and a generated password that the store accepts. -/
def passwordEnricher : EnricherCore Unit :=
  { spec := { operations := [
      { name := "build_match_key", opType := .compute, targets := ["match_key"]
        compute := some fun _ _ => .ok [("match_key",.str "a@x")] },
      { name := "password", opType := .generate, targets := ["secret:password"]
        baseGenerator := some fun _ _ _ => .ok (.str "Qwerty1!") }] }
    putMany := some fun _ _ _ _ _ => .ok ()
    dataset := "employees", catalog := [], sinkSpec := none, runId := none }

def mailSource : Enriching :=
  normalizeStage plainNormalizer (mapStage mailMapper [] (extracted mailRecord))

theorem passwordEnricher_leaves_password :
    ¬ ∀ out, passwordEnricher.enrich () mailSource = .ok out →
      passwordEnricher.NoPlaintextLeft () ["password"] mailSource out := by
  intro hall
  have hleft : (match passwordEnricher.enrich () mailSource with
      | .ok out => plaintextLeft out "Qwerty1!"
      | .error _ => false) = true := by decide
  have hheld : ((passwordEnricher.visited () passwordEnricher.context
      passwordEnricher.spec.operations (passwordEnricher.startRun mailSource)).any fun run =>
        Dict.get? run.state.builder.secretCandidates "password" == some "Qwerty1!") = true := by
    decide
  obtain ⟨run,hrun,hget⟩ := List.any_eq_true.mp hheld
  cases hout : passwordEnricher.enrich () mailSource with
  | error exc => simp [hout] at hleft
  | ok out =>
    rw [hout] at hleft
    have hno := hall out hout "Qwerty1!"
      ⟨by decide,run,hrun,.inl ⟨"password",by simpa using hget⟩⟩
    exact absurd hleft (by simp [hno])

theorem no_plaintext_left_iff_password :
    ∃ out, passwordEnricher.enrich () mailSource = .ok out ∧
      (passwordEnricher.NoPlaintextLeft () ["password"] mailSource out ↔
        ∀ s, ¬ passwordEnricher.SecretOf () ["password"] mailSource s) := by
  cases hout : passwordEnricher.enrich () mailSource with
  | error exc =>
    have hok : (passwordEnricher.enrich () mailSource).isOk = true := by decide
    rw [hout] at hok
    cases hok
  | ok out =>
    exact ⟨out,rfl,(passwordEnricher.no_plaintext_left_iff () mailMapper plainNormalizer []
      mailRecord ["password"] out hout).1⟩

end NexusEtl
