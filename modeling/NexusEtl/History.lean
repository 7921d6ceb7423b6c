import NexusEtl.Planning

/-!
# Histories of the identity database

Planning runs, cache refreshes, applies and maintenance touch the identity
database in any order; a history is the list of what they do to it. Beside the
database the world remembers which source row each link was created for: the
dataset that was planned, the source that was read and the row in it. Nothing
in the code reads this, it only says what a row of the table means.
-/

set_option autoImplicit false

namespace NexusEtl
open NexusEtl.Library

structure SourceRow where
  dataset : String
  source : String
  rowId : String
  deriving DecidableEq, Repr

structure World where
  db : IdentityDb
  owner : Nat → Option SourceRow

/-- One row of a planning run of a dataset, read from a source or replayed. -/
structure RowStep where
  dataset : String
  source : String
  core : ResolveCore
  call : ResolveCall
  replayable : PendingCodec.Replayable call.matched

def RowStep.row (r : RowStep) : SourceRow := ⟨r.dataset,r.source,r.call.rowId⟩

structure SyncStep where
  syncer : IdentityIndexSyncer
  dataset : String
  resolvedId : Value
  keyValues : Fields
  now : String
  deriving DecidableEq, Repr

inductive Event
  | resolve (r : RowStep)
  | sync (s : SyncStep)
  | sweep (now stamp : String)
  | purge (cutoff : String)

/-- The links with identifiers of an interval belong to a row from now on. -/
def claim (o : SourceRow) (lo hi : Nat) (owner : Nat → Option SourceRow) :
    Nat → Option SourceRow :=
  fun id => if lo ≤ id ∧ id < hi then some o else owner id

theorem claim_claim (o : SourceRow) {lo mid hi : Nat} (h₁ : lo ≤ mid) (h₂ : mid ≤ hi)
    (owner : Nat → Option SourceRow) :
    claim o mid hi (claim o lo mid owner) = claim o lo hi owner := by
  funext id
  unfold claim
  by_cases h : mid ≤ id ∧ id < hi
  · simp [h, show lo ≤ id by omega]
  · by_cases h' : lo ≤ id ∧ id < mid
    · simp [h', show id < hi by omega]
    · have hnot : ¬ (lo ≤ id ∧ id < hi) := by omega
      simp [h, h', hnot]

namespace World

def init : World := ⟨IdentityDb.empty,fun _ => none⟩

def withPending (w : World) (t : PendingTable) : World :=
  { w with db := { w.db with pending := t } }

def outcome (w : World) (r : RowStep) : ResolveOutcome := r.core.resolve w.db r.call

def step (w : World) : Event → World
  | .resolve r =>
    { db := { w.db with pending := (w.outcome r).pending }
      owner := claim r.row w.db.pending.nextId (w.outcome r).pending.nextId w.owner }
  | .sync s => { w with db := s.syncer.sync w.db s.dataset s.resolvedId s.keyValues s.now }
  | .sweep now stamp =>
    w.withPending (w.db.pending.sweepExpired now (some "expired") stamp).1
  | .purge cutoff => w.withPending (w.db.pending.purgeStale cutoff [])

/-- One request of a row, as a step of its own. -/
def request (o : SourceRow) (maxAttempts : Int) (now : String) (w : World)
    (req : PendingRequest) : World :=
  let t := requestStep maxAttempts now w.db.pending req
  { db := { w.db with pending := t }
    owner := claim o w.db.pending.nextId t.nextId w.owner }

def requested (w : World) (r : RowStep) : World :=
  run (request r.row r.core.settings.pendingMaxAttempts r.call.clock.now) w (w.outcome r).requests

def closeFor (w : World) (rowId now : String) : World :=
  w.withPending (w.db.pending.markResolvedForSource rowId now)

theorem nextId_le_request (t : PendingTable) (maxAttempts : Int) (req : PendingRequest)
    (now : String) : t.nextId ≤ (requestStep maxAttempts now t req).nextId := by
  have hadd : t.nextId ≤ (t.addPending req now).1.nextId := by
    unfold PendingTable.addPending
    split
    · dsimp only
      split <;> exact Nat.le_refl _
    · exact Nat.le_succ _
  unfold requestStep PendingTable.request
  dsimp only
  split <;> exact hadd

theorem nextId_le_run (t : PendingTable) (maxAttempts : Int) (now : String)
    (reqs : List PendingRequest) :
    t.nextId ≤ (run (requestStep maxAttempts now) t reqs).nextId := by
  induction reqs generalizing t with
  | nil => exact Nat.le_refl _
  | cons req reqs ih => exact Nat.le_trans (nextId_le_request t maxAttempts req now) (ih _)

theorem run_request (o : SourceRow) (maxAttempts : Int) (now : String) (w : World)
    (reqs : List PendingRequest) :
    run (request o maxAttempts now) w reqs =
      { db := { w.db with pending := run (requestStep maxAttempts now) w.db.pending reqs }
        owner := claim o w.db.pending.nextId
          (run (requestStep maxAttempts now) w.db.pending reqs).nextId w.owner } := by
  induction reqs generalizing w with
  | nil =>
    have hnone : claim o w.db.pending.nextId w.db.pending.nextId w.owner = w.owner := by
      funext id
      have hnot : ¬ (w.db.pending.nextId ≤ id ∧ id < w.db.pending.nextId) := by omega
      simp [claim, hnot]
    simp [run, hnone]
  | cons req reqs ih =>
    simp only [run, ih, request]
    rw [claim_claim o (nextId_le_request w.db.pending maxAttempts req now)
      (nextId_le_run _ maxAttempts now reqs)]

/-- The step of a row, taken apart: its requests one by one, then the closing. -/
theorem step_resolve (w : World) (r : RowStep) :
    w.step (.resolve r) =
      if (w.outcome r).closed then (w.requested r).closeFor r.call.rowId r.call.clock.now
      else w.requested r := by
  have hpending := r.core.resolve_pending w.db r.call
  simp only [step, requested, run_request, outcome, hpending]
  split <;> rfl

/-- Every link belongs to a source row that bears its row identifier, and its payload was
written by a row with this identifier. -/
structure Sound (w : World) : Prop where
  owned : ∀ l ∈ w.db.pending.rows, ∃ o, w.owner l.pendingId = some o ∧ o.rowId = l.sourceRowId
  payload : ∀ l ∈ w.db.pending.rows, ∃ matched desired metadata,
    PendingCodec.Replayable matched ∧ matched.rowRef.rowId = l.sourceRowId ∧
      l.payload = some (PendingCodec.serialize matched desired metadata)

/-- A table whose links are images of links, with the same columns, is as sound. -/
theorem Sound.of_images {w : World} (h : w.Sound) {t : PendingTable}
    (ht : ∀ l ∈ t.rows, ∃ k ∈ w.db.pending.rows, k.pendingId = l.pendingId ∧
      k.sourceRowId = l.sourceRowId ∧ k.payload = l.payload) : (w.withPending t).Sound where
  owned l hl := by
    obtain ⟨k,hk,hid,hrow,_⟩ := ht l hl
    obtain ⟨o,ho,hrowId⟩ := h.owned k hk
    exact ⟨o,by rw [← hid]; exact ho,hrowId.trans hrow⟩
  payload l hl := by
    obtain ⟨k,hk,_,hrow,hpay⟩ := ht l hl
    obtain ⟨matched,desired,metadata,hr,hm,hp⟩ := h.payload k hk
    exact ⟨matched,desired,metadata,hr,hm.trans hrow,hpay ▸ hp⟩

theorem image_modifyWhere {t : PendingTable} {p : PendingLink → Bool} {status : PendingStatus}
    {reason : Option String} {now : String} {l : PendingLink}
    (hl : l ∈ (t.modifyWhere p (PendingTable.closed status reason now)
      (PendingTable.closed_pendingId _ _ _)).rows) :
    ∃ k ∈ t.rows, k.pendingId = l.pendingId ∧ k.dataset = l.dataset ∧
      k.sourceRowId = l.sourceRowId ∧ k.payload = l.payload ∧
      ((p k = false ∧ l = k) ∨ (p k = true ∧ l.status = status)) := by
  rcases PendingTable.mem_modifyWhere.mp hl with ⟨hp,hl⟩ | ⟨k,hk,hp,rfl⟩
  · exact ⟨l,hl,rfl,rfl,rfl,rfl,.inl ⟨hp,rfl⟩⟩
  · exact ⟨k,hk,rfl,rfl,rfl,rfl,.inr ⟨hp,rfl⟩⟩

theorem Sound.closing {w : World} (h : w.Sound) (p : PendingLink → Bool) (status : PendingStatus)
    (reason : Option String) (now : String) :
    (w.withPending (w.db.pending.modifyWhere p (PendingTable.closed status reason now)
      (PendingTable.closed_pendingId _ _ _))).Sound :=
  h.of_images fun _ hl => by
    obtain ⟨k,hk,hid,_,hrow,hpay,_⟩ := image_modifyWhere hl
    exact ⟨k,hk,hid,hrow,hpay⟩

/-- A request that a row makes. -/
structure RequestOf (r : RowStep) (req : PendingRequest) : Prop where
  sourceRowId : req.sourceRowId = r.call.rowId
  payload : ∃ desired, req.payload =
    some (PendingCodec.serialize r.call.matched desired r.call.metadata)

theorem requestOf_of_outcome {w : World} {r : RowStep} :
    ∀ req ∈ (w.outcome r).requests, RequestOf r req := by
  intro req hreq
  obtain ⟨rule,_,key,desired,rfl⟩ := r.core.resolve_requests w.db r.call req hreq
  exact ⟨rfl,desired,rfl⟩

theorem RequestOf.isSome {r : RowStep} {req : PendingRequest} (h : RequestOf r req) :
    req.payload.isSome := by
  obtain ⟨desired,hp⟩ := h.payload
  simp [hp]

/-- One request in the world: the link that carries it, and who owns the links now. -/
theorem request_cases {w : World} {r : RowStep} {req : PendingRequest} (h : RequestOf r req)
    (maxAttempts : Int) (now : String) :
    ∃ m, PendingTable.Requested req w.db.pending
        (request r.row maxAttempts now w req).db.pending m ∧
      (m.status = .pending ∨ m.status = .conflict) ∧
      (∀ l ∈ w.db.pending.rows,
        (request r.row maxAttempts now w req).owner l.pendingId = w.owner l.pendingId) ∧
      ((request r.row maxAttempts now w req).owner m.pendingId = some r.row ∨
        ∃ l ∈ w.db.pending.rows, l.pendingId = m.pendingId ∧
          PendingTable.isOpenFor req l = true) := by
  obtain ⟨m,hstatus,hm⟩ := w.db.pending.request_spec maxAttempts req now h.isSome
  refine ⟨m,hm,?_,?_,?_⟩
  · rw [hstatus]
    split
    · exact .inr rfl
    · exact .inl rfl
  · intro l hl
    have hlt := w.db.pending.lt_nextId hl
    have hnot : ¬ (w.db.pending.nextId ≤ l.pendingId ∧ l.pendingId <
        (requestStep maxAttempts now w.db.pending req).nextId) := by omega
    simp [request, claim, hnot]
  · rcases hm.origin with ⟨hid,hnext⟩ | ⟨_,hopen⟩
    · refine .inl ?_
      have hin : w.db.pending.nextId ≤ m.pendingId ∧ m.pendingId <
          (requestStep maxAttempts now w.db.pending req).nextId := by
        simp only [requestStep]
        omega
      simp [request, claim, hin]
    · exact .inr hopen

theorem Sound.request {w : World} (h : w.Sound) {r : RowStep} {req : PendingRequest}
    (hreq : RequestOf r req) (maxAttempts : Int) (now : String) :
    (w.request r.row maxAttempts now req).Sound := by
  obtain ⟨m,hm,_,howner,hown⟩ := request_cases (w := w) hreq maxAttempts now
  have hcase : ∀ l ∈ (w.request r.row maxAttempts now req).db.pending.rows,
      l = m ∨ l ∈ w.db.pending.rows := by
    intro l hl
    by_cases hid : l.pendingId = m.pendingId
    · exact .inl (PendingTable.eq_of_pendingId _ hl hm.mem hid)
    · exact .inr ((hm.others l hid).mp hl)
  constructor
  · intro l hl
    rcases hcase l hl with rfl | hl
    · rcases hown with hown | ⟨k,hk,hid,hopen⟩
      · exact ⟨_,hown,by rw [hm.sourceRowId, hreq.sourceRowId]; rfl⟩
      · obtain ⟨o,ho,hrow⟩ := h.owned k hk
        refine ⟨o,by rw [← hid, howner k hk]; exact ho,?_⟩
        rw [hrow, (PendingTable.isOpenFor_iff.mp hopen).2.1, hm.sourceRowId]
    · obtain ⟨o,ho,hrow⟩ := h.owned l hl
      exact ⟨o,by rw [howner l hl]; exact ho,hrow⟩
  · intro l hl
    rcases hcase l hl with rfl | hl
    · obtain ⟨desired,hp⟩ := hreq.payload
      exact ⟨r.call.matched,desired,r.call.metadata,r.replayable,
        by rw [hm.sourceRowId, hreq.sourceRowId]; rfl,by rw [hm.payload, hp]⟩
    · exact h.payload l hl

/-- The requests of a row keep what each of them keeps. -/
theorem requested_invariant {I : World → Prop} {Q : PendingRequest → Prop} {w : World}
    {r : RowStep} (hQ : ∀ req ∈ (w.outcome r).requests, Q req)
    (hstep : ∀ v req, I v → RequestOf r req ∧ Q req →
      I (request r.row r.core.settings.pendingMaxAttempts r.call.clock.now v req))
    (h : I w) : I (w.requested r) :=
  run_invariant (G := fun _ req => RequestOf r req ∧ Q req) hstep h
    (allSteps_of_mem (fun req hreq => ⟨requestOf_of_outcome req hreq,hQ req hreq⟩) w)

theorem Sound.requested {w : World} (h : w.Sound) (r : RowStep) : (w.requested r).Sound :=
  requested_invariant (Q := fun _ => True) (fun _ _ => trivial)
    (fun _ _ hv hreq => hv.request hreq.1 _ _) h

theorem Sound.step {w : World} (h : w.Sound) (e : Event) : (w.step e).Sound := by
  cases e with
  | resolve r =>
    rw [step_resolve]
    split
    · exact (h.requested r).closing _ _ _ _
    · exact h.requested r
  | sync s =>
    have hclosed := h.closing (s.syncer.closes s.dataset s.resolvedId s.keyValues) .resolved none
      s.now
    rw [← IdentityIndexSyncer.sync_pending s.syncer w.db s.dataset s.resolvedId s.keyValues
      s.now] at hclosed
    exact ⟨hclosed.owned,hclosed.payload⟩
  | sweep now stamp => exact h.closing _ _ _ _
  | purge cutoff =>
    exact h.of_images fun l hl => ⟨l,(List.mem_filter.mp hl).1,rfl,rfl,rfl⟩

theorem init_sound : init.Sound := ⟨by simp [init, IdentityDb.empty, PendingTable.empty],
  by simp [init, IdentityDb.empty, PendingTable.empty]⟩

/-- The state that a history reaches. -/
def after (es : List Event) : World := run step init es

theorem after_sound (es : List Event) : (after es).Sound :=
  run_invariant (G := fun _ _ => True) (fun _ e h _ => h.step e) init_sound
    (allSteps_of_mem (Q := fun _ => True) (fun _ _ => trivial) init)

end World

section Samples

/-- A row that found nothing in the cache, as the matcher leaves it. -/
def newRow (lineNo : Int) (rowId key : String) (targetId : Value) (desired : Fields) :
    MatchedRow :=
  { rowRef := ⟨some lineNo,rowId,some "code",some key⟩
    identity := ⟨"code",[("code",key)]⟩
    desiredState := desired
    existing := none
    fingerprint := "f0"
    fingerprintFields := Dict.keys desired
    matchDecision :=
      { status := .notFound, reasonCode := "identity_not_found", message := none
        selected := none, candidates := [], score := none, topologyMatchMode := none
        topologyReason := none, topologyEvidence := [], metadata := [] }
    sourceLinks := []
    targetId := targetId }

theorem newRow_replayable (lineNo : Int) {rowId key : String} (targetId : Value)
    (desired : Fields) (hr : rowId ≠ "") (hk : key ≠ "") :
    PendingCodec.Replayable (newRow lineNo rowId key targetId desired) :=
  ⟨rfl,hr,by simp [newRow],hk,by simp [newRow],by simp [newRow],by simp [newRow],
    by simp [newRow],by simp [newRow]⟩

def plainCore (linkRules : List LinkFieldRule) : ResolveCore :=
  { resolveRules := {}, linkRules := linkRules, hasGateway := true
    settings := ⟨0,0,false⟩, catalog := [], sinkSpec := none, topologyLinkPolicy := none
    topologyServices := none, hash := fun fields => (Value.dict fields).pyRepr }

def noon : Clock := ⟨"2024-05-01 12:00:00","2024-05-02T12:00:00+00:00"⟩

def callOn (row : MatchedRow) : ResolveCall :=
  { matched := row, sourceRecord := ⟨0,row.rowRef.rowId,[]⟩, targetIdMap := [], metadata := []
    batchIndex := [], clock := noon }

/-- A link field that names a record by its code. -/
def codeLink (field targetDataset : String) : LinkFieldRule :=
  { field := field, targetDataset := targetDataset, resolveKeys := [⟨"code",field⟩] }

/-- A matched row as it reaches the resolver. -/
def arriving (row : MatchedRow) : TransformResult MatchedRow := PendingCodec.replayedResult row []

def steady : Nat → Tick := fun _ => ⟨noon,none⟩

end Samples
end NexusEtl
