import NexusEtl.Value
import Mathlib.Data.List.Dedup

/-!
# The pending link repository

A table of links in order of insertion, with the automatic numbering of the
database as an invariant: identifiers increase and stay below the next one.
Time stamps are texts and every statement is given the current one. Statements
that change a link leave its identifier and its source columns alone.
-/

set_option autoImplicit false

namespace NexusEtl
open NexusEtl.Library

inductive PendingStatus
  | pending | resolved | conflict | expired
  deriving DecidableEq, Repr

/-- The payload column: the document that its JSON text holds, or another text. -/
inductive PayloadText
  | json (document : Value)
  | malformed (text : String)
  deriving DecidableEq, Repr

structure PendingLink where
  pendingId : Nat
  dataset : String
  sourceRowId : String
  field : String
  lookupKey : String
  status : PendingStatus
  reason : Option String
  attempts : Nat
  createdAt : String
  lastAttemptAt : Option String
  expiresAt : Option String
  payload : Option PayloadText
  deriving DecidableEq, Repr

structure PendingTable where
  rows : List PendingLink
  nextId : Nat
  ordered : (rows.map PendingLink.pendingId ++ [nextId]).Pairwise (· < ·)

/-- The arguments of `add_pending`. -/
structure PendingRequest where
  dataset : String
  sourceRowId : String
  field : String
  lookupKey : String
  expiresAt : Option String
  payload : Option PayloadText
  deriving DecidableEq, Repr

structure PendingRow where
  dataset : String
  sourceRowId : String
  payload : PayloadText
  deriving DecidableEq, Repr

namespace PendingTable

def empty : PendingTable := ⟨[],1,by simp⟩

theorem nodup (t : PendingTable) : (t.rows.map PendingLink.pendingId).Nodup := by
  have h := (List.pairwise_append.mp t.ordered).1
  exact h.imp fun hlt => Nat.ne_of_lt hlt

theorem lt_nextId (t : PendingTable) {l : PendingLink} (h : l ∈ t.rows) :
    l.pendingId < t.nextId :=
  (List.pairwise_append.mp t.ordered).2.2 _ (List.mem_map_of_mem h) _ (by simp)

/-- Two links of the table with one identifier are the same link. -/
theorem eq_of_pendingId (t : PendingTable) {l m : PendingLink} (hl : l ∈ t.rows)
    (hm : m ∈ t.rows) (h : l.pendingId = m.pendingId) : l = m :=
  List.inj_on_of_nodup_map t.nodup hl hm h

/-- An update statement: a change of some links that keeps their identifiers. -/
def modify (t : PendingTable) (f : PendingLink → PendingLink)
    (hf : ∀ l, (f l).pendingId = l.pendingId) : PendingTable :=
  { rows := t.rows.map f
    nextId := t.nextId
    ordered := by
      have h : (t.rows.map f).map PendingLink.pendingId = t.rows.map PendingLink.pendingId := by
        simp [List.map_map, Function.comp_def, hf]
      rw [h]
      exact t.ordered }

def delete (t : PendingTable) (p : PendingLink → Bool) : PendingTable :=
  { rows := t.rows.filter fun l => !p l
    nextId := t.nextId
    ordered := List.Pairwise.sublist
      (List.Sublist.append (List.Sublist.map _ List.filter_sublist) (List.Sublist.refl _))
      t.ordered }

def insert (t : PendingTable) (l : PendingLink) (hl : l.pendingId = t.nextId) : PendingTable :=
  { rows := t.rows ++ [l]
    nextId := t.nextId + 1
    ordered := by
      rw [List.map_append, List.map_singleton, hl]
      refine List.pairwise_append.mpr ⟨t.ordered,List.pairwise_singleton _ _,?_⟩
      intro a ha b hb
      rw [List.mem_singleton.mp hb]
      rcases List.mem_append.mp ha with ha | ha
      · obtain ⟨m,hm,rfl⟩ := List.mem_map.mp ha
        exact Nat.lt_succ_of_lt (t.lt_nextId hm)
      · rw [List.mem_singleton.mp ha]
        exact Nat.lt_succ_self _ }

@[simp] theorem modify_rows (t : PendingTable) (f : PendingLink → PendingLink)
    (hf : ∀ l, (f l).pendingId = l.pendingId) : (t.modify f hf).rows = t.rows.map f := rfl

@[simp] theorem modify_nextId (t : PendingTable) (f : PendingLink → PendingLink)
    (hf : ∀ l, (f l).pendingId = l.pendingId) : (t.modify f hf).nextId = t.nextId := rfl

def isOpenFor (req : PendingRequest) (l : PendingLink) : Bool :=
  l.dataset == req.dataset && l.sourceRowId == req.sourceRowId && l.field == req.field &&
    l.lookupKey == req.lookupKey && l.status == .pending

/-- `UPDATE … SET payload = COALESCE(?, payload), expires_at = COALESCE(?, expires_at)`. -/
def refresh (req : PendingRequest) (now : String) (l : PendingLink) : PendingLink :=
  { l with
    payload := req.payload.or l.payload
    expiresAt := req.expiresAt.or l.expiresAt
    lastAttemptAt := some now }

@[simp] theorem refresh_pendingId (req : PendingRequest) (now : String) (l : PendingLink) :
    (refresh req now l).pendingId = l.pendingId := rfl

def newLink (req : PendingRequest) (now : String) (id : Nat) : PendingLink :=
  { pendingId := id, dataset := req.dataset, sourceRowId := req.sourceRowId
    field := req.field, lookupKey := req.lookupKey, status := .pending, reason := none
    attempts := 0, createdAt := now, lastAttemptAt := none, expiresAt := req.expiresAt
    payload := req.payload }

/-- The statement `… WHERE pending_id = ?`. -/
def modifyId (t : PendingTable) (id : Nat) (f : PendingLink → PendingLink)
    (hf : ∀ l, (f l).pendingId = l.pendingId) : PendingTable :=
  t.modify (fun l => if l.pendingId = id then f l else l) fun l => by split <;> simp [hf]

def addPending (t : PendingTable) (req : PendingRequest) (now : String) :
    PendingTable × Nat :=
  match t.rows.find? (isOpenFor req) with
  | some l =>
    (if req.payload.isSome || req.expiresAt.isSome then
      t.modifyId l.pendingId (refresh req now) (refresh_pendingId req now)
    else t,l.pendingId)
  | none => (t.insert (newLink req now t.nextId) rfl,t.nextId)

def closed (status : PendingStatus) (reason : Option String) (now : String) (l : PendingLink) :
    PendingLink :=
  { l with status := status, reason := reason, lastAttemptAt := some now }

@[simp] theorem closed_pendingId (status : PendingStatus) (reason : Option String)
    (now : String) (l : PendingLink) : (closed status reason now l).pendingId = l.pendingId := rfl

def markResolved (t : PendingTable) (id : Nat) (now : String) : PendingTable :=
  t.modifyId id (closed .resolved none now) (closed_pendingId _ _ _)

def markConflict (t : PendingTable) (id : Nat) (reason : Option String) (now : String) :
    PendingTable :=
  t.modifyId id (closed .conflict reason now) (closed_pendingId _ _ _)

def markExpired (t : PendingTable) (id : Nat) (reason : Option String) (now : String) :
    PendingTable :=
  t.modifyId id (closed .expired reason now) (closed_pendingId _ _ _)

/-- The statement `… WHERE` with a condition. -/
def modifyWhere (t : PendingTable) (p : PendingLink → Bool) (f : PendingLink → PendingLink)
    (hf : ∀ l, (f l).pendingId = l.pendingId) : PendingTable :=
  t.modify (fun l => if p l then f l else l) fun l => by split <;> simp [hf]

def isPendingOf (sourceRowId : String) (l : PendingLink) : Bool :=
  l.sourceRowId == sourceRowId && l.status == .pending

def markResolvedForSource (t : PendingTable) (sourceRowId now : String) : PendingTable :=
  t.modifyWhere (isPendingOf sourceRowId) (closed .resolved none now) (closed_pendingId _ _ _)

def touched (now : String) (l : PendingLink) : PendingLink :=
  { l with attempts := l.attempts + 1, lastAttemptAt := some now }

@[simp] theorem touched_pendingId (now : String) (l : PendingLink) :
    (touched now l).pendingId = l.pendingId := rfl

def touchAttempt (t : PendingTable) (id : Nat) (now : String) : PendingTable × Nat :=
  let touchedTable := t.modifyId id (touched now) (touched_pendingId now)
  (touchedTable,((touchedTable.rows.find? (·.pendingId == id)).map
    PendingLink.attempts).getD 0)

/-- The statements that a link waiting for its target makes: `add_pending`, then
`touch_attempt`, then `mark_conflict` when the attempts are used up. The flag tells the last. -/
def request (t : PendingTable) (maxAttempts : Int) (req : PendingRequest) (now : String) :
    PendingTable × Bool :=
  let added := t.addPending req now
  let attempted := added.1.touchAttempt added.2 now
  if 0 < maxAttempts ∧ maxAttempts ≤ attempted.2 then
    (attempted.1.markConflict added.2 (some "max attempts reached") now,true)
  else (attempted.1,false)

theorem mem_modifyId {t : PendingTable} {id : Nat} {f : PendingLink → PendingLink}
    {hf : ∀ l, (f l).pendingId = l.pendingId} {l : PendingLink} :
    l ∈ (t.modifyId id f hf).rows ↔
      (l.pendingId ≠ id ∧ l ∈ t.rows) ∨ ∃ m ∈ t.rows, m.pendingId = id ∧ f m = l := by
  simp only [modifyId, modify_rows, List.mem_map]
  constructor
  · rintro ⟨m,hm,rfl⟩
    by_cases h : m.pendingId = id
    · exact .inr ⟨m,hm,h,by simp [h]⟩
    · exact .inl ⟨by simp [h],by simp [h, hm]⟩
  · rintro (⟨h,hl⟩ | ⟨m,hm,h,rfl⟩)
    · exact ⟨l,hl,by simp [h]⟩
    · exact ⟨m,hm,by simp [h]⟩

theorem mem_modifyWhere {t : PendingTable} {p : PendingLink → Bool}
    {f : PendingLink → PendingLink} {hf : ∀ l, (f l).pendingId = l.pendingId}
    {l : PendingLink} :
    l ∈ (t.modifyWhere p f hf).rows ↔
      (p l = false ∧ l ∈ t.rows) ∨ ∃ m ∈ t.rows, p m = true ∧ f m = l := by
  simp only [modifyWhere, modify_rows, List.mem_map]
  constructor
  · rintro ⟨m,hm,rfl⟩
    cases h : p m with
    | true => exact .inr ⟨m,hm,h,by simp⟩
    | false => exact .inl ⟨by simpa using h,by simpa using hm⟩
  · rintro (⟨h,hl⟩ | ⟨m,hm,h,rfl⟩)
    · exact ⟨l,hl,by simp [h]⟩
    · exact ⟨m,hm,by simp [h]⟩

/-- A statement that closes links leaves those open that it does not concern. -/
theorem open_of_closing {t : PendingTable} {p : PendingLink → Bool} {status : PendingStatus}
    {reason : Option String} {now : String} {l : PendingLink}
    (hl : l ∈ (t.modifyWhere p (closed status reason now) (closed_pendingId _ _ _)).rows)
    (hopen : l.status = .pending) (hstatus : status ≠ .pending) : p l = false ∧ l ∈ t.rows := by
  rcases mem_modifyWhere.mp hl with hkept | ⟨k,_,_,rfl⟩
  · exact hkept
  · exact absurd hopen hstatus

/-- What a request leaves in the table: one link that carries it, new or one that was
open for it, and every other link as it was. -/
structure Requested (req : PendingRequest) (t t' : PendingTable) (m : PendingLink) :
    Prop where
  mem : m ∈ t'.rows
  dataset : m.dataset = req.dataset
  sourceRowId : m.sourceRowId = req.sourceRowId
  field : m.field = req.field
  lookupKey : m.lookupKey = req.lookupKey
  payload : m.payload = req.payload
  others : ∀ l : PendingLink, l.pendingId ≠ m.pendingId → (l ∈ t'.rows ↔ l ∈ t.rows)
  origin : (m.pendingId = t.nextId ∧ t'.nextId = t.nextId + 1) ∨
    (t'.nextId = t.nextId ∧ ∃ l ∈ t.rows, l.pendingId = m.pendingId ∧ isOpenFor req l = true)

/-- A further statement about the link of a request changes that link only. -/
theorem Requested.modifyId {req : PendingRequest} {t t' : PendingTable} {m : PendingLink}
    (h : Requested req t t' m) (f : PendingLink → PendingLink)
    (hf : ∀ l, (f l).pendingId = l.pendingId) (hd : (f m).dataset = m.dataset)
    (hr : (f m).sourceRowId = m.sourceRowId) (hfd : (f m).field = m.field)
    (hk : (f m).lookupKey = m.lookupKey) (hp : (f m).payload = m.payload) :
    Requested req t (t'.modifyId m.pendingId f hf) (f m) where
  mem := mem_modifyId.mpr (.inr ⟨m,h.mem,rfl,rfl⟩)
  dataset := hd.trans h.dataset
  sourceRowId := hr.trans h.sourceRowId
  field := hfd.trans h.field
  lookupKey := hk.trans h.lookupKey
  payload := hp.trans h.payload
  others l hl := by
    rw [hf] at hl
    rw [mem_modifyId, ← h.others l hl]
    constructor
    · rintro (⟨_,hl⟩ | ⟨k,_,hk,rfl⟩)
      · exact hl
      · exact absurd ((hf k).trans hk) hl
    · exact fun hmem => .inl ⟨hl,hmem⟩
  origin := by
    rw [hf]
    exact h.origin

theorem isOpenFor_iff {req : PendingRequest} {l : PendingLink} :
    isOpenFor req l = true ↔ l.dataset = req.dataset ∧ l.sourceRowId = req.sourceRowId ∧
      l.field = req.field ∧ l.lookupKey = req.lookupKey ∧ l.status = .pending := by
  simp [isOpenFor, and_assoc]

theorem addPending_spec (t : PendingTable) (req : PendingRequest) (now : String)
    (hp : req.payload.isSome) :
    ∃ m, m.pendingId = (t.addPending req now).2 ∧ m.status = .pending ∧
      Requested req t (t.addPending req now).1 m := by
  unfold addPending
  split
  · rename_i l hl
    obtain ⟨hopen,hmem⟩ : isOpenFor req l = true ∧ l ∈ t.rows :=
      ⟨List.find?_some hl,List.mem_of_find?_eq_some hl⟩
    obtain ⟨hd,hr,hf,hk,hs⟩ := isOpenFor_iff.mp hopen
    refine ⟨refresh req now l,rfl,hs,?_⟩
    simp only [hp, Bool.true_or, if_true]
    exact
      { mem := mem_modifyId.mpr (.inr ⟨l,hmem,rfl,rfl⟩)
        dataset := hd, sourceRowId := hr, field := hf, lookupKey := hk
        payload := Option.or_of_isSome hp
        others := fun k hk => by
          rw [mem_modifyId]
          constructor
          · rintro (⟨_,h⟩ | ⟨j,_,hj,rfl⟩)
            · exact h
            · exact absurd hj hk
          · exact fun h => .inl ⟨hk,h⟩
        origin := .inr ⟨rfl,l,hmem,rfl,hopen⟩ }
  · exact ⟨newLink req now t.nextId,rfl,rfl,
      { mem := by simp [insert]
        dataset := rfl, sourceRowId := rfl, field := rfl, lookupKey := rfl, payload := rfl
        others := fun k hk => by
          simp only [insert, List.mem_append, List.mem_singleton]
          constructor
          · rintro (h | rfl)
            · exact h
            · exact absurd rfl hk
          · exact .inl
        origin := .inl ⟨rfl,rfl⟩ }⟩

/-- One request: its link is pending, or in conflict when the attempts are used up. -/
theorem request_spec (t : PendingTable) (maxAttempts : Int) (req : PendingRequest)
    (now : String) (hp : req.payload.isSome) :
    ∃ m, m.status = (if (t.request maxAttempts req now).2 then .conflict else .pending) ∧
      Requested req t (t.request maxAttempts req now).1 m := by
  obtain ⟨m,hid,hs,hm⟩ := t.addPending_spec req now hp
  have htouch := hm.modifyId (touched now) (touched_pendingId now) rfl rfl rfl rfl rfl
  unfold request
  dsimp only
  split
  · refine ⟨closed .conflict (some "max attempts reached") now (touched now m),rfl,?_⟩
    have hconflict := htouch.modifyId (closed .conflict (some "max attempts reached") now)
      (closed_pendingId _ _ _) rfl rfl rfl rfl rfl
    rw [← hid]
    exact hconflict
  · refine ⟨touched now m,hs,?_⟩
    rw [← hid]
    exact htouch

def listPendingForKey (t : PendingTable) (dataset lookupKey : String) : List PendingLink :=
  t.rows.filter fun l => l.dataset == dataset && l.lookupKey == lookupKey && l.status == .pending

def isExpired (now : String) (l : PendingLink) : Bool :=
  l.status == .pending && l.expiresAt.any fun at_ => at_ ≤ now

/-- `sweep_expired`: the text `now` bounds the expiry, `stamp` is the time of the statement. -/
def sweepExpired (t : PendingTable) (now : String) (reason : Option String) (stamp : String) :
    PendingTable × List PendingLink :=
  (t.modifyWhere (isExpired now) (closed .expired reason stamp) (closed_pendingId _ _ _),
    t.rows.filter (isExpired now))

def lastSeen (l : PendingLink) : String := l.lastAttemptAt.getD l.createdAt

def purgeStale (t : PendingTable) (cutoff : String)
    (statuses : List PendingStatus) : PendingTable :=
  let effective := if statuses = [] then [.resolved,.expired,.conflict] else statuses
  t.delete fun l => effective.contains l.status && lastSeen l ≤ cutoff

/-- The `ORDER BY` of the window: a later attempt first, then a larger identifier. -/
def isNewer (a b : PendingLink) : Bool :=
  lastSeen b < lastSeen a || (lastSeen a == lastSeen b && b.pendingId < a.pendingId)

def newest : List PendingLink → Option PendingLink
  | [] => none
  | l::ls => match newest ls with
    | none => some l
    | some m => if isNewer m l then some m else some l

def isReplayable (dataset : String) (l : PendingLink) : Bool :=
  l.dataset == dataset && l.status == .pending && l.payload.isSome

/-- The link that stands for each source row in a replay: one per partition. -/
def replayLinks (t : PendingTable) (dataset : String) : List PendingLink :=
  let candidates := t.rows.filter (isReplayable dataset)
  (candidates.map PendingLink.sourceRowId).dedup.filterMap fun row =>
    newest (candidates.filter (·.sourceRowId == row))

def listPendingRows (t : PendingTable) (dataset : String) : List PendingRow :=
  (t.replayLinks dataset).filterMap fun l =>
    l.payload.map fun payload => ⟨l.dataset,l.sourceRowId,payload⟩

theorem newest_mem {ls : List PendingLink} {m : PendingLink} (h : newest ls = some m) :
    m ∈ ls := by
  induction ls generalizing m with
  | nil => cases h
  | cons l ls ih =>
    simp only [newest] at h
    split at h
    · cases h
      exact List.mem_cons_self
    · rename_i k hk
      split at h
      · cases h
        exact List.mem_cons_of_mem _ (ih hk)
      · cases h
        exact List.mem_cons_self

theorem newest_isSome {ls : List PendingLink} (h : ls ≠ []) : ∃ m, newest ls = some m := by
  cases ls with
  | nil => exact absurd rfl h
  | cons l ls =>
    simp only [newest]
    split
    · exact ⟨l,rfl⟩
    · split
      · exact ⟨_,rfl⟩
      · exact ⟨l,rfl⟩

theorem isReplayable_iff {dataset : String} {l : PendingLink} :
    isReplayable dataset l = true ↔
      l.dataset = dataset ∧ l.status = .pending ∧ l.payload.isSome := by
  simp [isReplayable, and_assoc]

theorem mem_replayLinks {t : PendingTable} {dataset : String} {m : PendingLink}
    (h : m ∈ t.replayLinks dataset) : m ∈ t.rows ∧ isReplayable dataset m = true := by
  obtain ⟨row,_,hm⟩ := List.mem_filterMap.mp h
  exact List.mem_filter.mp (List.mem_filter.mp (newest_mem hm)).1

/-- Every replayable link has its source row in the replay. -/
theorem exists_replayLinks {t : PendingTable} {dataset : String} {l : PendingLink}
    (h : l ∈ t.rows) (hl : isReplayable dataset l = true) :
    ∃ m ∈ t.replayLinks dataset, m.sourceRowId = l.sourceRowId := by
  have hc : l ∈ t.rows.filter (isReplayable dataset) := List.mem_filter.mpr ⟨h,hl⟩
  have hne : (t.rows.filter (isReplayable dataset)).filter
      (·.sourceRowId == l.sourceRowId) ≠ [] :=
    List.ne_nil_of_mem (List.mem_filter.mpr ⟨hc,by simp⟩)
  obtain ⟨m,hm⟩ := newest_isSome hne
  refine ⟨m,List.mem_filterMap.mpr ⟨l.sourceRowId,?_,hm⟩,?_⟩
  · exact List.mem_dedup.mpr (List.mem_map_of_mem hc)
  · simpa using (List.mem_filter.mp (newest_mem hm)).2

/-- A replay names each source row once. -/
theorem replayLinks_nodup (t : PendingTable) (dataset : String) :
    ((t.replayLinks dataset).map PendingLink.sourceRowId).Nodup := by
  have hrow : ∀ row m, newest ((t.rows.filter (isReplayable dataset)).filter
      (·.sourceRowId == row)) = some m → m.sourceRowId = row := fun row m hm => by
    simpa using (List.mem_filter.mp (newest_mem hm)).2
  have hnodup := List.nodup_dedup
    ((t.rows.filter (isReplayable dataset)).map PendingLink.sourceRowId)
  simp only [replayLinks]
  generalize ((t.rows.filter (isReplayable dataset)).map PendingLink.sourceRowId).dedup = rows
    at hnodup
  induction rows with
  | nil => simp
  | cons row rows ih =>
    obtain ⟨hnot,hrest⟩ := List.nodup_cons.mp hnodup
    simp only [List.filterMap_cons]
    split
    · exact ih hrest
    · rename_i m hm
      refine List.nodup_cons.mpr ⟨?_,ih hrest⟩
      rw [hrow row m hm]
      intro hmem
      obtain ⟨k,hk,hkrow⟩ := List.mem_map.mp hmem
      obtain ⟨other,hother,hk⟩ := List.mem_filterMap.mp hk
      rw [hrow other k hk] at hkrow
      exact hnot (hkrow ▸ hother)

theorem listPendingRows_sourceRowIds (t : PendingTable) (dataset : String) :
    (t.listPendingRows dataset).map PendingRow.sourceRowId =
      (t.replayLinks dataset).map PendingLink.sourceRowId := by
  have hpayload : ∀ l ∈ t.replayLinks dataset, l.payload.isSome := fun l hl =>
    (isReplayable_iff.mp (mem_replayLinks hl).2).2.2
  unfold listPendingRows
  generalize t.replayLinks dataset = links at hpayload
  induction links with
  | nil => rfl
  | cons l links ih =>
    obtain ⟨payload,hp⟩ := Option.isSome_iff_exists.mp (hpayload l List.mem_cons_self)
    simp [hp, ih fun k hk => hpayload k (List.mem_cons_of_mem _ hk)]

theorem mem_listPendingRows {t : PendingTable} {dataset : String} {row : PendingRow}
    (h : row ∈ t.listPendingRows dataset) :
    ∃ l ∈ t.replayLinks dataset, l.sourceRowId = row.sourceRowId ∧
      l.payload = some row.payload := by
  obtain ⟨l,hl,hrow⟩ := List.mem_filterMap.mp h
  obtain ⟨payload,hp,rfl⟩ := Option.map_eq_some_iff.mp hrow
  exact ⟨l,hl,rfl,hp⟩

/-- The source row of a replayable link is among the rows that are listed. -/
theorem mem_listed {t : PendingTable} {l : PendingLink} (h : l ∈ t.rows)
    (hs : l.status = .pending) (hp : l.payload.isSome) :
    l.sourceRowId ∈ (t.listPendingRows l.dataset).map PendingRow.sourceRowId := by
  rw [listPendingRows_sourceRowIds]
  obtain ⟨m,hm,hrow⟩ := exists_replayLinks h (isReplayable_iff.mpr ⟨rfl,hs,hp⟩)
  exact List.mem_map.mpr ⟨m,hm,hrow⟩

end PendingTable
end NexusEtl
