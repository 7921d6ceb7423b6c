import NexusEtl.PendingReplay
import NexusEtl.Transactions

/-!
# Refreshing the cache

The service reads the pages of every dataset from the target and writes each
item into the cache and then, by its keys, into the identity database. All of
it runs in one transaction of the gateway. An error in one item is counted and
the loop goes on; an error outside of an item escapes.
-/

set_option autoImplicit false

namespace NexusEtl
open NexusEtl.Library

inductive UpsertResult
  | inserted | updated
  deriving DecidableEq, Repr

/-- The repository of the cached rows and their metadata. -/
structure CacheRepository (C : Type) where
  upsert : C → String → Fields → Except PyException UpsertResult × C
  count : C → String → Except PyException Nat
  getMeta : C → String → String → Except PyException (Option String)
  setMeta : C → Option String → String → String → Except PyException C
  rebuild : C → String → Except PyException C

structure CacheSyncAdapter (ρ : Type) where
  dataset : String
  listOperationAlias : String
  includeDeletedDefault : Bool
  getItemKey : ρ → Except PyException String
  isDeleted : ρ → Except PyException Bool
  mapTargetToCache : ρ → Except PyException Fields

structure TargetPageResult (ρ : Type) where
  ok : Bool
  page : Nat
  items : List ρ
  errorMessage : Option String

structure RefreshStats where
  inserted : Nat := 0
  updated : Nat := 0
  failed : Nat := 0
  skipped : Nat := 0
  pages : Nat := 0
  deriving DecidableEq, Repr

/-- A record that was handed to the syncer. -/
structure SyncedRecord where
  dataset : String
  resolvedId : Value
  keyValues : Fields
  deriving DecidableEq, Repr

structure RefreshState (C : Type) where
  stores : Stores C
  stats : Dict String RefreshStats
  synced : List SyncedRecord

structure CacheRefreshService (C ρ : Type) where
  gateway : SqliteCacheGateway
  repository : CacheRepository C
  identitySyncer : Option IdentityIndexSyncer
  adapters : List (CacheSyncAdapter ρ)
  iterPages : String → List (Except PyException (TargetPageResult ρ))
  schemaHashes : Dict String String
  driftMode : String
  driftOnHashMismatch : String
  driftRebuildScope : String

/-- The arguments of a refresh that the stores depend on, and its clock. -/
structure RefreshCall where
  includeDeleted : Option Bool
  runId : String
  apiBaseUrl : Option String
  now : String
  deriving DecidableEq, Repr

namespace CacheRefreshService

variable {C ρ : Type} (service : CacheRefreshService C ρ)

def mismatched (cache : C) : List String → Except PyException (List String)
  | [] => .ok []
  | dataset::scope => do
    let rest ← mismatched cache scope
    match (Dict.get? service.schemaHashes dataset).filter (· ≠ "") with
    | none => return rest
    | some expected =>
      let current ← service.repository.getMeta cache dataset "schema_hash"
      match current.filter (· ≠ "") with
      | none => return rest
      | some hash => return if hash ≠ expected then dataset::rest else rest

/-- `_apply_drift_policy_for_scope` -/
def applyDriftPolicy (scope : List String) (cache : C) : Except PyException C := do
  if service.schemaHashes = [] then return cache
  else
    let stale ← service.mismatched cache scope
    if stale = [] then return cache
    else if service.driftMode = "strict" ∨ service.driftOnHashMismatch = "fail" then
      throw ⟨"RuntimeError","CACHE_DSL_HASH_MISMATCH: " ++ Text.join ", " stale⟩
    else if service.driftOnHashMismatch ≠ "rebuild" then return cache
    else
      let targets := if service.driftRebuildScope = "all" then scope else stale.eraseDups
      targets.foldlM service.repository.rebuild cache

def statsOf (dataset : String) (s : RefreshState C) : RefreshStats :=
  (Dict.get? s.stats dataset).getD {}

def count (dataset : String) (f : RefreshStats → RefreshStats) (s : RefreshState C) :
    RefreshState C :=
  { s with stats := Dict.set s.stats dataset (f (statsOf dataset s)) }

def countFailed (dataset : String) (s : RefreshState C) : RefreshState C :=
  count dataset (fun stats => { stats with failed := stats.failed + 1 }) s

/-- The identity database learns a record that the cache has taken. -/
def syncRecord (now : String) (r : SyncedRecord) (s : RefreshState C) : RefreshState C :=
  match service.identitySyncer with
  | none => s
  | some syncer =>
    let identity := syncer.sync s.stores.identity r.dataset r.resolvedId r.keyValues now
    { s with stores := { s.stores with identity := identity }, synced := s.synced ++ [r] }

def writeRecord (now : String) (dataset : String) (mapped : Fields) (s : RefreshState C) :
    RefreshState C :=
  match service.repository.upsert s.stores.cache dataset mapped with
  | (.error _,cache) => countFailed dataset { s with stores := { s.stores with cache := cache } }
  | (.ok result,cache) =>
    let written := count dataset (fun stats => match result with
      | .inserted => { stats with inserted := stats.inserted + 1 }
      | .updated => { stats with updated := stats.updated + 1 })
      { s with stores := { s.stores with cache := cache } }
    let idField := (service.identitySyncer.map fun y => y.idFieldFor dataset).getD "_id"
    service.syncRecord now ⟨dataset,Fields.read mapped idField,mapped⟩ written

/-- One item: only its key is read outside of the part whose errors are counted. -/
def refreshItem (call : RefreshCall) (adapter : CacheSyncAdapter ρ) (raw : ρ)
    (s : RefreshState C) : Option PyException × RefreshState C :=
  match adapter.getItemKey raw with
  | .error exc => (some exc,s)
  | .ok _ => (none,match adapter.isDeleted raw with
    | .error _ => countFailed adapter.dataset s
    | .ok deleted =>
      if deleted && !call.includeDeleted.getD adapter.includeDeletedDefault then
        count adapter.dataset (fun stats => { stats with skipped := stats.skipped + 1 }) s
      else match adapter.mapTargetToCache raw with
        | .error _ => countFailed adapter.dataset s
        | .ok mapped => service.writeRecord call.now adapter.dataset mapped s)

def refreshPage (call : RefreshCall) (adapter : CacheSyncAdapter ρ)
    (page : Except PyException (TargetPageResult ρ)) (s : RefreshState C) :
    Option PyException × RefreshState C :=
  match page with
  | .error exc => (some exc,s)
  | .ok page =>
    if !page.ok then
      (some ⟨"RuntimeError",textOr page.errorMessage "Target read failed"⟩,s)
    else
      eachUntil (service.refreshItem call adapter) page.items
        (count adapter.dataset (fun stats => { stats with pages := max stats.pages page.page }) s)

def refreshDataset (call : RefreshCall) (adapter : CacheSyncAdapter ρ) (s : RefreshState C) :
    Option PyException × RefreshState C :=
  eachUntil (service.refreshPage call adapter) (service.iterPages adapter.listOperationAlias)
    (count adapter.dataset id s)

/-- The metadata of one dataset. -/
def writeMeta (call : RefreshCall) (stats : RefreshStats) (dataset : String) (cache : C) :
    Except PyException C := do
  let total ← service.repository.count cache dataset
  let set := service.repository.setMeta
  let cache ← match (Dict.get? service.schemaHashes dataset).filter (· ≠ "") with
    | none => pure cache
    | some hash => set cache (some dataset) "schema_hash" hash
  let cache ← set cache (some dataset) "last_refresh_at" call.now
  let cache ← set cache (some dataset) "last_refresh_run_id" call.runId
  let cache ← set cache (some dataset) "last_refresh_pages" (toString stats.pages)
  let cache ← set cache (some dataset) "last_refresh_items"
    (toString (stats.inserted + stats.updated + stats.failed + stats.skipped))
  set cache (some dataset) "count_total" (toString total)

def finish (call : RefreshCall) (s : RefreshState C) : Except PyException C := do
  let cache ← s.stats.foldlM (fun cache kv => service.writeMeta call kv.2 kv.1 cache)
    s.stores.cache
  match call.apiBaseUrl.filter (· ≠ "") with
  | none => return cache
  | some url => service.repository.setMeta cache none "source_api_base" url

/-- The body of the transaction. -/
def refreshBody (call : RefreshCall) (s : RefreshState C) : Option PyException × RefreshState C :=
  match service.applyDriftPolicy (service.adapters.map CacheSyncAdapter.dataset) s.stores.cache with
  | .error exc => (some exc,s)
  | .ok cache =>
    let started := { s with stores := { s.stores with cache := cache } }
    match eachUntil (service.refreshDataset call) service.adapters started with
    | (some exc,s) => (some exc,s)
    | (none,s) => match service.finish call s with
      | .error exc => (some exc,s)
      | .ok cache => (none,{ s with stores := { s.stores with cache := cache } })

def start (stores : Stores C) : RefreshState C := ⟨stores,[],[]⟩

def refresh (call : RefreshCall) (stores : Stores C) :
    Except PyException (Dict String RefreshStats) × Stores C :=
  service.gateway.transaction (fun stores =>
    match service.refreshBody call (start stores) with
    | (some exc,s) => (.error exc,s.stores)
    | (none,s) => (.ok s.stats,s.stores)) stores

/-- The records that reach the identity database, until the refresh ends or fails. -/
def reached (call : RefreshCall) (stores : Stores C) : List SyncedRecord :=
  (service.refreshBody call (start stores)).2.synced

def identityStep (now : String) (db : IdentityDb) (r : SyncedRecord) : IdentityDb :=
  match service.identitySyncer with
  | none => db
  | some syncer => syncer.sync db r.dataset r.resolvedId r.keyValues now

/-- The index has the record under its keys, and no link waits for one of them. -/
def Knows (db : IdentityDb) (r : SyncedRecord) : Prop :=
  ∀ syncer ∈ service.identitySyncer, db.Knows syncer r.dataset r.resolvedId r.keyValues

/-- The identity database of the later state, told by the records synced in between. -/
def Follows (now : String) (s t : RefreshState C) : Prop :=
  ∃ records, t.synced = s.synced ++ records ∧
    t.stores.identity = run (service.identityStep now) s.stores.identity records

variable {service}

theorem Follows.of_eq {now : String} {s t : RefreshState C} (hs : t.synced = s.synced)
    (hi : t.stores.identity = s.stores.identity) : service.Follows now s t :=
  ⟨[],by simp [hs],hi⟩

theorem Follows.trans {now : String} {s t u : RefreshState C} (h : service.Follows now s t)
    (h' : service.Follows now t u) : service.Follows now s u := by
  obtain ⟨records,hs,hi⟩ := h
  obtain ⟨later,hs',hi'⟩ := h'
  refine ⟨records ++ later,?_,?_⟩
  · rw [hs', hs, List.append_assoc]
  · rw [hi', hi, run_append]

theorem count_follows (now dataset : String) (f : RefreshStats → RefreshStats)
    (s : RefreshState C) : service.Follows now s (count dataset f s) := .of_eq rfl rfl

theorem syncRecord_follows (now : String) (r : SyncedRecord) (s : RefreshState C) :
    service.Follows now s (service.syncRecord now r s) := by
  unfold syncRecord
  split
  · exact .of_eq rfl rfl
  · rename_i syncer hsyncer
    refine ⟨[r],rfl,?_⟩
    simp [run, identityStep, hsyncer]

theorem writeRecord_follows (now dataset : String) (mapped : Fields) (s : RefreshState C) :
    service.Follows now s (service.writeRecord now dataset mapped s) := by
  unfold writeRecord
  split
  · exact .of_eq rfl rfl
  · dsimp only
    exact Follows.trans (.of_eq rfl rfl) (syncRecord_follows now _ _)

theorem refreshItem_follows (call : RefreshCall) (adapter : CacheSyncAdapter ρ) (raw : ρ)
    (s : RefreshState C) : service.Follows call.now s (service.refreshItem call adapter raw s).2 := by
  unfold refreshItem
  split
  · exact .of_eq rfl rfl
  · dsimp only
    split
    · exact count_follows _ _ _ s
    · split
      · exact count_follows _ _ _ s
      · split
        · exact count_follows _ _ _ s
        · exact writeRecord_follows _ _ _ s

theorem eachUntil_follows {A : Type} {now : String}
    {body : A → RefreshState C → Option PyException × RefreshState C}
    (h : ∀ a s, service.Follows now s (body a s).2) (as : List A) (s : RefreshState C) :
    service.Follows now s (eachUntil body as s).2 :=
  eachUntil_rel (fun _ => .of_eq rfl rfl) (fun _ _ _ => Follows.trans) h as s

theorem refreshPage_follows (call : RefreshCall) (adapter : CacheSyncAdapter ρ)
    (page : Except PyException (TargetPageResult ρ)) (s : RefreshState C) :
    service.Follows call.now s (service.refreshPage call adapter page s).2 := by
  unfold refreshPage
  split
  · exact .of_eq rfl rfl
  · split
    · exact .of_eq rfl rfl
    · exact (count_follows _ _ _ s).trans (eachUntil_follows (refreshItem_follows call adapter) _ _)

theorem refreshBody_follows (call : RefreshCall) (s : RefreshState C) :
    service.Follows call.now s (service.refreshBody call s).2 := by
  have hdataset : ∀ adapter t, service.Follows call.now t (service.refreshDataset call adapter t).2 :=
    fun adapter t => (count_follows _ _ _ t).trans
      (eachUntil_follows (refreshPage_follows call adapter) _ _)
  unfold refreshBody
  split
  · exact .of_eq rfl rfl
  · rename_i cache _
    have hloop := eachUntil_follows hdataset service.adapters
      { s with stores := { s.stores with cache := cache } }
    have hstart : service.Follows call.now s { s with stores := { s.stores with cache := cache } } :=
      .of_eq rfl rfl
    dsimp only
    split
    · rename_i heq
      rw [heq] at hloop
      exact hstart.trans hloop
    · rename_i heq
      rw [heq] at hloop
      split
      · exact hstart.trans hloop
      · exact (hstart.trans hloop).trans (.of_eq rfl rfl)

/-- Syncing the records leaves the identity database as it was if and only if it knows them. -/
theorem identity_kept_iff (now : String) (db : IdentityDb) (records : List SyncedRecord) :
    run (service.identityStep now) db records = db ↔ ∀ r ∈ records, service.Knows db r := by
  have hstep : ∀ (db : IdentityDb) (r : SyncedRecord),
      (service.Knows db r ∧ service.identityStep now db r = db) ∨
        (¬ service.Knows db r ∧ db.progress < (service.identityStep now db r).progress) := by
    intro db r
    unfold Knows identityStep
    cases service.identitySyncer with
    | none => exact .inl ⟨by simp,rfl⟩
    | some syncer =>
      have hsync := db.sync_progress syncer r.dataset r.resolvedId r.keyValues now
      simpa using hsync
  exact run_eq_self_iff_idle IdentityDb.progress hstep db records

theorem refresh_failed {call : RefreshCall} {stores : Stores C} {exc : PyException}
    (h : (service.refresh call stores).1 = .error exc) :
    (service.refresh call stores).2 = stores ↔ service.gateway.sharedEngine = true ∨
      ∀ r ∈ service.reached call stores, service.Knows stores.identity r := by
  have hfollows : service.Follows call.now (start stores)
      (service.refreshBody call (start stores)).2 := refreshBody_follows call (start stores)
  obtain ⟨records,hsynced,hidentity⟩ := hfollows
  have hreached : service.reached call stores = records := hsynced
  rw [hreached, ← identity_kept_iff call.now]
  have hstart : (start stores).stores.identity = stores.identity := rfl
  rw [hstart] at hidentity
  unfold refresh SqliteCacheGateway.transaction at h ⊢
  dsimp only at h ⊢
  cases hbody : service.refreshBody call (start stores) with
  | mk failure after =>
    rw [hbody] at hidentity
    cases failure with
    | none =>
      rw [hbody] at h
      cases h
    | some exc' =>
      dsimp only
      rw [← hidentity]
      by_cases hshared : service.gateway.sharedEngine = true
      · simp [hshared]
      · simp only [hshared, Bool.false_eq_true, if_false, false_or]
        constructor
        · intro heq
          have hkept := congrArg Stores.identity heq
          exact hkept
        · exact fun heq => Stores.ext rfl heq

end CacheRefreshService

section Samples

open World

/-- A cache that appends every row that it is given. -/
def rowCache : CacheRepository (List Fields) where
  upsert cache _ row := (.ok .inserted,cache ++ [row])
  count cache _ := .ok cache.length
  getMeta _ _ _ := .ok none
  setMeta cache _ _ _ := .ok cache
  rebuild _ _ := .ok []

def employeeAdapter : CacheSyncAdapter Fields where
  dataset := "employees"
  listOperationAlias := "employees.list"
  includeDeletedDefault := false
  getItemKey row := .ok (Fields.read row "code").pyStr
  isDeleted _ := .ok false
  mapTargetToCache row := .ok row

/-- The target sends one employee, and its second page fails. -/
def brokenRefresh : CacheRefreshService (List Fields) Fields where
  gateway := ⟨false⟩
  repository := rowCache
  identitySyncer := some ⟨[("employees",["code"])],[]⟩
  adapters := [employeeAdapter]
  iterPages _ := [.ok ⟨true,1,[[("_id",.str "emp-1"),("code",.str "E1")]],none⟩,
    .ok ⟨false,2,[],some "503"⟩]
  schemaHashes := []
  driftMode := "auto"
  driftOnHashMismatch := "rebuild"
  driftRebuildScope := "dataset"

def nightly : RefreshCall := ⟨none,"run-1",none,noon.now⟩

def emptyStores : Stores (List Fields) := ⟨[],IdentityDb.empty⟩

/-- The employee is left pending, then the next row cannot be read. -/
def brokenBatch : BatchFailure := ⟨1,0,⟨"OSError","the source is gone"⟩⟩

theorem brokenRefresh_fails : (brokenRefresh.refresh nightly emptyStores).1 =
    .error ⟨"RuntimeError","503"⟩ := by decide

end Samples
end NexusEtl
