import NexusEtl.CacheRefresh

/-!
# What the counters of a refresh tell

An item goes through several calls in one `try` block, and any of them may raise.
Its success is counted before the last of them, so an error in the rest counts
the item once more. The calls enter by how they end; what they leave in the
stores is the matter of the refresh itself.
-/

set_option autoImplicit false

namespace NexusEtl
open NexusEtl.Library

/-- How the calls for one item end, each as far as it is made. -/
structure ItemOutcome where
  key : Except PyException String
  deleted : Except PyException Bool
  mapped : Except PyException Fields
  upserted : Except PyException UpsertResult
  /-- `id_field_for` and `sync`, where there is an identity syncer -/
  synced : Except PyException Unit
  /-- the event of an item that is skipped or written -/
  reported : Except PyException Unit
  /-- the log, the diagnostics and the event of an item that failed -/
  failureReported : Except PyException Unit

/-- One dataset of a refresh: the default of its adapter and what the target sends. -/
structure DatasetRun where
  dataset : String
  includeDeletedDefault : Bool
  pages : List (Except PyException (TargetPageResult ItemOutcome))

inductive RefreshCounter
  | inserted | updated | failed | skipped
  deriving DecidableEq, Repr

namespace RefreshStats

def bump (stats : RefreshStats) : RefreshCounter → RefreshStats
  | .inserted => { stats with inserted := stats.inserted + 1 }
  | .updated => { stats with updated := stats.updated + 1 }
  | .failed => { stats with failed := stats.failed + 1 }
  | .skipped => { stats with skipped := stats.skipped + 1 }

/-- The number that is stored as `last_refresh_items`. -/
def total (stats : RefreshStats) : Nat :=
  stats.inserted + stats.updated + stats.failed + stats.skipped

@[simp] theorem total_bump (stats : RefreshStats) (c : RefreshCounter) :
    (stats.bump c).total = stats.total + 1 := by
  cases c with
  | inserted => simp only [bump, total]; omega
  | updated => simp only [bump, total]; omega
  | failed => simp only [bump, total]; omega
  | skipped => simp only [bump, total]; omega

end RefreshStats

def UpsertResult.counter : UpsertResult → RefreshCounter
  | .inserted => .inserted
  | .updated => .updated

namespace ItemOutcome

/-- The `try` block of an item. -/
def attempt (includeDeleted : Bool) (item : ItemOutcome) (stats : RefreshStats) :
    Except PyException Unit × RefreshStats :=
  match item.deleted with
  | .error exc => (.error exc,stats)
  | .ok deleted =>
    if deleted && !includeDeleted then (item.reported,stats.bump .skipped)
    else match item.mapped with
      | .error exc => (.error exc,stats)
      | .ok _ => match item.upserted with
        | .error exc => (.error exc,stats)
        | .ok result => (item.synced.bind fun _ => item.reported,stats.bump result.counter)

def refresh (includeDeleted : Bool) (item : ItemOutcome) (stats : RefreshStats) :
    Option PyException × RefreshStats :=
  match item.key with
  | .error exc => (some exc,stats)
  | .ok _ => match item.attempt includeDeleted stats with
    | (.ok _,stats) => (none,stats)
    | (.error _,stats) => match item.failureReported with
      | .ok _ => (none,stats.bump .failed)
      | .error exc => (some exc,stats.bump .failed)

/-- An exception after the item was counted as skipped or written. -/
def raisesLate (includeDeleted : Bool) (item : ItemOutcome) : Bool :=
  match item.deleted with
  | .error _ => false
  | .ok deleted =>
    if deleted && !includeDeleted then item.reported.toBool == false
    else match item.mapped, item.upserted with
      | .ok _, .ok _ => (item.synced.bind fun _ => item.reported).toBool == false
      | _, _ => false

/-- The item counts in exactly one of the counters. -/
def CountsOnce (includeDeleted : Bool) (item : ItemOutcome) : Prop :=
  ∃ c, ∀ stats, (item.refresh includeDeleted stats).2 = stats.bump c

end ItemOutcome

namespace DatasetRun

def refreshPage (includeDeleted : Bool)
    (page : Except PyException (TargetPageResult ItemOutcome)) (stats : RefreshStats) :
    Option PyException × RefreshStats :=
  match page with
  | .error exc => (some exc,stats)
  | .ok page =>
    if !page.ok then (some ⟨"RuntimeError",textOr page.errorMessage "Target read failed"⟩,stats)
    else eachUntil (ItemOutcome.refresh includeDeleted) page.items
      { stats with pages := max stats.pages page.page }

variable (includeDeleted : Option Bool) (run : DatasetRun)

def includes : Bool := includeDeleted.getD run.includeDeletedDefault

def refresh (stats : Dict String RefreshStats) : Option PyException × Dict String RefreshStats :=
  let own := (Dict.get? stats run.dataset).getD {}
  let ended := eachUntil (refreshPage (run.includes includeDeleted)) run.pages own
  (ended.1,Dict.set stats run.dataset ended.2)

/-- The items that were read. -/
def items : List ItemOutcome := run.pages.flatMap fun page =>
  match page with
  | .error _ => []
  | .ok page => page.items

/-- The counters add up to the items read, and each item counts once. -/
structure Accounted (stats : RefreshStats) : Prop where
  total : stats.inserted + stats.updated + stats.failed + stats.skipped = run.items.length
  once : ∀ item ∈ run.items, item.CountsOnce (run.includes includeDeleted)

end DatasetRun

/-- The loops of a refresh over its datasets. -/
def refreshRuns (includeDeleted : Option Bool) (runs : List DatasetRun) :
    Except PyException (Dict String RefreshStats) :=
  match eachUntil (DatasetRun.refresh includeDeleted) runs [] with
  | (some exc,_) => .error exc
  | (none,stats) => .ok stats

section Items

namespace ItemOutcome

variable {includeDeleted : Bool} {item : ItemOutcome}

/-- The three ways through the `try` block: nothing counted, one counter and no exception, one
counter and an exception after it. -/
theorem attempt_cases (includeDeleted : Bool) (item : ItemOutcome) :
    (item.raisesLate includeDeleted = false ∧
      ∃ exc, ∀ stats, item.attempt includeDeleted stats = (.error exc,stats)) ∨
    (item.raisesLate includeDeleted = false ∧
      ∃ c, ∀ stats, item.attempt includeDeleted stats = (.ok (),RefreshStats.bump stats c)) ∨
    (item.raisesLate includeDeleted = true ∧
      ∃ c exc, ∀ stats, item.attempt includeDeleted stats = (.error exc,RefreshStats.bump stats c)) := by
  have hcounted (ended : Except PyException Unit) (c : RefreshCounter)
      (hattempt : ∀ stats, item.attempt includeDeleted stats = (ended,RefreshStats.bump stats c))
      (hlate : item.raisesLate includeDeleted = (ended.toBool == false)) :
      (item.raisesLate includeDeleted = false ∧
        ∃ c, ∀ stats, item.attempt includeDeleted stats = (.ok (),RefreshStats.bump stats c)) ∨
      (item.raisesLate includeDeleted = true ∧
        ∃ c exc, ∀ stats, item.attempt includeDeleted stats =
          (.error exc,RefreshStats.bump stats c)) := by
    cases ended with
    | ok _ => exact .inl ⟨hlate,c,hattempt⟩
    | error exc => exact .inr ⟨hlate,c,exc,hattempt⟩
  unfold attempt raisesLate at *
  cases hdeleted : item.deleted with
  | error exc => exact .inl ⟨rfl,exc,fun _ => rfl⟩
  | ok deleted =>
    dsimp only
    by_cases hskip : (deleted && !includeDeleted) = true
    · simp only [hdeleted, hskip, if_true] at hcounted ⊢
      exact .inr (hcounted _ .skipped (fun _ => rfl) rfl)
    · simp only [hdeleted, hskip, Bool.false_eq_true, if_false] at hcounted ⊢
      cases hmapped : item.mapped with
      | error exc => exact .inl ⟨rfl,exc,fun _ => rfl⟩
      | ok mapped => cases hupserted : item.upserted with
        | error exc => exact .inl ⟨rfl,exc,fun _ => rfl⟩
        | ok result =>
          simp only [hmapped, hupserted] at hcounted
          exact .inr (hcounted _ result.counter (fun _ => rfl) rfl)

theorem refresh_failed {exc : PyException} {key : String} (hkey : item.key = .ok key)
    {stats after : RefreshStats} (h : item.attempt includeDeleted stats = (.error exc,after)) :
    (item.refresh includeDeleted stats).2 = after.bump .failed := by
  unfold refresh
  rw [hkey, h]
  dsimp only
  cases item.failureReported with
  | ok _ => rfl
  | error _ => rfl

/-- An item counts once, and once more when it raises late. -/
theorem refresh_cases {key : String} (hkey : item.key = .ok key) :
    (item.raisesLate includeDeleted = false ∧ item.CountsOnce includeDeleted) ∨
    (item.raisesLate includeDeleted = true ∧
      ∃ c, ∀ stats, (item.refresh includeDeleted stats).2 =
        (RefreshStats.bump stats c).bump .failed) := by
  rcases attempt_cases includeDeleted item with ⟨hlate,exc,h⟩ | ⟨hlate,c,h⟩ | ⟨hlate,c,exc,h⟩
  · exact .inl ⟨hlate,.failed,fun stats => refresh_failed hkey (h stats)⟩
  · refine .inl ⟨hlate,c,fun stats => ?_⟩
    unfold refresh
    rw [hkey, h stats]
  · exact .inr ⟨hlate,c,fun stats => refresh_failed hkey (h stats)⟩

theorem total_refresh {key : String} (hkey : item.key = .ok key) (stats : RefreshStats) :
    (item.refresh includeDeleted stats).2.total =
      stats.total + (1 + (item.raisesLate includeDeleted).toNat) := by
  rcases @refresh_cases includeDeleted item key hkey with ⟨hlate,c,h⟩ | ⟨hlate,c,h⟩
  · rw [h stats, hlate, RefreshStats.total_bump]
    rfl
  · rw [h stats, hlate, RefreshStats.total_bump, RefreshStats.total_bump]
    rfl

theorem countsOnce_iff {key : String} (hkey : item.key = .ok key) :
    item.CountsOnce includeDeleted ↔ item.raisesLate includeDeleted = false := by
  rcases @refresh_cases includeDeleted item key hkey with ⟨hlate,h⟩ | ⟨hlate,_⟩
  · exact iff_of_true h hlate
  · refine iff_of_false (fun ⟨c,h⟩ => ?_) (by simp [hlate])
    have htotal := @total_refresh includeDeleted item key hkey {}
    rw [h {}, hlate, RefreshStats.total_bump] at htotal
    simp at htotal

theorem key_of_completed {stats : RefreshStats} (h : (item.refresh includeDeleted stats).1 = none) :
    ∃ key, item.key = .ok key := by
  unfold refresh at h
  split at h
  · cases h
  · rename_i key hkey
    exact ⟨key,hkey⟩

end ItemOutcome

end Items

section Loops

variable {includeDeleted : Option Bool}

theorem sum_once_and_late (late : ItemOutcome → Bool) (items : List ItemOutcome) :
    (items.map fun item => 1 + (late item).toNat).sum = items.length + items.countP late := by
  induction items with
  | nil => rfl
  | cons item items ih =>
    rw [List.map_cons, List.sum_cons, ih, List.countP_cons, List.length_cons]
    cases late item with
    | true => simp; omega
    | false => simp; omega

namespace DatasetRun

variable {run : DatasetRun}

/-- The items of one page. -/
def pageItems : Except PyException (TargetPageResult ItemOutcome) → List ItemOutcome
  | .error _ => []
  | .ok page => page.items

theorem items_eq : run.items = run.pages.flatMap pageItems := by
  unfold items
  congr 1

theorem keys_of_page {deleted : Bool} {page : Except PyException (TargetPageResult ItemOutcome)}
    {stats : RefreshStats} (h : (refreshPage deleted page stats).1 = none) :
    ∀ item ∈ pageItems page, ∃ key, item.key = .ok key := by
  unfold refreshPage at h
  split at h
  · cases h
  · split at h
    · cases h
    · exact eachUntil_all (fun item stats
        (hitem : (ItemOutcome.refresh deleted item stats).1 = none) =>
          ItemOutcome.key_of_completed hitem) _ _ h

theorem total_page {deleted : Bool} {page : Except PyException (TargetPageResult ItemOutcome)}
    {stats : RefreshStats} (h : (refreshPage deleted page stats).1 = none) :
    (refreshPage deleted page stats).2.total = stats.total +
      ((pageItems page).map fun item => 1 + (item.raisesLate deleted).toNat).sum := by
  unfold refreshPage at h ⊢
  split at h
  · cases h
  · split at h
    · cases h
    · rename_i hok
      rw [if_neg hok]
      have hsum := eachUntil_sum (m := RefreshStats.total)
        (fun item stats (hitem : (ItemOutcome.refresh deleted item stats).1 = none) => by
          obtain ⟨key,hkey⟩ := ItemOutcome.key_of_completed hitem
          exact ItemOutcome.total_refresh hkey stats) _ _ h
      exact hsum

/-- The loop over the pages of one dataset, from nothing. -/
def ended (includeDeleted : Option Bool) (run : DatasetRun) : Option PyException × RefreshStats :=
  eachUntil (refreshPage (run.includes includeDeleted)) run.pages {}

theorem keys_of_ended (h : (run.ended includeDeleted).1 = none) :
    ∀ item ∈ run.items, ∃ key, item.key = .ok key := by
  intro item hitem
  rw [items_eq] at hitem
  obtain ⟨page,hpage,hmem⟩ := List.mem_flatMap.mp hitem
  have hkeys (page : Except PyException (TargetPageResult ItemOutcome)) (stats : RefreshStats)
      (hdone : (refreshPage (run.includes includeDeleted) page stats).1 = none) :=
    keys_of_page hdone
  exact eachUntil_all hkeys _ _ h page hpage item hmem

/-- The counters of a dataset add up to its items and those that raised late. -/
theorem total_ended (h : (run.ended includeDeleted).1 = none) :
    (run.ended includeDeleted).2.total = run.items.length +
      run.items.countP (ItemOutcome.raisesLate (run.includes includeDeleted)) := by
  have hpage (page : Except PyException (TargetPageResult ItemOutcome)) (stats : RefreshStats)
      (hdone : (refreshPage (run.includes includeDeleted) page stats).1 = none) :=
    total_page hdone
  have hsum := eachUntil_sum (m := RefreshStats.total) hpage _ _ h
  have hflat : run.items.map
      (fun item => 1 + (item.raisesLate (run.includes includeDeleted)).toNat) =
        run.pages.flatMap fun page => (pageItems page).map
          fun item => 1 + (item.raisesLate (run.includes includeDeleted)).toNat := by
    rw [items_eq, List.map_flatMap]
  rw [← sum_once_and_late, hflat, List.flatMap_def, List.sum_flatten, List.map_map]
  exact hsum.trans (Nat.zero_add _)

theorem accounted_iff (h : (run.ended includeDeleted).1 = none) :
    run.Accounted includeDeleted (run.ended includeDeleted).2 ↔
      ∀ item ∈ run.items, item.raisesLate (run.includes includeDeleted) = false := by
  have hkeys := keys_of_ended h
  constructor
  · intro haccounted item hitem
    obtain ⟨key,hkey⟩ := hkeys item hitem
    exact (ItemOutcome.countsOnce_iff hkey).mp (haccounted.once item hitem)
  · intro hnone
    refine ⟨?_,fun item hitem => ?_⟩
    · have htotal := total_ended h
      rw [List.countP_eq_zero.mpr fun item hitem => by simp [hnone item hitem],
        Nat.add_zero] at htotal
      exact htotal
    · obtain ⟨key,hkey⟩ := hkeys item hitem
      exact (ItemOutcome.countsOnce_iff hkey).mpr (hnone item hitem)

end DatasetRun

/-- A refresh over distinct datasets runs the loop of each from nothing and keeps its counters. -/
theorem refreshed_datasets {runs : List DatasetRun} (hdistinct : (runs.map DatasetRun.dataset).Nodup)
    (stats : Dict String RefreshStats)
    (hnew : ∀ run ∈ runs, Dict.get? stats run.dataset = none)
    (h : (eachUntil (DatasetRun.refresh includeDeleted) runs stats).1 = none) :
    (∀ name, name ∉ runs.map DatasetRun.dataset →
      Dict.get? (eachUntil (DatasetRun.refresh includeDeleted) runs stats).2 name =
        Dict.get? stats name) ∧
    ∀ run ∈ runs, (run.ended includeDeleted).1 = none ∧
      Dict.get? (eachUntil (DatasetRun.refresh includeDeleted) runs stats).2 run.dataset =
        some (run.ended includeDeleted).2 := by
  induction runs generalizing stats with
  | nil => exact ⟨fun _ _ => rfl,fun run hrun => absurd hrun List.not_mem_nil⟩
  | cons run runs ih =>
    obtain ⟨hother,hrest⟩ := List.nodup_cons.mp hdistinct
    have hstep : run.refresh includeDeleted stats =
        ((run.ended includeDeleted).1,
          Dict.set stats run.dataset (run.ended includeDeleted).2) := by
      unfold DatasetRun.refresh DatasetRun.ended
      rw [hnew run List.mem_cons_self]
      rfl
    unfold eachUntil at h ⊢
    rw [hstep] at h ⊢
    cases hended : (run.ended includeDeleted).1 with
    | some exc =>
      rw [hended] at h
      cases h
    | none =>
      rw [hended] at h
      dsimp only at h ⊢
      have hfresh : ∀ next ∈ runs,
          Dict.get? (Dict.set stats run.dataset (run.ended includeDeleted).2) next.dataset = none := by
        intro next hnext
        have hne : run.dataset ≠ next.dataset :=
          fun heq => hother (heq ▸ List.mem_map_of_mem hnext)
        rw [Dict.get?_set_ne _ _ hne]
        exact hnew next (.tail _ hnext)
      obtain ⟨hframe,hall⟩ := ih hrest _ hfresh h
      refine ⟨fun name hname => ?_,List.forall_mem_cons.mpr ⟨⟨hended,?_⟩,hall⟩⟩
      · obtain ⟨hne,hlater⟩ := not_or.mp fun hin => hname (List.mem_cons.mpr hin)
        rw [hframe name hlater]
        exact Dict.get?_set_ne _ _ (Ne.symm hne)
      · rw [hframe _ hother]
        exact Dict.get?_set_self _ _ _

end Loops

/-- In a refresh over distinct datasets that is not broken off, the counters of a dataset account
for its items if and only if none of them meets an exception after it was counted. -/
theorem refresh_accounts_iff {includeDeleted : Option Bool} {runs : List DatasetRun}
    (hdistinct : (runs.map DatasetRun.dataset).Nodup) {stats : Dict String RefreshStats}
    (h : refreshRuns includeDeleted runs = .ok stats) :
    ∀ run ∈ runs, ∃ own, Dict.get? stats run.dataset = some own ∧
      (run.Accounted includeDeleted own ↔
        ∀ item ∈ run.items, item.raisesLate (run.includes includeDeleted) = false) := by
  unfold refreshRuns at h
  split at h
  · cases h
  · rename_i ended hended
    cases h
    have hnone : (eachUntil (DatasetRun.refresh includeDeleted) runs []).1 = none := by rw [hended]
    obtain ⟨_,hall⟩ := refreshed_datasets hdistinct [] (fun _ _ => rfl) hnone
    intro run hrun
    obtain ⟨hcompleted,hget⟩ := hall run hrun
    rw [hended] at hget
    exact ⟨_,hget,DatasetRun.accounted_iff hcompleted⟩

section Samples

def writtenItem (result : UpsertResult) : ItemOutcome where
  key := .ok "E1"
  deleted := .ok false
  mapped := .ok [("code",.str "E1")]
  upserted := .ok result
  synced := .ok ()
  reported := .ok ()
  failureReported := .ok ()

/-- The cache took the item, but the identity database is locked. -/
def lockedItem : ItemOutcome :=
  { writtenItem .inserted with
    synced := .error ⟨"OperationalError","database is locked"⟩ }

def employeeRun (items : List ItemOutcome) : DatasetRun where
  dataset := "employees"
  includeDeletedDefault := false
  pages := [.ok ⟨true,1,items,none⟩]

theorem refresh_accounts_written : (employeeRun [writtenItem .inserted,
    { writtenItem .updated with deleted := .ok true },
    { writtenItem .updated with mapped := .error ⟨"ValueError","required"⟩ }]).Accounted none
      ⟨1,0,1,1,1⟩ := by
  obtain ⟨own,hown,hiff⟩ := @refresh_accounts_iff none
    [employeeRun [writtenItem .inserted, { writtenItem .updated with deleted := .ok true },
      { writtenItem .updated with mapped := .error ⟨"ValueError","required"⟩ }]]
    (by decide) _ rfl _ List.mem_cons_self
  cases hown
  exact hiff.mpr (by decide)

/-- One item counts as inserted and as failed. -/
theorem locked_item_counts_twice : ∃ stats,
    refreshRuns none [employeeRun [lockedItem]] = .ok [("employees",stats)] ∧
      stats.inserted = 1 ∧ stats.failed = 1 ∧ ¬(employeeRun [lockedItem]).Accounted none stats := by
  refine ⟨⟨1,0,1,0,1⟩,rfl,rfl,rfl,fun h => ?_⟩
  have htotal := h.total
  cases htotal

end Samples

namespace CacheRefreshService

variable {C ρ : Type} (service : CacheRefreshService C ρ) (call : RefreshCall)
  (adapter : CacheSyncAdapter ρ)

/-- How the calls for an item end in a state of the stores; its sync and its events raise
nothing. -/
def outcomeOf (raw : ρ) (s : RefreshState C) : ItemOutcome where
  key := adapter.getItemKey raw
  deleted := adapter.isDeleted raw
  mapped := adapter.mapTargetToCache raw
  upserted := (adapter.mapTargetToCache raw).bind fun mapped =>
    (service.repository.upsert s.stores.cache adapter.dataset mapped).1
  synced := .ok ()
  reported := .ok ()
  failureReported := .ok ()

theorem statsOf_count (dataset : String) (f : RefreshStats → RefreshStats) (s : RefreshState C) :
    statsOf dataset (count dataset f s) = f (statsOf dataset s) := by
  rw [statsOf, count, Dict.get?_set_self]
  rfl

theorem statsOf_syncRecord (dataset now : String) (r : SyncedRecord) (s : RefreshState C) :
    statsOf dataset (service.syncRecord now r s) = statsOf dataset s := by
  unfold syncRecord
  cases service.identitySyncer with
  | none => rfl
  | some syncer => rfl

/-- The counters of the refresh are those of the outcomes. -/
theorem refreshItem_counters (raw : ρ) (s : RefreshState C) :
    ((service.refreshItem call adapter raw s).1,
      statsOf adapter.dataset (service.refreshItem call adapter raw s).2) =
    (service.outcomeOf adapter raw s).refresh
      (call.includeDeleted.getD adapter.includeDeletedDefault) (statsOf adapter.dataset s) := by
  unfold refreshItem ItemOutcome.refresh ItemOutcome.attempt outcomeOf
  cases adapter.getItemKey raw with
  | error exc => rfl
  | ok key => cases adapter.isDeleted raw with
    | error exc => exact congrArg _ (statsOf_count _ _ s)
    | ok deleted =>
      dsimp only
      by_cases hskip : (deleted && !call.includeDeleted.getD adapter.includeDeletedDefault) = true
      · rw [if_pos hskip, if_pos hskip]
        exact congrArg _ (statsOf_count _ _ s)
      · rw [if_neg hskip, if_neg hskip]
        cases adapter.mapTargetToCache raw with
        | error exc => exact congrArg _ (statsOf_count _ _ s)
        | ok mapped =>
          unfold writeRecord
          dsimp only [Except.bind]
          cases service.repository.upsert s.stores.cache adapter.dataset mapped with
          | mk upserted cache => cases upserted with
            | error exc => exact congrArg _ (statsOf_count _ _ _)
            | ok result =>
              dsimp only
              rw [statsOf_syncRecord, statsOf_count]
              cases result with
              | inserted => rfl
              | updated => rfl

/-- While the identity database can be written and the report takes its events, every item counts
once. -/
theorem outcomeOf_not_late (raw : ρ) (s : RefreshState C) (includeDeleted : Bool) :
    (service.outcomeOf adapter raw s).raisesLate includeDeleted = false := by
  unfold ItemOutcome.raisesLate
  split
  · rfl
  · split
    · rfl
    · split
      · rfl
      · rfl

end CacheRefreshService

end NexusEtl
