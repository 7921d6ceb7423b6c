import NexusEtl.PendingLinks

/-!
# The identity index and its syncer

The identity database holds the index of known keys beside the pending links.
After a record was written to the target or to the cache, the syncer enters the
record's keys into the index and closes the links that wait for one of them.
-/

set_option autoImplicit false

namespace NexusEtl
open NexusEtl.Library

structure IdentityEntry where
  dataset : String
  identityKey : String
  resolvedId : String
  deriving DecidableEq, Repr

structure IdentityDb where
  index : List IdentityEntry
  pending : PendingTable

namespace IdentityDb

def empty : IdentityDb := ⟨[],PendingTable.empty⟩

def upsertIdentity (db : IdentityDb) (entry : IdentityEntry) : IdentityDb :=
  if entry ∈ db.index then db else { db with index := db.index ++ [entry] }

def findCandidates (db : IdentityDb) (dataset identityKey : String) : List String :=
  (db.index.filter fun e => e.dataset == dataset && e.identityKey == identityKey).map
    IdentityEntry.resolvedId

@[simp] theorem upsertIdentity_pending (db : IdentityDb) (entry : IdentityEntry) :
    (db.upsertIdentity entry).pending = db.pending := by
  unfold upsertIdentity
  split <;> rfl

end IdentityDb

def formatIdentityKey (name value : String) : String := name ++ ":" ++ value

structure IdentityIndexSyncer where
  identityKeys : Dict String (List String)
  identityIdFields : Dict String String
  deriving DecidableEq, Repr

namespace IdentityIndexSyncer

def idFieldFor (syncer : IdentityIndexSyncer) (dataset : String) : String :=
  (Dict.get? syncer.identityIdFields dataset).getD "_id"

def normalizeValue (v : Value) : Option String :=
  if v.isNull || Text.strip v.pyStr == "" then none else some (Text.strip v.pyStr)

def resolvePendingForKey (t : PendingTable) (dataset identityKey now : String) : PendingTable :=
  (t.listPendingForKey dataset identityKey).foldl
    (fun t link => t.markResolved link.pendingId now) t

/-- The keys of a record that the index takes, in the order of the key names. -/
def keysOf (names : List String) (values : Fields) : List String :=
  names.filterMap fun name =>
    (normalizeValue (Fields.read values name)).map (formatIdentityKey name)

def syncKey (dataset resolvedId now : String) (db : IdentityDb) (key : String) : IdentityDb :=
  let indexed := db.upsertIdentity ⟨dataset,key,resolvedId⟩
  { indexed with pending := resolvePendingForKey indexed.pending dataset key now }

def sync (syncer : IdentityIndexSyncer) (db : IdentityDb) (dataset : String)
    (resolvedId : Value) (keyValues : Fields) (now : String) : IdentityDb :=
  let names := (Dict.get? syncer.identityKeys dataset).getD []
  match normalizeValue resolvedId with
  | none => db
  | some id => (keysOf names keyValues).foldl (syncKey dataset id now) db

/-- The links that a sync closes. -/
def closes (syncer : IdentityIndexSyncer) (dataset : String) (resolvedId : Value)
    (keyValues : Fields) (l : PendingLink) : Bool :=
  (normalizeValue resolvedId).isSome && l.dataset == dataset && l.status == .pending &&
    (keysOf ((Dict.get? syncer.identityKeys dataset).getD []) keyValues).contains l.lookupKey

end IdentityIndexSyncer

namespace PendingTable

theorem ext_rows {t u : PendingTable} (hr : t.rows = u.rows) (hn : t.nextId = u.nextId) :
    t = u := by
  cases t
  cases u
  cases hr
  cases hn
  rfl

theorem modifyWhere_congr (t : PendingTable) {p q : PendingLink → Bool}
    (f : PendingLink → PendingLink) (hf : ∀ l, (f l).pendingId = l.pendingId)
    (h : ∀ l ∈ t.rows, p l = q l) : t.modifyWhere p f hf = t.modifyWhere q f hf :=
  ext_rows (List.map_congr_left fun l hl => by simp [h l hl]) rfl

/-- Two statements with one effect that the first leaves nothing of for the second. -/
theorem modifyWhere_modifyWhere (t : PendingTable) {p q : PendingLink → Bool}
    (f : PendingLink → PendingLink) (hf : ∀ l, (f l).pendingId = l.pendingId)
    (h : ∀ l, q (f l) = false) :
    (t.modifyWhere p f hf).modifyWhere q f hf = t.modifyWhere (fun l => p l || q l) f hf := by
  refine ext_rows ?_ rfl
  simp only [modifyWhere, modify_rows, List.map_map]
  refine List.map_congr_left fun l _ => ?_
  by_cases hp : p l = true
  · simp [hp, h]
  · simp [hp]

/-- Closing the links of a list one by one. -/
theorem foldl_markResolved (t : PendingTable) (links : List PendingLink) (now : String) :
    links.foldl (fun t link => t.markResolved link.pendingId now) t =
      t.modifyWhere (fun l => (links.map PendingLink.pendingId).contains l.pendingId)
        (closed .resolved none now) (closed_pendingId _ _ _) := by
  induction links generalizing t with
  | nil => exact ext_rows (by simp [modifyWhere]) rfl
  | cons link links ih =>
    rw [List.foldl_cons, ih]
    refine ext_rows ?_ rfl
    simp only [markResolved, modifyId, modifyWhere, modify_rows, List.map_map]
    refine List.map_congr_left fun l _ => ?_
    by_cases hl : l.pendingId = link.pendingId
    · have hid : (closed .resolved none now l).pendingId = l.pendingId := rfl
      simp only [Function.comp_apply, hl, if_true, List.map_cons, List.contains_cons,
        beq_self_eq_true, Bool.true_or]
      split <;> rfl
    · simp [hl]

end PendingTable

namespace IdentityIndexSyncer

open PendingTable

def waitsFor (dataset : String) (keys : List String) (l : PendingLink) : Bool :=
  l.dataset == dataset && l.status == .pending && keys.contains l.lookupKey

theorem resolvePendingForKey_eq (t : PendingTable) (dataset key now : String) :
    resolvePendingForKey t dataset key now =
      t.modifyWhere (waitsFor dataset [key]) (closed .resolved none now) (closed_pendingId _ _ _) := by
  rw [resolvePendingForKey, foldl_markResolved]
  refine t.modifyWhere_congr _ _ fun l hl => ?_
  rw [Bool.eq_iff_iff, List.contains_iff_mem, List.mem_map]
  constructor
  · rintro ⟨m,hm,hid⟩
    obtain ⟨hmem,hopen⟩ := List.mem_filter.mp hm
    rw [t.eq_of_pendingId hmem hl hid] at hopen
    simp only [Bool.and_eq_true, beq_iff_eq] at hopen
    simp [waitsFor, hopen]
  · intro h
    simp only [waitsFor, Bool.and_eq_true, beq_iff_eq, List.contains_iff_mem,
      List.mem_singleton] at h
    exact ⟨l,List.mem_filter.mpr ⟨hl,by simp [h]⟩,rfl⟩

theorem foldl_syncKey_pending (db : IdentityDb) (dataset id now : String)
    (keys : List String) :
    (keys.foldl (syncKey dataset id now) db).pending =
      db.pending.modifyWhere (waitsFor dataset keys) (closed .resolved none now)
        (closed_pendingId _ _ _) := by
  induction keys generalizing db with
  | nil => exact ext_rows (by simp [modifyWhere, waitsFor]) rfl
  | cons key keys ih =>
    rw [List.foldl_cons, ih]
    simp only [syncKey, IdentityDb.upsertIdentity_pending, resolvePendingForKey_eq]
    rw [modifyWhere_modifyWhere _ _ _ fun l => by simp [waitsFor, closed]]
    refine modifyWhere_congr _ _ _ fun l _ => ?_
    simp only [waitsFor, List.contains_cons, List.contains_nil, Bool.or_false,
      ← Bool.and_or_distrib_left]

/-- A sync closes the links that wait in its dataset for one of the record's keys, and
changes no other link. -/
theorem sync_pending (syncer : IdentityIndexSyncer) (db : IdentityDb) (dataset : String)
    (resolvedId : Value) (keyValues : Fields) (now : String) :
    (syncer.sync db dataset resolvedId keyValues now).pending =
      db.pending.modifyWhere (syncer.closes dataset resolvedId keyValues)
        (closed .resolved none now) (closed_pendingId _ _ _) := by
  unfold sync
  dsimp only
  split
  · rename_i h
    exact ext_rows (by simp [modifyWhere, closes, h]) rfl
  · rename_i id h
    rw [foldl_syncKey_pending]
    exact modifyWhere_congr _ _ _ fun l _ => by simp [waitsFor, closes, h]

/-- The entries that a sync writes, in the order of the key names. -/
def entries (syncer : IdentityIndexSyncer) (dataset : String) (resolvedId : Value)
    (keyValues : Fields) : List IdentityEntry :=
  match normalizeValue resolvedId with
  | none => []
  | some id => (keysOf ((Dict.get? syncer.identityKeys dataset).getD []) keyValues).map
      fun key => ⟨dataset,key,id⟩

/-- The index after a sync is the index with the entries of the sync upserted. -/
theorem sync_index (syncer : IdentityIndexSyncer) (db : IdentityDb) (dataset : String)
    (resolvedId : Value) (keyValues : Fields) (now : String) :
    (syncer.sync db dataset resolvedId keyValues now).index =
      ((syncer.entries dataset resolvedId keyValues).foldl IdentityDb.upsertIdentity db).index := by
  have hindex : ∀ (db₁ db₂ : IdentityDb) (entry : IdentityEntry), db₁.index = db₂.index →
      (db₁.upsertIdentity entry).index = (db₂.upsertIdentity entry).index := by
    intro db₁ db₂ entry h
    simp only [IdentityDb.upsertIdentity, h]
    split
    · exact h
    · rfl
  have hfold : ∀ (id : String) (keys : List String) (db₁ db₂ : IdentityDb),
      db₁.index = db₂.index → (keys.foldl (syncKey dataset id now) db₁).index =
        ((keys.map fun key => (⟨dataset,key,id⟩ : IdentityEntry)).foldl
          IdentityDb.upsertIdentity db₂).index := by
    intro id keys
    induction keys with
    | nil => exact fun _ _ h => h
    | cons key keys ih =>
      intro db₁ db₂ h
      exact ih _ _ (hindex _ _ _ h)
  unfold sync entries
  cases normalizeValue resolvedId with
  | none => rfl
  | some id => exact hfold _ _ _ _ rfl

end IdentityIndexSyncer
end NexusEtl
