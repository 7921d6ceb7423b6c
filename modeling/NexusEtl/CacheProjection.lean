import NexusEtl.CachedRows
import NexusEtl.Library.Fallible
import NexusEtl.Library.Keyed

/-!
# A cached row and its projection

The adapter names the values of a write model by columns. The handler looks for
the value of a column under the source of the column, and the column stores it
in the form of its type. This module compares the row that the handler writes
with the row that the adapter computed.
-/

set_option autoImplicit false

namespace NexusEtl
open NexusEtl.Library

/-- A value with its booleans as 0 and 1; numbers in a boolean column are booleans. -/
def zeroOne (type : CacheFieldType) : Value → Value
  | .bool b => .int (if b then 1 else 0)
  | .int n => if type = .bool then .int (if n ≠ 0 then 1 else 0) else .int n
  | v => v

/-- The row that the projection computed, column by column. -/
def CacheSpec.computedRow (spec : CacheSpec) (mapped : Fields) : CacheRow :=
  spec.fields.map fun f => (f.name,zeroOne f.type (Fields.read mapped f.name))

/-- Exactly one row has the computed primary key, it is the computed row, and the rows
with other primary keys are the rows that were there. -/
structure Cached (spec : CacheSpec) (mapped : Fields) (rows rows' : List CacheRow) : Prop where
  single : Keyed.withKey spec.keyOf (spec.keyOf (spec.computedRow mapped)) rows' =
    [spec.computedRow mapped]
  others : Keyed.without spec.keyOf (spec.keyOf (spec.computedRow mapped)) rows' =
    Keyed.without spec.keyOf (spec.keyOf (spec.computedRow mapped)) rows

namespace Sqlite

variable (sqlite : Sqlite) (spec : CacheSpec)

/-- A value as a parameter of a statement. -/
def boundForm : Value → Value
  | .bool b => .int (if b then 1 else 0)
  | v => v

/-- The value under the source of a column, in the form that the column stores. -/
def cell (f : FieldSpec) (mapped : Fields) : Value :=
  sqlite.stored (mapSqliteType f.type) (boundForm (f.extract mapped))

def sourceRow (mapped : Fields) : CacheRow :=
  spec.fields.map fun f => (f.name,sqlite.cell f mapped)

/-- A row with the next rowid in place of a NULL rowid. -/
def numbered (rows : List CacheRow) (row : CacheRow) : CacheRow :=
  match spec.rowidColumn with
  | none => row
  | some name =>
    if Fields.read row name = .null then
      Dict.set row name (.int (sqlite.newRowid (rowids name rows)))
    else row

/-- The row under the sources is the computed row, and its key has no NULL or is new. -/
def StoresComputed (mapped : Fields) (rows : List CacheRow) : Prop :=
  sqlite.numbered spec rows (sqlite.sourceRow spec mapped) = spec.computedRow mapped ∧
    (.null ∉ spec.keyOf (spec.computedRow mapped) ∨
      ∀ row ∈ rows, spec.keyOf row ≠ spec.keyOf (spec.computedRow mapped))

/-- Both the row under the sources and the computed row are in the table already. -/
def NothingNew (mapped : Fields) (rows : List CacheRow) : Prop :=
  .null ∉ spec.keyOf (sqlite.sourceRow spec mapped) ∧ sqlite.sourceRow spec mapped ∈ rows ∧
    Keyed.withKey spec.keyOf (spec.keyOf (spec.computedRow mapped)) rows =
      [spec.computedRow mapped]

end Sqlite

/-! ## Rows by their columns -/

namespace CacheSpec

variable {spec : CacheSpec}

theorem keys_byColumn (value : FieldSpec → Value) :
    Dict.keys (spec.fields.map fun f => (f.name,value f)) = spec.names := by
  simp [Dict.keys, CacheSpec.names, Function.comp_def]

theorem read_byColumn (hnd : spec.names.Nodup) (value : FieldSpec → Value) {f : FieldSpec}
    (hf : f ∈ spec.fields) :
    Fields.read (spec.fields.map fun f => (f.name,value f)) f.name = value f := by
  rw [Fields.read, Dict.get?_map_of_mem FieldSpec.name value hnd hf]
  rfl

theorem column?_eq_some {name : String} {f : FieldSpec} (h : spec.column? name = some f) :
    f ∈ spec.fields ∧ f.name = name := by
  have hname := List.find?_some (p := fun g : FieldSpec => g.name == name) h
  exact ⟨List.mem_of_find?_eq_some h,beq_iff_eq.mp hname⟩

theorem rowidColumn_mem {name : String} (h : spec.rowidColumn = some name) :
    name ∈ spec.names ∧ spec.primaryKey = [name] := by
  unfold rowidColumn at h
  split at h
  · rename_i key hkey
    cases hc : spec.column? key with
    | none =>
      rw [hc] at h
      cases h
    | some f =>
      obtain ⟨hf,hname⟩ := column?_eq_some hc
      rw [hc] at h
      by_cases ht : (some f).any (fun f => decide (mapSqliteType f.type = .integer)) = true
      · rw [if_pos ht] at h
        cases h
        exact ⟨List.mem_map.mpr ⟨f,hf,hname⟩,hkey⟩
      · rw [if_neg ht] at h
        cases h
  · cases h

theorem extractValues_eq (hnd : spec.names.Nodup) (mapped : Fields) :
    GenericCacheHandler.extractValues spec.fields mapped =
      spec.fields.map fun f => (f.name,f.extract mapped) := by
  rw [GenericCacheHandler.extractValues, Dict.foldl_set_eq_append]
  · rfl
  · exact hnd

/-- A row over the columns of the table is known by what it holds in them. -/
theorem row_ext (hnd : spec.names.Nodup) {a b : CacheRow} (ha : Dict.keys a = spec.names)
    (hb : Dict.keys b = spec.names) (h : ∀ name ∈ spec.names, Fields.read a name =
      Fields.read b name) : a = b := by
  apply Dict.ext_keys (ha.trans hb.symm) (ha ▸ hnd)
  intro name hname
  obtain ⟨v,hv⟩ := Option.isSome_iff_exists.mp (Dict.mem_keys_iff.mp hname)
  obtain ⟨w,hw⟩ := Option.isSome_iff_exists.mp (Dict.mem_keys_iff.mp (hb ▸ ha ▸ hname))
  have hread := h name (ha ▸ hname)
  rw [Fields.read, Fields.read, hv, hw] at hread
  have hvw : v = w := hread
  rw [hv, hw, hvw]

end CacheSpec

/-! ## The statements of the handler -/

namespace Sqlite

variable {sqlite : Sqlite} {spec : CacheSpec} {mapped : Fields}

theorem bind_ok {name : String} {v w : Value} (h : sqlite.bind name v = .ok w) :
    w = boundForm v := by
  cases v with
  | int n =>
    rw [bind] at h
    by_cases hn : inRange n = true
    · rw [if_pos hn] at h
      exact (Except.ok.inj h).symm
    · rw [if_neg hn] at h
      cases h
  | list items => cases h
  | dict fields => cases h
  | _ => exact (Except.ok.inj h).symm

/-- A parameter names a column and has what the row under the sources holds there. -/
theorem parameter_ok (hnd : spec.names.Nodup) {name : String} {v : Value}
    (h : sqlite.parameter spec (GenericCacheHandler.extractValues spec.fields mapped) name =
      .ok v) :
    name ∈ spec.names ∧ v = Fields.read (sqlite.sourceRow spec mapped) name := by
  rw [CacheSpec.extractValues_eq hnd] at h
  cases hc : spec.column? name with
  | none =>
    rw [parameter, hc] at h
    cases h
  | some f =>
    obtain ⟨hf,rfl⟩ := CacheSpec.column?_eq_some hc
    simp only [parameter, hc] at h
    rw [CacheSpec.read_byColumn hnd _ hf] at h
    cases hb : sqlite.bind f.name (f.extract mapped) with
    | error e =>
      rw [hb] at h
      cases h
    | ok w =>
      rw [hb] at h
      have hv : sqlite.stored (mapSqliteType f.type) w = v := Except.ok.inj h
      refine ⟨List.mem_map.mpr ⟨f,hf,rfl⟩,?_⟩
      rw [sourceRow, CacheSpec.read_byColumn hnd _ hf, ← hv, bind_ok hb]
      rfl

theorem parameters_ok (hnd : spec.names.Nodup) {names : List String} {sets : Fields}
    (h : sqlite.parameters spec (GenericCacheHandler.extractValues spec.fields mapped) names =
      .ok sets) :
    (∀ name ∈ names, name ∈ spec.names) ∧
      sets = names.map fun name => (name,Fields.read (sqlite.sourceRow spec mapped) name) := by
  induction names generalizing sets with
  | nil =>
    rw [parameters, List.mapM_nil] at h
    exact ⟨by simp,(Except.ok.inj h).symm⟩
  | cons name names ih =>
    rw [parameters, List.mapM_cons] at h
    cases hp : sqlite.parameter spec (GenericCacheHandler.extractValues spec.fields mapped)
      name with
    | error e =>
      rw [hp] at h
      cases h
    | ok v =>
      cases hr : sqlite.parameters spec (GenericCacheHandler.extractValues spec.fields mapped)
        names with
      | error e =>
        rw [parameters] at hr
        rw [hp, hr] at h
        cases h
      | ok rest =>
        obtain ⟨hin,hv⟩ := parameter_ok hnd hp
        obtain ⟨hall,hrest⟩ := ih hr
        rw [parameters] at hr
        rw [hp, hr] at h
        have hsets : (name,v)::rest = sets := Except.ok.inj h
        refine ⟨List.forall_mem_cons.mpr ⟨hin,hall⟩,?_⟩
        rw [← hsets, hv, hrest]
        rfl

theorem checked_ok {rows rows' : List CacheRow} (h : sqlite.checked spec rows = .ok rows') :
    rows' = rows ∧ ∀ columns ∈ spec.constraints, CacheSpec.Distinct columns rows := by
  cases hf : spec.constraints.find? fun columns =>
      !decide (CacheSpec.Distinct columns rows) with
  | some columns =>
    rw [checked, hf] at h
    cases h
  | none =>
    rw [checked, hf] at h
    refine ⟨(Except.ok.inj h).symm,fun columns hc => ?_⟩
    have hnone := List.find?_eq_none.mp hf columns hc
    simpa using hnone

theorem withRowid_ok {rows : List CacheRow} {row row' : CacheRow}
    (h : sqlite.withRowid spec rows row = .ok row') : row' = sqlite.numbered spec rows row := by
  cases hr : spec.rowidColumn with
  | none =>
    simp only [withRowid, hr] at h
    simp only [numbered, hr]
    exact (Except.ok.inj h).symm
  | some name =>
    simp only [withRowid, hr] at h
    simp only [numbered, hr]
    cases hv : Fields.read row name with
    | null =>
      rw [hv] at h
      rw [if_pos rfl]
      exact (Except.ok.inj h).symm
    | int n =>
      rw [hv] at h
      rw [if_neg (by simp)]
      exact (Except.ok.inj h).symm
    | _ =>
      rw [hv] at h
      cases h

/-- The rows that the statements choose: those with the key of the row, if it has no NULL. -/
theorem selects_iff {row other : CacheRow} :
    selects (spec.primaryKey.map fun name => (name,Fields.read row name)) other = true ↔
      .null ∉ spec.keyOf row ∧ spec.keyOf other = spec.keyOf row := by
  simp only [selects, CacheSpec.keyOf]
  induction spec.primaryKey with
  | nil => simp
  | cons name names ih =>
    simp only [List.map_cons, List.all_cons, Bool.and_eq_true, bne_iff_ne, beq_iff_eq, ih,
      List.mem_cons, not_or, List.cons.injEq]
    constructor
    · rintro ⟨⟨hne,heq⟩,hnull,hrest⟩
      exact ⟨⟨Ne.symm hne,hnull⟩,heq,hrest⟩
    · rintro ⟨⟨hne,hnull⟩,heq,hrest⟩
      exact ⟨⟨Ne.symm hne,heq⟩,hnull,hrest⟩

theorem keys_sourceRow : Dict.keys (sqlite.sourceRow spec mapped) = spec.names :=
  CacheSpec.keys_byColumn _

/-- An update of a chosen row gives it the cells of the row under the sources. -/
theorem assign_eq (hnd : spec.names.Nodup) {row : CacheRow} (hrow : Dict.keys row = spec.names)
    (hkey : spec.keyOf row = spec.keyOf (sqlite.sourceRow spec mapped)) :
    assign ((spec.names.filter (· ∉ spec.primaryKey)).map fun name =>
      (name,Fields.read (sqlite.sourceRow spec mapped) name)) row =
      sqlite.sourceRow spec mapped := by
  have hkeys : Dict.keys (assign ((spec.names.filter (· ∉ spec.primaryKey)).map fun name =>
      (name,Fields.read (sqlite.sourceRow spec mapped) name)) row) = spec.names := by
    rw [← hrow]
    simp [Dict.keys, assign, Function.comp_def]
  apply CacheSpec.row_ext hnd hkeys keys_sourceRow
  intro name hname
  obtain ⟨old,hold⟩ := Option.isSome_iff_exists.mp (Dict.mem_keys_iff.mp (hrow ▸ hname))
  have hread : Fields.read row name = old := by rw [Fields.read, hold, Option.getD_some]
  rw [Fields.read, assign, Dict.get?_mapEntries row fun name v => (Dict.get? _ name).getD v, hold]
  by_cases hpk : name ∈ spec.primaryKey
  · have hnone : Dict.get? ((spec.names.filter (· ∉ spec.primaryKey)).map fun name =>
        (name,Fields.read (sqlite.sourceRow spec mapped) name)) name = none := by
      apply Dict.get?_eq_none
      simp [Dict.keys, Function.comp_def, hpk]
    rw [hnone]
    exact hread.symm.trans (List.map_inj_left.mp hkey name hpk)
  · have hin : name ∈ spec.names.filter (· ∉ spec.primaryKey) :=
      List.mem_filter.mpr ⟨hname,decide_eq_true hpk⟩
    have hdistinct : ((spec.names.filter (· ∉ spec.primaryKey)).map fun n => n).Nodup := by
      rw [List.map_id']
      exact hnd.filter _
    rw [Dict.get?_map_of_mem (fun n => n) (Fields.read (sqlite.sourceRow spec mapped)) hdistinct hin]
    rfl

theorem keys_numbered {rows : List CacheRow} {row : CacheRow} (hrow : Dict.keys row = spec.names) :
    Dict.keys (sqlite.numbered spec rows row) = spec.names := by
  cases hr : spec.rowidColumn with
  | none =>
    simp only [numbered, hr]
    exact hrow
  | some name =>
    simp only [numbered, hr]
    by_cases hn : Fields.read row name = .null
    · have hin : name ∈ Dict.keys row := by
        rw [hrow]
        exact (CacheSpec.rowidColumn_mem hr).1
      rw [if_pos hn, Dict.keys_set_of_mem hin, hrow]
    · rw [if_neg hn, hrow]

end Sqlite

namespace GenericCacheHandler

variable {sqlite : Sqlite} {spec : CacheSpec} {mapped : Fields} {rows rows' : List CacheRow}
  {result : UpsertResult}

/-- The rows of one key after an update: each is the row under the sources. -/
theorem updated_eq (hnd : spec.names.Nodup) (hs : spec.Sound rows)
    (hnull : .null ∉ spec.keyOf (sqlite.sourceRow spec mapped)) :
    (rows.map fun row => if Sqlite.selects (spec.primaryKey.map fun name =>
        (name,Fields.read (sqlite.sourceRow spec mapped) name)) row then
        Sqlite.assign ((spec.names.filter (· ∉ spec.primaryKey)).map fun name =>
          (name,Fields.read (sqlite.sourceRow spec mapped) name)) row else row) =
      Keyed.replace spec.keyOf (sqlite.sourceRow spec mapped) rows := by
  apply List.map_congr_left
  intro row hrow
  by_cases hkey : spec.keyOf row = spec.keyOf (sqlite.sourceRow spec mapped)
  · rw [if_pos (Sqlite.selects_iff.mpr ⟨hnull,hkey⟩), if_pos hkey]
    exact Sqlite.assign_eq hnd (hs.columns row hrow) hkey
  · rw [if_neg fun hsel => hkey (Sqlite.selects_iff.mp hsel).2, if_neg hkey]

theorem update_ok (hnd : spec.names.Nodup) (hs : spec.Sound rows)
    (hnull : .null ∉ spec.keyOf (sqlite.sourceRow spec mapped))
    (h : update sqlite spec rows (extractValues spec.fields mapped)
      (spec.primaryKey.map fun name =>
        (name,Fields.read (sqlite.sourceRow spec mapped) name)) = .ok (result,rows')) :
    rows' = Keyed.replace spec.keyOf (sqlite.sourceRow spec mapped) rows ∧
      ∀ columns ∈ spec.constraints, CacheSpec.Distinct columns rows' := by
  have hsame := updated_eq hnd hs hnull
  by_cases hfields : spec.names.filter (· ∉ spec.primaryKey) = []
  · rw [update, if_pos hfields] at h
    cases h
    refine ⟨?_,hs.distinct⟩
    rw [← hsame, hfields]
    simp [Sqlite.assign]
  · rw [update, if_neg hfields] at h
    obtain ⟨sets,hsets,h⟩ := bind_ok_iff.mp h
    obtain ⟨updated,hchecked,h⟩ := bind_ok_iff.mp h
    cases h
    have hwritten := (Sqlite.parameters_ok hnd hsets).2
    obtain ⟨hrows,hdistinct⟩ := Sqlite.checked_ok hchecked
    subst hwritten
    rw [hsame] at hrows hdistinct
    exact ⟨hrows,hrows ▸ hdistinct⟩

theorem insertNew_ok (hnd : spec.names.Nodup)
    (h : insertNew sqlite spec rows (extractValues spec.fields mapped) = .ok (result,rows')) :
    rows' = rows ++ [sqlite.numbered spec rows (sqlite.sourceRow spec mapped)] ∧
      ∀ columns ∈ spec.constraints, CacheSpec.Distinct columns rows' := by
  obtain ⟨bound,hbound,h⟩ := bind_ok_iff.mp h
  obtain ⟨row,hrow,h⟩ := bind_ok_iff.mp h
  obtain ⟨inserted,hchecked,h⟩ := bind_ok_iff.mp h
  cases h
  have hkeys : Dict.keys (extractValues spec.fields mapped) = spec.names := by
    rw [CacheSpec.extractValues_eq hnd, CacheSpec.keys_byColumn]
  have hsource : bound = sqlite.sourceRow spec mapped := by
    rw [(Sqlite.parameters_ok hnd hbound).2, hkeys]
    apply CacheSpec.row_ext hnd _ Sqlite.keys_sourceRow
    · intro name hname
      have hdistinct : (spec.names.map fun n => n).Nodup := by
        rw [List.map_id']
        exact hnd
      rw [Fields.read, Dict.get?_map_of_mem (fun n => n)
        (Fields.read (sqlite.sourceRow spec mapped)) hdistinct hname]
      rfl
    · simp [Dict.keys, Function.comp_def]
  obtain ⟨hrows,hdistinct⟩ := Sqlite.checked_ok hchecked
  rw [Sqlite.withRowid_ok hrow, hsource] at hrows hdistinct
  exact ⟨hrows,hrows ▸ hdistinct⟩

/-- What a write does: the rows with the key become the row under the sources, or that row
comes to the end of the table. -/
theorem upsert_cases (hnd : spec.names.Nodup) (hs : spec.Sound rows)
    (h : upsert sqlite spec rows mapped = .ok (result,rows')) :
    ((.null ∉ spec.keyOf (sqlite.sourceRow spec mapped) ∧
      (∃ row ∈ rows, spec.keyOf row = spec.keyOf (sqlite.sourceRow spec mapped)) ∧
      rows' = Keyed.replace spec.keyOf (sqlite.sourceRow spec mapped) rows) ∨
    ((.null ∉ spec.keyOf (sqlite.sourceRow spec mapped) →
        ∀ row ∈ rows, spec.keyOf row ≠ spec.keyOf (sqlite.sourceRow spec mapped)) ∧
      rows' = rows ++ [sqlite.numbered spec rows (sqlite.sourceRow spec mapped)])) ∧
    ∀ columns ∈ spec.constraints, CacheSpec.Distinct columns rows' := by
  obtain ⟨_,_,h⟩ := bind_ok_iff.mp h
  by_cases hpk : spec.primaryKey = []
  · rw [if_pos hpk] at h
    cases h
  rw [if_neg hpk] at h
  obtain ⟨key,hkey,h⟩ := bind_ok_iff.mp h
  have hkeys := (Sqlite.parameters_ok hnd hkey).2
  subst hkeys
  by_cases hany : rows.any (Sqlite.selects (spec.primaryKey.map fun name =>
      (name,Fields.read (sqlite.sourceRow spec mapped) name))) = true
  · rw [if_pos hany] at h
    obtain ⟨row,hrow,hsel⟩ := List.any_eq_true.mp hany
    obtain ⟨hnull,hk⟩ := Sqlite.selects_iff.mp hsel
    obtain ⟨hrows,hdistinct⟩ := update_ok hnd hs hnull h
    exact ⟨.inl ⟨hnull,⟨row,hrow,hk⟩,hrows⟩,hdistinct⟩
  · rw [if_neg hany] at h
    obtain ⟨hrows,hdistinct⟩ := insertNew_ok hnd h
    refine ⟨.inr ⟨fun hnull row hrow hk => ?_,hrows⟩,hdistinct⟩
    exact hany (List.any_eq_true.mpr ⟨row,hrow,Sqlite.selects_iff.mpr ⟨hnull,hk⟩⟩)

/-- A write keeps what the database enforces. -/
theorem sound_upsert (hnd : spec.names.Nodup) (hs : spec.Sound rows)
    (h : upsert sqlite spec rows mapped = .ok (result,rows')) : spec.Sound rows' where
  distinct := (upsert_cases hnd hs h).2
  columns := by
    intro row hrow
    rcases (upsert_cases hnd hs h).1 with ⟨_,_,hrows⟩ | ⟨_,hrows⟩
    · rw [hrows] at hrow
      obtain ⟨old,hold,rfl⟩ := List.mem_map.mp hrow
      by_cases hk : spec.keyOf old = spec.keyOf (sqlite.sourceRow spec mapped)
      · rw [if_pos hk]
        exact Sqlite.keys_sourceRow
      · rw [if_neg hk]
        exact hs.columns old hold
    · rw [hrows] at hrow
      rcases List.mem_append.mp hrow with hold | hnew
      · exact hs.columns row hold
      · rw [List.mem_singleton.mp hnew]
        exact Sqlite.keys_numbered Sqlite.keys_sourceRow

/-- The tables that writes build from an empty one. -/
inductive Reached (sqlite : Sqlite) (spec : CacheSpec) : List CacheRow → Prop
  | empty : Reached sqlite spec []
  | write {rows rows' : List CacheRow} {mapped : Fields} {result : UpsertResult} :
      Reached sqlite spec rows → upsert sqlite spec rows mapped = .ok (result,rows') →
      Reached sqlite spec rows'

theorem sound_reached (hnd : spec.names.Nodup) (h : Reached sqlite spec rows) : spec.Sound rows := by
  induction h with
  | empty => exact CacheSpec.sound_nil spec
  | write _ hu ih => exact sound_upsert hnd ih hu

/-- The new row of an insert has a key that is not there yet, if the key has no NULL. -/
theorem numbered_key_fresh
    (h : .null ∉ spec.keyOf (sqlite.sourceRow spec mapped) →
      ∀ row ∈ rows, spec.keyOf row ≠ spec.keyOf (sqlite.sourceRow spec mapped))
    (hnull : .null ∉ spec.keyOf (sqlite.numbered spec rows (sqlite.sourceRow spec mapped))) :
    ∀ row ∈ rows, spec.keyOf row ≠
      spec.keyOf (sqlite.numbered spec rows (sqlite.sourceRow spec mapped)) := by
  cases hr : spec.rowidColumn with
  | none =>
    simp only [Sqlite.numbered, hr] at hnull ⊢
    exact h hnull
  | some name =>
    by_cases hn : Fields.read (sqlite.sourceRow spec mapped) name = .null
    · simp only [Sqlite.numbered, hr, if_pos hn]
      intro row hrow heq
      simp only [CacheSpec.keyOf, (CacheSpec.rowidColumn_mem hr).2, List.map_cons, List.map_nil,
        Fields.read_set_self, List.cons.injEq, and_true] at heq
      apply sqlite.newRowid_fresh (Sqlite.rowids name rows)
      exact List.mem_filterMap.mpr ⟨row,hrow,by rw [heq]⟩
    · simp only [Sqlite.numbered, hr, if_neg hn] at hnull ⊢
      exact h hnull

theorem numbered_of_key (hnull : .null ∉ spec.keyOf (sqlite.sourceRow spec mapped)) :
    sqlite.numbered spec rows (sqlite.sourceRow spec mapped) = sqlite.sourceRow spec mapped := by
  cases hr : spec.rowidColumn with
  | none => simp only [Sqlite.numbered, hr]
  | some name =>
    have hn : Fields.read (sqlite.sourceRow spec mapped) name ≠ .null := by
      intro hn
      apply hnull
      simp [CacheSpec.keyOf, (CacheSpec.rowidColumn_mem hr).2, hn]
    simp only [Sqlite.numbered, hr, if_neg hn]

/-- A row whose key has no NULL is the only one with its key. -/
theorem withKey_eq_singleton (hs : spec.Sound rows) {row : CacheRow} (hrow : row ∈ rows)
    (hnull : .null ∉ spec.keyOf row) : Keyed.withKey spec.keyOf (spec.keyOf row) rows = [row] := by
  have hdistinct := hs.distinct spec.primaryKey List.mem_cons_self
  exact Keyed.withKey_eq_singleton spec.keyOf hdistinct (decide_eq_true hnull) hrow

/-- After an update: the row under the sources is the computed one, or nothing was new. -/
theorem cached_replace_iff (hs : spec.Sound rows)
    (hnull : .null ∉ spec.keyOf (sqlite.sourceRow spec mapped))
    (hold : ∃ row ∈ rows, spec.keyOf row = spec.keyOf (sqlite.sourceRow spec mapped)) :
    Cached spec mapped rows (Keyed.replace spec.keyOf (sqlite.sourceRow spec mapped) rows) ↔
      sqlite.StoresComputed spec mapped rows ∨ sqlite.NothingNew spec mapped rows := by
  obtain ⟨old,hold,hk⟩ := hold
  have honly : Keyed.withKey spec.keyOf (spec.keyOf (sqlite.sourceRow spec mapped)) rows = [old] := by
    rw [← hk]
    exact withKey_eq_singleton hs hold (hk ▸ hnull)
  have hself : sqlite.numbered spec rows (sqlite.sourceRow spec mapped) =
      sqlite.sourceRow spec mapped := numbered_of_key hnull
  by_cases hsame : spec.keyOf (sqlite.sourceRow spec mapped) =
      spec.keyOf (spec.computedRow mapped)
  · have hreplaced := Keyed.withKey_replace_self spec.keyOf (sqlite.sourceRow spec mapped) rows
    rw [honly, hsame, List.map_singleton] at hreplaced
    constructor
    · intro hc
      have hrow := hc.single
      rw [hreplaced] at hrow
      exact .inl ⟨hself.trans (List.cons.inj hrow).1,.inl (hsame ▸ hnull)⟩
    · intro hc
      have hrow : sqlite.sourceRow spec mapped = spec.computedRow mapped := by
        rcases hc with ⟨hrow,_⟩ | ⟨_,hin,hsingle⟩
        · exact hself.symm.trans hrow
        · have hmem := (Keyed.mem_withKey spec.keyOf).mpr ⟨hin,hsame⟩
          rw [hsingle] at hmem
          exact List.mem_singleton.mp hmem
      constructor
      · rw [hreplaced, hrow]
      · rw [← hsame]
        exact Keyed.without_replace_self ..
  · have hkept := Keyed.withKey_replace_ne spec.keyOf hsame rows
    constructor
    · intro hc
      have hin : sqlite.sourceRow spec mapped ∈ rows := by
        have hmem := (Keyed.mem_without spec.keyOf).mpr
          ⟨Keyed.mem_replace spec.keyOf hold hk,hsame⟩
        rw [hc.others] at hmem
        exact ((Keyed.mem_without spec.keyOf).mp hmem).1
      refine .inr ⟨hnull,hin,?_⟩
      rw [← hkept]
      exact hc.single
    · rintro (⟨hrow,_⟩ | ⟨_,hin,hsingle⟩)
      · exact absurd (congrArg spec.keyOf (hself.symm.trans hrow)) hsame
      · -- the row under the sources stands in the table, so the update changes nothing
        have heq : Keyed.replace spec.keyOf (sqlite.sourceRow spec mapped) rows = rows := by
          apply Keyed.replace_eq_self
          intro row hrow hkey
          have hmem := (Keyed.mem_withKey spec.keyOf).mpr ⟨hrow,hkey⟩
          have hmem' := (Keyed.mem_withKey spec.keyOf).mpr
            ⟨hin,(rfl : spec.keyOf (sqlite.sourceRow spec mapped) = _)⟩
          rw [honly] at hmem hmem'
          rw [List.mem_singleton.mp hmem, List.mem_singleton.mp hmem']
        rw [heq]
        exact ⟨hsingle,rfl⟩

/-- After an insert: the new row is the computed one, and its key was not there. -/
theorem cached_append_iff
    (h : .null ∉ spec.keyOf (sqlite.sourceRow spec mapped) →
      ∀ row ∈ rows, spec.keyOf row ≠ spec.keyOf (sqlite.sourceRow spec mapped)) :
    Cached spec mapped rows
        (rows ++ [sqlite.numbered spec rows (sqlite.sourceRow spec mapped)]) ↔
      sqlite.StoresComputed spec mapped rows ∨ sqlite.NothingNew spec mapped rows := by
  have hnew : ¬ sqlite.NothingNew spec mapped rows := fun hn => h hn.1 _ hn.2.1 rfl
  constructor
  · intro hc
    left
    by_cases hk : spec.keyOf (sqlite.numbered spec rows (sqlite.sourceRow spec mapped)) =
        spec.keyOf (spec.computedRow mapped)
    · have hsingle := hc.single
      rw [Keyed.withKey_append, ← hk, Keyed.withKey_singleton_self] at hsingle
      have hlen := congrArg List.length hsingle
      simp only [List.length_append, List.length_singleton] at hlen
      have hnone : Keyed.withKey spec.keyOf (spec.keyOf (sqlite.numbered spec rows
          (sqlite.sourceRow spec mapped))) rows = [] := List.eq_nil_of_length_eq_zero (by omega)
      rw [hnone, List.nil_append] at hsingle
      refine ⟨(List.cons.inj hsingle).1,.inr ?_⟩
      rw [← hk]
      exact (Keyed.withKey_eq_nil spec.keyOf).mp hnone
    · have hothers := hc.others
      rw [Keyed.without_append, Keyed.without_singleton_ne spec.keyOf hk] at hothers
      have hlen := congrArg List.length hothers
      simp only [List.length_append, List.length_singleton] at hlen
      omega
  · intro hc
    obtain ⟨hrow,hkey⟩ := hc.resolve_right hnew
    have hfresh : ∀ row ∈ rows, spec.keyOf row ≠ spec.keyOf (spec.computedRow mapped) := by
      rcases hkey with hnull | hfresh
      · rw [← hrow] at hnull ⊢
        exact numbered_key_fresh h hnull
      · exact hfresh
    rw [hrow]
    constructor
    · rw [Keyed.withKey_append, (Keyed.withKey_eq_nil spec.keyOf).mpr hfresh,
        Keyed.withKey_singleton_self, List.nil_append]
    · rw [Keyed.without_append, Keyed.without_singleton_self, List.append_nil]

/-- For a table that the database accepts, a write leaves the computed row under its key
and every other row as it was exactly in these two cases. -/
theorem upsert_iff (hnd : spec.names.Nodup) (hs : spec.Sound rows)
    (h : upsert sqlite spec rows mapped = .ok (result,rows')) :
    Cached spec mapped rows rows' ↔
      sqlite.StoresComputed spec mapped rows ∨ sqlite.NothingNew spec mapped rows := by
  rcases (upsert_cases hnd hs h).1 with ⟨hnull,hold,hrows⟩ | ⟨hnew,hrows⟩
  · rw [hrows]
    exact cached_replace_iff hs hnull hold
  · rw [hrows]
    exact cached_append_iff hnew

/-- One item of a refresh: it is mapped and written. -/
def cacheItem (sqlite : Sqlite) (spec : CacheSpec) (adapter : DslCacheSyncAdapter)
    (rows : List CacheRow) (raw : Fields) : Except PyException (UpsertResult × List CacheRow) := do
  upsert sqlite spec rows (← adapter.mapTargetToCache raw)

/-- A value of the type of its column. -/
def Fits : CacheFieldType → Value → Prop
  | _, .null => True
  | .string, .str _ => True
  | .datetime, .str _ => True
  | .json, .str _ => True
  | .int, .int _ => True
  | .int, .bool _ => True
  | .bool, .int _ => True
  | .bool, .bool _ => True
  | .float, .float _ => True
  | _, _ => False

theorem cell_of_fits {f : FieldSpec} (hkey : f.key = f.name)
    (hfit : Fits f.type (Fields.read mapped f.name)) :
    sqlite.cell f mapped = zeroOne f.type (Fields.read mapped f.name) := by
  unfold Sqlite.cell FieldSpec.extract
  rw [hkey]
  cases ht : f.type <;> cases hv : Fields.read mapped f.name <;> rw [ht, hv] at hfit <;>
    first | rfl | exact hfit.elim

/-- Columns that are read under their own names, and hold values of their types. -/
theorem storesComputed_of_own (hkey : ∀ f ∈ spec.fields, f.key = f.name)
    (hfit : ∀ f ∈ spec.fields, Fits f.type (Fields.read mapped f.name))
    (hnull : .null ∉ spec.keyOf (spec.computedRow mapped)) :
    sqlite.StoresComputed spec mapped rows := by
  have hrow : sqlite.sourceRow spec mapped = spec.computedRow mapped := by
    apply List.map_congr_left
    intro f hf
    rw [cell_of_fits (hkey f hf) (hfit f hf)]
  refine ⟨?_,.inl hnull⟩
  rw [numbered_of_key (hrow ▸ hnull), hrow]

/-- For every dataset that the compiler accepts, every item that the adapter maps and every
table of the dataset: the row that the item leaves is the computed one, alone under its key
beside unchanged rows, exactly in the two cases. -/
theorem cached_projection_iff {sqlite : Sqlite} {dataset : String} {declared : CacheDatasetSpec}
    {options : CacheDslBuildOptions} {ops : OperationRegistry} {spec : CacheSpec}
    (hc : CacheDsl.compileDataset dataset declared options ops = .ok spec)
    {rows : List CacheRow} (hs : spec.Sound rows) {adapter : DslCacheSyncAdapter} {raw : Fields}
    {result : UpsertResult} {rows' : List CacheRow}
    (h : cacheItem sqlite spec adapter rows raw = .ok (result,rows')) :
    ∃ mapped, adapter.mapTargetToCache raw = .ok mapped ∧
      (Cached spec mapped rows rows' ↔
        sqlite.StoresComputed spec mapped rows ∨ sqlite.NothingNew spec mapped rows) := by
  obtain ⟨mapped,hm,hu⟩ := bind_ok_iff.mp h
  exact ⟨mapped,hm,upsert_iff (CacheDsl.nodup_names hc) hs hu⟩

theorem le_foldr_max {ids : List Int} {n : Int} (h : n ∈ ids) : n ≤ ids.foldr max 0 := by
  induction ids with
  | nil => cases h
  | cons i ids ih =>
    rcases List.mem_cons.mp h with heq | hmem
    · rw [heq]
      exact le_max_left ..
    · exact le_trans (ih hmem) (le_max_right ..)

/-- A database library that sees texts only. -/
def plainSqlite : Sqlite where
  realText := Value.floatRepr
  numberOf := fun s => (Text.parseInt s).map fun n => (n : Rat)
  newRowid := fun ids => ids.foldr max 0 + 1
  newRowid_fresh := by
    intro ids hmem
    have hle := le_foldr_max hmem
    omega
  failure := fun _ => ⟨"sqlite3.Error",""⟩

/-- The projection fills `login`, and the column `login` has the source `userName`. -/
def staffSync : CacheSyncSpec where
  listOperationAlias := "users.list"
  itemKey := { source := some "id", origin := .inl (by simp) }
  projection := [
    { target := "_id", source := some "id", required := true, origin := .inl (by simp) },
    { target := "login", source := some "userName", origin := .inl (by simp) }]
  projection_ne := by simp
  one_deletion := .inl rfl

def staffCache : CacheDatasetSpec where
  dataset := "staff"
  table := "staff"
  schema := {
    primaryKey := .column "_id"
    columns := [⟨"_id",.string,true,none⟩, ⟨"login",.string,false,some "userName"⟩]
    columns_ne := by simp }
  sync := some staffSync

def staffTable : CacheSpec := CacheDsl.compileCacheSpec "staff" staffCache

def staffAdapter : DslCacheSyncAdapter := ⟨"staff",staffSync,[],""⟩

def staffItem : Fields := [("id",.str "7"),("userName",.str "ivan")]

/-- The text of a column whose source is not its name is lost: the row holds a NULL. -/
theorem sourced_column_null :
    CacheDsl.compileDataset "staff" staffCache {} [] = .ok staffTable ∧
    staffAdapter.mapTargetToCache staffItem = .ok [("_id",.str "7"),("login",.str "ivan")] ∧
    cacheItem plainSqlite staffTable staffAdapter [] staffItem =
      .ok (.inserted,[[("_id",.str "7"),("login",.null)]]) ∧
    ¬ Cached staffTable [("_id",.str "7"),("login",.str "ivan")] []
      [[("_id",.str "7"),("login",.null)]] := by
  refine ⟨by decide,by decide,by decide,fun hc => ?_⟩
  have hsingle := hc.single
  revert hsingle
  decide

theorem cached_projection_iff_staff :
    ∃ mapped, staffAdapter.mapTargetToCache staffItem = .ok mapped ∧
      (Cached staffTable mapped [] [[("_id",.str "7"),("login",.null)]] ↔
        plainSqlite.StoresComputed staffTable mapped [] ∨
          plainSqlite.NothingNew staffTable mapped []) := by
  have hcompiled : CacheDsl.compileDataset "staff" staffCache {} [] = .ok staffTable := by
    decide
  have hitem : cacheItem plainSqlite staffTable staffAdapter [] staffItem =
      .ok (.inserted,[[("_id",.str "7"),("login",.null)]]) := by
    decide
  exact cached_projection_iff hcompiled (CacheSpec.sound_nil staffTable) hitem

end GenericCacheHandler

end NexusEtl
