import NexusEtl.CacheProjection
import NexusEtl.CacheQueries
import NexusEtl.Library.Fallible

/-!
# What find reads

A key of a filter stands for the column of that name, or else for a column that
declares it as its source name. For which specifications the map of names gives
every key its column, and find therefore exactly the rows that hold the values
of the filters, is settled here.
-/

set_option autoImplicit false

namespace NexusEtl
open NexusEtl.Library

/-! ## Keys and columns -/

namespace CacheSpec

variable (spec : CacheSpec)

/-- What a key of a filter means. -/
def Means (key column : String) : Prop :=
  column ∈ spec.names ∧
    (column = key ∨ key ∉ spec.names ∧ ∃ f ∈ spec.fields, f.name = column ∧ f.alias? = some key)

/-- No later field takes the name of a column as its source name, and a source name that is
no column belongs to one column only. -/
structure Clear (key : String) : Prop where
  column : spec.fields.Pairwise fun f g => f.name = key → g.alias? ≠ some key
  source : key ∉ spec.names → ∀ f ∈ spec.fields, ∀ g ∈ spec.fields,
    f.alias? = some key → g.alias? = some key → f.name = g.name

/-- The name of the deletion column is not a source name only. -/
def ClearDeletion : Prop :=
  deletionDate ∈ spec.names ∨ ∀ f ∈ spec.fields, f.alias? ≠ some deletionDate

/-- Not deleted, where the specification has the column that says so. -/
def live (row : CacheRow) : Bool :=
  decide (deletionDate ∉ spec.names) || Fields.read row deletionDate == .null

/-- What `CREATE TABLE` demands of the names of the columns. -/
def Apart : Prop := (spec.names.map Text.lower).Nodup

end CacheSpec

def FieldSpec.calledAs (key : String) (f : FieldSpec) : Bool :=
  decide (f.name = key) || decide (f.alias? = some key)

theorem mem_names {spec : CacheSpec} {name : String} :
    name ∈ spec.names ↔ ∃ f ∈ spec.fields, f.name = name := List.mem_map

namespace SqliteCacheRepository

/-- The map holds the last field of a name. -/
theorem get?_buildFieldMap (fields : List FieldSpec) (key : String) :
    Dict.get? (buildFieldMap fields) key =
      (fields.reverse.find? (FieldSpec.calledAs key)).map FieldSpec.name := by
  induction fields using List.reverseRecOn with
  | nil => rfl
  | append_singleton fields f ih =>
    rw [List.reverse_append, List.reverse_singleton, List.singleton_append, List.find?_cons]
    have hfold : buildFieldMap (fields ++ [f]) =
        (f.alias?.map fun source => Dict.set (Dict.set (buildFieldMap fields) f.name f.name)
          source f.name).getD (Dict.set (buildFieldMap fields) f.name f.name) := by
      rw [buildFieldMap, List.foldl_append, List.foldl_cons, List.foldl_nil]
      cases f.alias? <;> rfl
    rw [hfold]
    by_cases hname : f.name = key
    · cases ha : f.alias? with
      | none => simp [FieldSpec.calledAs, hname]
      | some source => simp [FieldSpec.calledAs, hname, Dict.get?_set]
    · cases ha : f.alias? with
      | none => simp [FieldSpec.calledAs, hname, ha, Dict.get?_set_ne _ _ hname, ih]
      | some source =>
        by_cases hs : source = key
        · simp [FieldSpec.calledAs, hname, ha, hs]
        · simp [FieldSpec.calledAs, hname, ha, hs, Dict.get?_set_ne, ih]

theorem get?_buildFieldMap_some {fields : List FieldSpec} {key column : String}
    (h : Dict.get? (buildFieldMap fields) key = some column) :
    ∃ before g after, fields = before ++ g :: after ∧ g.name = column ∧
      g.calledAs key = true ∧ ∀ f ∈ after, f.calledAs key = false := by
  rw [get?_buildFieldMap, Option.map_eq_some_iff] at h
  obtain ⟨g,hfind,hname⟩ := h
  obtain ⟨hcalled,before,after,hsplit,hbefore⟩ := List.find?_eq_some_iff_append.mp hfind
  have hfields : fields = after.reverse ++ g :: before.reverse := by
    have hrev := congrArg List.reverse hsplit
    simpa using hrev
  exact ⟨after.reverse,g,before.reverse,hfields,hname,hcalled,
    fun f hf => by simpa using hbefore f (List.mem_reverse.mp hf)⟩

theorem contains_buildFieldMap {fields : List FieldSpec} {key : String} :
    Dict.contains (buildFieldMap fields) key = true ↔
      ∃ f ∈ fields, f.name = key ∨ f.alias? = some key := by
  rw [Dict.contains, get?_buildFieldMap, Option.isSome_map, List.find?_isSome]
  simp [FieldSpec.calledAs]

end SqliteCacheRepository

namespace CacheSpec

open SqliteCacheRepository

variable {spec : CacheSpec}

/-- The map knows every key that means a column. -/
theorem Means.called {key column : String} (h : spec.Means key column) :
    ∃ f ∈ spec.fields, f.name = column ∧ f.calledAs key = true := by
  obtain ⟨hmem,rfl | ⟨-,f,hf,hname,hsource⟩⟩ := h
  · obtain ⟨f,hf,hname⟩ := mem_names.mp hmem
    exact ⟨f,hf,hname,by simp [FieldSpec.calledAs, hname]⟩
  · exact ⟨f,hf,hname,by simp [FieldSpec.calledAs, hsource]⟩

theorem Means.get? {key column : String} (h : spec.Means key column) :
    ∃ c, Dict.get? (buildFieldMap spec.fields) key = some c := by
  obtain ⟨f,hf,-,hcalled⟩ := h.called
  have hsome : Dict.contains (buildFieldMap spec.fields) key = true :=
    contains_buildFieldMap.mpr ⟨f,hf,by simpa [FieldSpec.calledAs] using hcalled⟩
  exact Option.isSome_iff_exists.mp hsome

/-- A clear key is led to every column that it means. -/
theorem Clear.get? {key column : String} (hclear : spec.Clear key) (h : spec.Means key column) :
    Dict.get? (buildFieldMap spec.fields) key = some column := by
  obtain ⟨c,hc⟩ := h.get?
  obtain ⟨before,g,after,hfields,rfl,hcalled,hlast⟩ := get?_buildFieldMap_some hc
  obtain ⟨f,hf,hname,hfcalled⟩ := h.called
  rw [hc]
  have hg : g ∈ spec.fields := by simp [hfields]
  obtain ⟨hmem,heq | ⟨hnot,-⟩⟩ := h
  · -- the key is a column: the field of that name is the last that has the key
    subst heq
    by_contra hne
    have hgname : g.name ≠ column := fun h => hne (congrArg some h)
    have hgalias : g.alias? = some column := by
      simpa [FieldSpec.calledAs, hgname] using hcalled
    have hpair := hclear.column
    rw [hfields, List.pairwise_append] at hpair
    rw [hfields, List.mem_append, List.mem_cons] at hf
    rcases hf with hf | rfl | hf
    · exact hpair.2.2 f hf g List.mem_cons_self hname hgalias
    · exact hgname hname
    · exact absurd hfcalled (by simp [hlast f hf])
  · -- the key is a source name: only one column declares it
    have halias : ∀ x ∈ spec.fields, x.calledAs key = true → x.alias? = some key := by
      intro x hx hxcalled
      have hxname : x.name ≠ key := fun h => hnot (mem_names.mpr ⟨x,hx,h⟩)
      simpa [FieldSpec.calledAs, hxname] using hxcalled
    rw [hclear.source hnot g hg f hf (halias g hg hcalled) (halias f hf hfcalled), hname]

theorem means_self {key : String} (h : key ∈ spec.names) : spec.Means key key := ⟨h,.inl rfl⟩

theorem means_source {key : String} (h : key ∉ spec.names) {f : FieldSpec} (hf : f ∈ spec.fields)
    (hsource : f.alias? = some key) : spec.Means key f.name :=
  ⟨mem_names.mpr ⟨f,hf,rfl⟩,.inr ⟨h,f,hf,rfl,hsource⟩⟩

/-- Where the map gives every meaning of a key, the key is clear. -/
theorem clear_of_get? (hnames : spec.names.Nodup) {key : String}
    (h : ∀ column, spec.Means key column →
      Dict.get? (buildFieldMap spec.fields) key = some column) : spec.Clear key where
  column := by
    rw [List.pairwise_iff_forall_sublist]
    intro f g hsub hf hg
    have hmem : key ∈ spec.names := mem_names.mpr ⟨f,hsub.subset List.mem_cons_self,hf⟩
    obtain ⟨before,last,after,hfields,hname,-,hlast⟩ :=
      get?_buildFieldMap_some (h key (means_self hmem))
    have hnd : (before.map FieldSpec.name ++ last.name :: after.map FieldSpec.name).Nodup := by
      simpa [names, hfields] using hnames
    -- the last field that is called so is `f`, and `g` stands after it
    rw [hfields] at hsub
    obtain ⟨l₁,l₂,hl,hl₁,hl₂⟩ := List.sublist_append_iff.mp hsub
    cases l₁ with
    | nil =>
      rw [List.nil_append] at hl
      subst hl
      cases hl₂ with
      | cons _ hafter =>
        have hfin := hafter.subset List.mem_cons_self
        exact absurd (hlast f hfin) (by simp [FieldSpec.calledAs, hf])
      | cons_cons _ hafter =>
        have hgin := hafter.subset List.mem_cons_self
        exact absurd (hlast g hgin) (by simp [FieldSpec.calledAs, hg])
    | cons x xs =>
      obtain ⟨rfl,-⟩ := List.cons.inj hl
      have hbefore : key ∈ before.map FieldSpec.name :=
        List.mem_map.mpr ⟨f,hl₁.subset List.mem_cons_self,hf⟩
      exact (List.nodup_append.mp hnd).2.2 key hbefore key (by simp [hname]) rfl
  source := by
    intro hnot f hf g hg hfs hgs
    have hf' := h f.name (means_source hnot hf hfs)
    have hg' := h g.name (means_source hnot hg hgs)
    exact Option.some.inj (hf'.symm.trans hg')

end CacheSpec

/-! ## Rows -/

/-- The values that a statement takes. -/
def Bindable : Value → Prop
  | .int n => Sqlite.inRange n = true
  | .list _ => False
  | .dict _ => False
  | _ => True

/-- A bound value: booleans are integers. -/
def boundForm : Value → Value
  | .bool b => .int (if b then 1 else 0)
  | v => v

theorem bind_ok (sqlite : Sqlite) (name : String) {v : Value} (h : Bindable v) :
    sqlite.bind name v = .ok (boundForm v) := by
  cases v with
  | int n => exact if_pos h
  | list vs => exact h.elim
  | dict kvs => exact h.elim
  | null => rfl
  | bool b => rfl
  | float q => rfl
  | str s => rfl

/-- The values that a filter asks for. -/
def SearchMode.wanted (mode : SearchMode) (value : Value) : List Value :=
  match mode with
  | .inValues => SqliteCacheRepository.valueList value
  | _ => [value]

/-- The modes that compare for equality. -/
def SearchMode.IsEquality (mode : SearchMode) : Prop := mode = .exact ∨ mode = .inValues

/-- The row holds, in every column that a filter means, a value that the filter asks for. -/
def Selects (sqlite : Sqlite) (spec : CacheSpec) (mode : SearchMode) (columnOf : String → String)
    (filters : Fields) (row : CacheRow) : Bool :=
  filters.all fun (key,value) => (mode.wanted value).any fun v =>
    sqlite.equal spec (columnOf key) (boundForm v) row

/-- All values of the filters can be bound. -/
def AllBindable (mode : SearchMode) (filters : Fields) : Prop :=
  ∀ filter ∈ filters, ∀ v ∈ mode.wanted filter.2, Bindable v

/-- Filters with the given keys find exactly the rows that hold their values, whatever columns
the keys mean. -/
def FindExact (sqlite : Sqlite) (spec : CacheSpec) (keys : List String) : Prop :=
  ∀ (rows : List CacheRow), spec.Sound rows → ∀ (filters : Fields) (columnOf : String → String)
    (mode : SearchMode) (includeDeleted : Bool), Dict.keys filters = keys →
    (∀ key ∈ keys, spec.Means key (columnOf key)) → mode.IsEquality → AllBindable mode filters →
    SqliteCacheRepository.find sqlite spec rows filters includeDeleted mode =
      .ok (rows.filter fun row =>
        Selects sqlite spec mode columnOf filters row && (includeDeleted || spec.live row))

theorem resolve_of_mem {spec : CacheSpec} (hapart : spec.Apart) {name : String}
    (h : name ∈ spec.names) : Sqlite.resolve spec name = .ok name := by
  rw [Sqlite.resolve]
  cases hfind : spec.names.find? fun column => Text.lower column == Text.lower name with
  | none =>
    have hnone := List.find?_eq_none.mp hfind name h
    simp at hnone
  | some column =>
    have heq : Text.lower column = Text.lower name := by simpa using List.find?_some hfind
    have hsame := List.inj_on_of_nodup_map hapart (List.mem_of_find?_eq_some hfind) h heq
    rw [hsame]

namespace SqliteCacheRepository

/-- The clause of one filter. -/
def clauseOf (mode : SearchMode) (column : String) (value : Value) : WhereClause :=
  match mode with
  | .inValues => .isIn column (valueList value)
  | _ => .equals column value

@[simp] theorem clauseOf_column (mode : SearchMode) (column : String) (value : Value) :
    (clauseOf mode column value).column = column := by
  cases mode <;> rfl

theorem clauseOf_values {mode : SearchMode} (hmode : mode.IsEquality) (column : String)
    (value : Value) : (clauseOf mode column value).values = mode.wanted value := by
  rcases hmode with rfl | rfl <;> rfl

theorem buildClause_eq {mode : SearchMode} (hmode : mode.IsEquality) (column : String)
    (value : Value) : buildClause column value mode =
      .ok (if mode.wanted value = [] then none else some (clauseOf mode column value)) := by
  rcases hmode with rfl | rfl <;> rfl

theorem buildWhere_eq {dataset : String} {fieldMap : Dict String String} {mode : SearchMode}
    (hmode : mode.IsEquality) {columnOf : String → String} {filters : Fields}
    (h : ∀ filter ∈ filters, Dict.get? fieldMap filter.1 = some (columnOf filter.1)) :
    buildWhere dataset fieldMap mode filters =
      .ok (if ∀ filter ∈ filters, mode.wanted filter.2 ≠ []
        then some (filters.map fun filter => clauseOf mode (columnOf filter.1) filter.2)
        else none) := by
  induction filters with
  | nil => rfl
  | cons filter filters ih =>
    obtain ⟨key,value⟩ := filter
    have hkey : Dict.get? fieldMap key = some (columnOf key) := h (key,value) List.mem_cons_self
    have hrest := ih fun filter hf => h filter (List.mem_cons_of_mem _ hf)
    rw [buildWhere, hkey]
    simp only [buildClause_eq hmode, hrest, List.forall_mem_cons]
    by_cases hempty : mode.wanted value = []
    · simp only [hempty, if_true, ne_eq, not_true_eq_false, false_and, if_false]
    · by_cases hall : ∀ filter ∈ filters, mode.wanted filter.2 ≠ []
      · rw [if_neg hempty, if_pos hall, if_pos ⟨hempty,hall⟩]
        rfl
      · rw [if_neg hempty, if_neg hall, if_neg fun h => hall h.2]
        rfl

end SqliteCacheRepository

theorem holds_clauseOf {sqlite : Sqlite} {spec : CacheSpec} {mode : SearchMode}
    (hmode : mode.IsEquality) (column : String) (value : Value) (row : CacheRow) :
    sqlite.holds spec column (((SqliteCacheRepository.clauseOf mode column value).values).map
        boundForm) row (SqliteCacheRepository.clauseOf mode column value) =
      (mode.wanted value).any fun v => sqlite.equal spec column (boundForm v) row := by
  rw [SqliteCacheRepository.clauseOf_values hmode]
  rcases hmode with rfl | rfl
  · simp [Sqlite.holds, SqliteCacheRepository.clauseOf, SearchMode.wanted]
  · simp [Sqlite.holds, SqliteCacheRepository.clauseOf, SearchMode.wanted, List.any_map,
      Function.comp_def]

/-- The columns of a statement and its values are there, and the deletion column when it is
asked for. -/
theorem select_eq {sqlite : Sqlite} {spec : CacheSpec} (hapart : spec.Apart) {mode : SearchMode}
    (hmode : mode.IsEquality) {columnOf : String → String} {filters : Fields}
    (hcolumns : ∀ filter ∈ filters, columnOf filter.1 ∈ spec.names)
    (hbind : AllBindable mode filters) (rows : List CacheRow) {deletionIsNull : Bool}
    (hdeletion : deletionIsNull = true → deletionDate ∈ spec.names) :
    sqlite.select spec rows
        (filters.map fun filter =>
          SqliteCacheRepository.clauseOf mode (columnOf filter.1) filter.2) deletionIsNull =
      .ok (rows.filter fun row => Selects sqlite spec mode columnOf filters row &&
        (!deletionIsNull || Fields.read row deletionDate == .null)) := by
  have hprepare : ∀ clause ∈ filters.map fun filter =>
      SqliteCacheRepository.clauseOf mode (columnOf filter.1) filter.2,
      Sqlite.prepare spec clause = .ok (clause.column,clause) := by
    intro clause hclause
    obtain ⟨filter,hfilter,rfl⟩ := List.mem_map.mp hclause
    rw [Sqlite.prepare, SqliteCacheRepository.clauseOf_column,
      resolve_of_mem hapart (hcolumns filter hfilter)]
    rfl
  have hvalues : ∀ prepared ∈ (filters.map fun filter =>
      SqliteCacheRepository.clauseOf mode (columnOf filter.1) filter.2).map
        fun clause => (clause.column,clause),
      sqlite.bindClause prepared = .ok (prepared.1,prepared.2,prepared.2.values.map boundForm) := by
    intro prepared hprepared
    obtain ⟨clause,hclause,rfl⟩ := List.mem_map.mp hprepared
    obtain ⟨filter,hfilter,rfl⟩ := List.mem_map.mp hclause
    have hmap := mapM_eq_map (f := sqlite.bind (columnOf filter.1)) (g := boundForm) fun v hv =>
      bind_ok sqlite _ (hbind filter hfilter v hv)
    rw [Sqlite.bindClause, SqliteCacheRepository.clauseOf_values hmode,
      SqliteCacheRepository.clauseOf_column, hmap]
    rfl
  rw [Sqlite.select, mapM_eq_map hprepare]
  simp only [bind, Except.bind]
  cases deletionIsNull with
  | false =>
    simp only [Sqlite.deletionColumn, Bool.false_eq_true, if_false, mapM_eq_map hvalues]
    simp [pure, Except.pure, Selects, List.all_map, Function.comp_def, holds_clauseOf hmode]
  | true =>
    simp only [Sqlite.deletionColumn, if_true, resolve_of_mem hapart (hdeletion rfl), Except.map,
      mapM_eq_map hvalues]
    simp [pure, Except.pure, Selects, List.all_map, Function.comp_def, holds_clauseOf hmode]

namespace SqliteCacheRepository

variable {sqlite : Sqlite} {spec : CacheSpec} {mode : SearchMode} {filters : Fields}

theorem mem_names_of_get? {key column : String}
    (h : Dict.get? (buildFieldMap spec.fields) key = some column) : column ∈ spec.names := by
  obtain ⟨before,g,after,hfields,hname,-,-⟩ := get?_buildFieldMap_some h
  exact mem_names.mpr ⟨g,by simp [hfields],hname⟩

/-- What `find` returns, by the columns that the map of names gives. -/
theorem find_eq (hapart : spec.Apart) (hmode : mode.IsEquality) {columnOf : String → String}
    (hne : filters ≠ [])
    (hget : ∀ filter ∈ filters,
      Dict.get? (buildFieldMap spec.fields) filter.1 = some (columnOf filter.1))
    (hbind : AllBindable mode filters) (rows : List CacheRow) {includeDeleted : Bool}
    (hdeletion : includeDeleted = true ∨ spec.ClearDeletion) :
    find sqlite spec rows filters includeDeleted mode = .ok (rows.filter fun row =>
      Selects sqlite spec mode columnOf filters row && (includeDeleted || spec.live row)) := by
  rw [find, if_neg hne, buildWhere_eq hmode hget]
  by_cases hall : ∀ filter ∈ filters, mode.wanted filter.2 ≠ []
  · rw [if_pos hall]
    have hcolumns : ∀ filter ∈ filters, columnOf filter.1 ∈ spec.names := fun filter hf =>
      mem_names_of_get? (hget filter hf)
    have hselect := @select_eq sqlite spec hapart mode hmode columnOf filters hcolumns hbind rows
      (!includeDeleted && Dict.contains (buildFieldMap spec.fields) deletionDate)
    cases includeDeleted with
    | true => simpa using hselect
    | false =>
      have hclear := hdeletion.resolve_left Bool.false_ne_true
      by_cases hmem : deletionDate ∈ spec.names
      · obtain ⟨f,hf,hname⟩ := mem_names.mp hmem
        have hcontains : Dict.contains (buildFieldMap spec.fields) deletionDate = true :=
          contains_buildFieldMap.mpr ⟨f,hf,.inl hname⟩
        simpa [hcontains, hmem, CacheSpec.live] using hselect
      · have hcontains : Dict.contains (buildFieldMap spec.fields) deletionDate = false := by
          rw [Bool.eq_false_iff, ne_eq, contains_buildFieldMap]
          rintro ⟨f,hf,hname | hsource⟩
          · exact hmem (mem_names.mpr ⟨f,hf,hname⟩)
          · exact hclear.resolve_left hmem f hf hsource
        simpa [hcontains, hmem, CacheSpec.live] using hselect
  · rw [if_neg hall]
    -- one filter asks for no value at all
    have hnone : ∀ row, Selects sqlite spec mode columnOf filters row = false := by
      intro row
      push Not at hall
      obtain ⟨filter,hf,hempty⟩ := hall
      rw [Selects, List.all_eq_false]
      exact ⟨filter,hf,by simp [hempty]⟩
    simp [hnone]

end SqliteCacheRepository

/-- What a row of a result has met. -/
theorem mem_select {sqlite : Sqlite} {spec : CacheSpec} {rows found : List CacheRow}
    {clauses : List WhereClause} {deletionIsNull : Bool} {row : CacheRow}
    (h : sqlite.select spec rows clauses deletionIsNull = .ok found) (hrow : row ∈ found) :
    (deletionIsNull = true → ∃ column, Sqlite.resolve spec deletionDate = .ok column ∧
      Fields.read row column = .null) ∧
    ∀ clause ∈ clauses, ∃ column bound, Sqlite.resolve spec clause.column = .ok column ∧
      clause.values.mapM (sqlite.bind column) = .ok bound ∧
      sqlite.holds spec column bound row clause = true := by
  rw [Sqlite.select, bind_ok_iff] at h
  obtain ⟨prepared,hprepared,h⟩ := h
  rw [bind_ok_iff] at h
  obtain ⟨deletion,hdeletion,h⟩ := h
  rw [bind_ok_iff] at h
  obtain ⟨bound,hbound,h⟩ := h
  have hfound : rows.filter _ = found := Except.ok.inj h
  rw [← hfound, List.mem_filter, Bool.and_eq_true, List.all_eq_true] at hrow
  obtain ⟨-,hholds,hnull⟩ := hrow
  constructor
  · rintro rfl
    rw [Sqlite.deletionColumn, if_pos rfl] at hdeletion
    cases hresolve : Sqlite.resolve spec deletionDate with
    | error e =>
      rw [hresolve] at hdeletion
      cases hdeletion
    | ok column =>
      rw [hresolve] at hdeletion
      obtain rfl : some column = deletion := Except.ok.inj hdeletion
      exact ⟨column,rfl,by simpa using hnull⟩
  · intro clause hclause
    obtain ⟨p,hp,hprepare⟩ := forall₂_exists_right (mapM_ok_iff.mp hprepared) clause hclause
    obtain ⟨b,hb,hbindings⟩ := forall₂_exists_right (mapM_ok_iff.mp hbound) p hp
    rw [Sqlite.prepare] at hprepare
    cases hresolve : Sqlite.resolve spec clause.column with
    | error e =>
      rw [hresolve] at hprepare
      cases hprepare
    | ok column =>
      rw [hresolve] at hprepare
      obtain rfl : (column,clause) = p := Except.ok.inj hprepare
      rw [Sqlite.bindClause] at hbindings
      cases hvalues : clause.values.mapM (sqlite.bind column) with
      | error e =>
        rw [hvalues] at hbindings
        cases hbindings
      | ok values =>
        rw [hvalues] at hbindings
        obtain rfl : (column,clause,values) = b := Except.ok.inj hbindings
        exact ⟨column,values,rfl,hvalues,hholds _ hb⟩

/-! ## Rows that tell two columns apart -/

/-- A value that a column of the type stores as it is. -/
def sample : SqliteType → Value
  | .text => .str "a"
  | .integer => .int 0
  | .real => .float 0

def otherSample : SqliteType → Value
  | .text => .str "b"
  | .integer => .int 1
  | .real => .float 1

/-- One of the two values of a type, but not the given one. -/
def apartFrom (v : Value) (t : SqliteType) : Value :=
  if sample t = v then otherSample t else sample t

theorem apartFrom_cases (v : Value) (t : SqliteType) :
    apartFrom v t = sample t ∨ apartFrom v t = otherSample t := by
  unfold apartFrom
  split
  · exact .inr rfl
  · exact .inl rfl

theorem apartFrom_ne (v : Value) (t : SqliteType) : apartFrom v t ≠ v := by
  unfold apartFrom
  split
  · rename_i h
    rw [← h]
    cases t <;> decide
  · assumption

/-- What the samples have in common: a statement takes them, and a column keeps them. -/
structure Kept (sqlite : Sqlite) (t : SqliteType) (v : Value) : Prop where
  bindable : Bindable v
  ne_null : v ≠ .null
  stored : sqlite.stored t (boundForm v) = v

theorem kept_sample (sqlite : Sqlite) (t : SqliteType) : Kept sqlite t (sample t) := by
  cases t with
  | text => exact ⟨trivial,by decide,rfl⟩
  | integer => exact ⟨show Sqlite.inRange 0 = true by decide,by decide,rfl⟩
  | real => exact ⟨trivial,by decide,rfl⟩

theorem kept_apartFrom (sqlite : Sqlite) (v : Value) (t : SqliteType) :
    Kept sqlite t (apartFrom v t) := by
  rcases apartFrom_cases v t with h | h
  · rw [h]
    exact kept_sample sqlite t
  · rw [h]
    cases t with
    | text => exact ⟨trivial,by decide,rfl⟩
    | integer => exact ⟨show Sqlite.inRange 1 = true by decide,by decide,rfl⟩
    | real => exact ⟨trivial,by decide,rfl⟩

def rowOf (spec : CacheSpec) (value : String → Value) : CacheRow :=
  spec.names.map fun name => (name,value name)

def filtersOf (keys : List String) (value : String → Value) : Fields :=
  keys.map fun key => (key,value key)

section

variable {sqlite : Sqlite} {spec : CacheSpec}

theorem read_rowOf (hnames : spec.names.Nodup) (value : String → Value) {name : String}
    (h : name ∈ spec.names) : Fields.read (rowOf spec value) name = value name := by
  have hget := Dict.get?_map_of_mem id value (by simpa using hnames) h
  have hread : Dict.get? (rowOf spec value) name = some (value name) := hget
  rw [Fields.read, hread]
  rfl

theorem sound_rowOf (value : String → Value) : spec.Sound [rowOf spec value] where
  columns := by simp [rowOf, Dict.keys, Function.comp_def]
  distinct := by
    intro columns _
    rw [CacheSpec.Distinct, List.map_singleton]
    exact (List.nodup_singleton _).sublist List.filter_sublist

/-- A row of samples is found by its own values, under any columns that the keys mean. -/
theorem FindExact.finds {keys : List String} (h : FindExact sqlite spec keys)
    (hnames : spec.names.Nodup) {columnOf : String → String}
    (hmeans : ∀ key ∈ keys, spec.Means key (columnOf key)) {value : String → Value}
    (hkept : ∀ name ∈ spec.names, Kept sqlite (Sqlite.columnType spec name) (value name))
    {includeDeleted : Bool} (hlive : includeDeleted = true ∨ deletionDate ∉ spec.names) :
    SqliteCacheRepository.find sqlite spec [rowOf spec value]
      (filtersOf keys fun key => value (columnOf key)) includeDeleted .exact =
        .ok [rowOf spec value] := by
  have hkeys : Dict.keys (filtersOf keys fun key => value (columnOf key)) = keys := by
    simp [filtersOf, Dict.keys, Function.comp_def]
  have hbind : AllBindable .exact (filtersOf keys fun key => value (columnOf key)) := by
    intro filter hfilter v hv
    obtain ⟨key,hkey,rfl⟩ := List.mem_map.mp hfilter
    obtain rfl := List.mem_singleton.mp hv
    exact (hkept _ (hmeans key hkey).1).bindable
  rw [h _ (sound_rowOf value) _ columnOf .exact includeDeleted hkeys hmeans (.inl rfl) hbind]
  have hselects : Selects sqlite spec .exact columnOf
      (filtersOf keys fun key => value (columnOf key)) (rowOf spec value) = true := by
    rw [Selects, List.all_eq_true]
    intro filter hfilter
    obtain ⟨key,hkey,rfl⟩ := List.mem_map.mp hfilter
    have hv := hkept _ (hmeans key hkey).1
    simp [SearchMode.wanted, Sqlite.equal, hv.stored, hv.ne_null,
      read_rowOf hnames value (hmeans key hkey).1]
  have hshown : (includeDeleted || spec.live (rowOf spec value)) = true := by
    rcases hlive with rfl | hnot
    · rfl
    · simp [CacheSpec.live, hnot]
  rw [List.filter_cons, hselects, hshown]
  rfl

end

/-! ## Exactness -/

theorem CacheSpec.Apart.nodup {spec : CacheSpec} (h : spec.Apart) : spec.names.Nodup :=
  List.Nodup.of_map Text.lower h

theorem nodup_of_duplicateColumn? {names seen : List String}
    (h : GenericCacheHandler.duplicateColumn? seen names = none) :
    (names.map Text.lower).Nodup ∧ ∀ name ∈ names, Text.lower name ∉ seen := by
  induction names generalizing seen with
  | nil => simp
  | cons name names ih =>
    rw [GenericCacheHandler.duplicateColumn?] at h
    split at h
    · cases h
    · rename_i hfresh
      obtain ⟨hnodup,hnames⟩ := ih h
      refine ⟨?_,?_⟩
      · rw [List.map_cons, List.nodup_cons, List.mem_map]
        refine ⟨?_,hnodup⟩
        rintro ⟨other,hother,heq⟩
        exact hnames other hother (List.mem_cons.mpr (.inl heq))
      · intro other hother
        rcases List.mem_cons.mp hother with rfl | hother
        · exact hfresh
        · exact fun hseen => hnames other hother (List.mem_cons_of_mem _ hseen)

/-- The database has taken the table, so its names differ in more than case. -/
theorem apart_of_ensureSchema {spec : CacheSpec}
    (h : GenericCacheHandler.ensureSchema spec = .ok ()) : spec.Apart := by
  rw [GenericCacheHandler.ensureSchema, bind_ok_iff] at h
  obtain ⟨-,-,h⟩ := h
  rw [bind_ok_iff] at h
  obtain ⟨_,hcreate,-⟩ := h
  unfold GenericCacheHandler.createTable at hcreate
  split at hcreate
  · cases hcreate
  · rename_i hnone
    exact (nodup_of_duplicateColumn? hnone).1

namespace FindExact

variable {sqlite : Sqlite} {spec : CacheSpec} {keys : List String}

/-- A found row has passed the statement that the map of names leads to. -/
theorem selected (h : FindExact sqlite spec keys) (hnames : spec.names.Nodup) (hne : keys ≠ [])
    {columnOf : String → String} (hmeans : ∀ key ∈ keys, spec.Means key (columnOf key))
    {value : String → Value}
    (hkept : ∀ name ∈ spec.names, Kept sqlite (Sqlite.columnType spec name) (value name))
    {includeDeleted : Bool} (hlive : includeDeleted = true ∨ deletionDate ∉ spec.names)
    {column : String → String}
    (hget : ∀ key ∈ keys, Dict.get? (SqliteCacheRepository.buildFieldMap spec.fields) key =
      some (column key)) :
    sqlite.select spec [rowOf spec value]
      (keys.map fun key => .equals (column key) (value (columnOf key)))
      (!includeDeleted && Dict.contains (SqliteCacheRepository.buildFieldMap spec.fields)
        deletionDate) = .ok [rowOf spec value] := by
  have hfind := h.finds hnames hmeans hkept hlive
  have hfilters : filtersOf keys (fun key => value (columnOf key)) ≠ [] := by
    simpa [filtersOf] using hne
  have hwhere := @SqliteCacheRepository.buildWhere_eq spec.dataset
    (SqliteCacheRepository.buildFieldMap spec.fields) .exact (.inl rfl) column
    (filtersOf keys fun key => value (columnOf key)) (by
      intro filter hfilter
      obtain ⟨key,hkey,rfl⟩ := List.mem_map.mp hfilter
      exact hget key hkey)
  have hwanted : ∀ filter ∈ filtersOf keys fun key => value (columnOf key),
      SearchMode.wanted .exact filter.2 ≠ [] := fun _ _ => List.cons_ne_nil _ _
  rw [SqliteCacheRepository.find, if_neg hfilters, hwhere, if_pos hwanted] at hfind
  simpa [filtersOf, Function.comp_def, SqliteCacheRepository.clauseOf] using hfind

theorem clear (h : FindExact sqlite spec keys) (hapart : spec.Apart) (hne : keys ≠ [])
    (hknown : ∀ key ∈ keys, ∃ column, spec.Means key column) {key : String} (hkey : key ∈ keys) :
    spec.Clear key := by
  apply CacheSpec.clear_of_get? hapart.nodup
  intro m hm
  obtain ⟨c,hc⟩ := hm.get?
  by_contra hget
  have hcm : c ≠ m := fun heq => hget (hc.trans (congrArg some heq))
  choose! meant hmeant using hknown
  choose! column hcolumn using fun k (hk : k ∈ keys) => (hmeant k hk).get?
  -- the row holds something else in the column that the map gives
  let columnOf := Function.update meant key m
  let taken := sqlite.stored (Sqlite.columnType spec c)
    (boundForm (sample (Sqlite.columnType spec m)))
  let value := Function.update (fun name => sample (Sqlite.columnType spec name)) c
    (apartFrom taken (Sqlite.columnType spec c))
  have hmeans : ∀ k ∈ keys, spec.Means k (columnOf k) := by
    intro k hk
    by_cases hkk : k = key
    · subst hkk
      simpa [columnOf] using hm
    · simpa [columnOf, hkk] using hmeant k hk
  have hkept : ∀ name ∈ spec.names, Kept sqlite (Sqlite.columnType spec name) (value name) := by
    intro name _
    by_cases hname : name = c
    · subst hname
      simpa [value] using kept_apartFrom sqlite taken (Sqlite.columnType spec name)
    · simpa [value, hname] using kept_sample sqlite (Sqlite.columnType spec name)
  have hselect := h.selected hapart.nodup hne hmeans hkept (.inl rfl) hcolumn
  have hclause := (mem_select hselect List.mem_cons_self).2 _ (List.mem_map.mpr ⟨key,hkey,rfl⟩)
  obtain ⟨read,bound,hread,hbound,hholds⟩ := hclause
  have hck : column key = c := Option.some.inj ((hcolumn key hkey).symm.trans hc)
  have hcmem : c ∈ spec.names := SqliteCacheRepository.mem_names_of_get? hc
  have hvm : value (columnOf key) = sample (Sqlite.columnType spec m) := by
    simp [columnOf, value, hcm.symm]
  have hread' : Except.ok c = (Except.ok read : Except PyException String) := by
    rw [← hread, WhereClause.column, hck, resolve_of_mem hapart hcmem]
  obtain rfl := Except.ok.inj hread'
  have hbound' : bound = [boundForm (sample (Sqlite.columnType spec m))] := by
    have hmap := mapM_eq_map (f := sqlite.bind c) (g := boundForm)
      (l := [sample (Sqlite.columnType spec m)]) fun v hv => by
        obtain rfl := List.mem_singleton.mp hv
        exact bind_ok sqlite c (kept_sample sqlite _).bindable
    rw [WhereClause.values, hvm, hmap] at hbound
    exact (Except.ok.inj hbound).symm
  subst hbound'
  have hvc : value c = apartFrom taken (Sqlite.columnType spec c) := by simp [value]
  rw [Sqlite.holds, List.any_cons, List.any_nil, Bool.or_false, Sqlite.equal, Bool.and_eq_true,
    read_rowOf hapart.nodup value hcmem, hvc] at hholds
  exact apartFrom_ne _ _ (by simpa using hholds.2)

theorem clearDeletion (h : FindExact sqlite spec keys) (hapart : spec.Apart) (hne : keys ≠ [])
    (hknown : ∀ key ∈ keys, ∃ column, spec.Means key column) : spec.ClearDeletion := by
  by_contra hnot
  simp only [CacheSpec.ClearDeletion, not_or, not_forall] at hnot
  obtain ⟨hmem,f,hf,hsource⟩ := hnot
  have hcontains : Dict.contains (SqliteCacheRepository.buildFieldMap spec.fields)
      deletionDate = true :=
    SqliteCacheRepository.contains_buildFieldMap.mpr ⟨f,hf,.inr (not_not.mp hsource)⟩
  choose! meant hmeant using hknown
  choose! column hcolumn using fun k (hk : k ∈ keys) => (hmeant k hk).get?
  have hselect := @selected sqlite spec keys h hapart.nodup hne _ hmeant
    (fun name => sample (Sqlite.columnType spec name)) (fun name _ => kept_sample sqlite _) false
    (.inr hmem) _ hcolumn
  obtain ⟨c,hresolve,hnull⟩ := (mem_select hselect List.mem_cons_self).1 (by rw [hcontains]; rfl)
  -- another spelling of the name may be a column, but the row has a value there
  have hcmem : c ∈ spec.names := by
    rw [Sqlite.resolve] at hresolve
    cases hfind : spec.names.find? fun column => Text.lower column == Text.lower deletionDate with
    | none =>
      rw [hfind] at hresolve
      cases hresolve
    | some column =>
      rw [hfind] at hresolve
      obtain rfl := Except.ok.inj hresolve
      exact List.mem_of_find?_eq_some hfind
  rw [read_rowOf hapart.nodup _ hcmem] at hnull
  exact (kept_sample sqlite _).ne_null hnull

end FindExact

section
open GenericCacheHandler

/-- Employees whose name comes from the source field `code`. -/
def codedEmployees : CacheSpec :=
  ⟨"employees","employees",["_id"],[⟨"_id",.string,false,none⟩,⟨"code",.string,true,none⟩,
    ⟨"name",.string,true,some "code"⟩],[],[]⟩

/-- The same without the overlap, with a deletion date. -/
def datedEmployees : CacheSpec :=
  ⟨"employees","employees",["_id"],[⟨"_id",.string,false,none⟩,
    ⟨"code",.string,true,some "tab_num"⟩,⟨"deletion_date",.datetime,true,some "deletedAt"⟩],[],[]⟩

theorem codedEmployees_created : ensureSchema codedEmployees = .ok () := by
  decide

theorem datedEmployees_created : ensureSchema datedEmployees = .ok () := by
  decide

def codedAnn : CacheRow := [("_id",.str "1"),("code",.str "E1"),("name",.str "Ann")]

end

end NexusEtl
