import NexusEtl.PolarsCanonicalization
import NexusEtl.TargetTopology

/-!
# Source locators and target paths

The locator of a source row canonicalizes all path columns at once and drops the blank
segments. The target side canonicalizes the label of each row alone and keeps what comes
out, and takes a parent reference as it is, so the two meet only where no label is lost.
-/

set_option autoImplicit false

namespace NexusEtl
open NexusEtl.Library

theorem forall₂_append_left {α β : Type} {R : α → β → Prop} {a b : List α} {m : List β}
    (h : List.Forall₂ R (a ++ b) m) :
    ∃ x y, m = x ++ y ∧ List.Forall₂ R a x ∧ List.Forall₂ R b y := by
  induction a generalizing m with
  | nil => exact ⟨[],m,rfl,.nil,h⟩
  | cons s a ih =>
    cases h with
    | cons hs h =>
      obtain ⟨x,y,rfl,hx,hy⟩ := ih h
      exact ⟨_::x,y,rfl,.cons hs hx,hy⟩

namespace TextLibrary

variable {lib : TextLibrary}

theorem applyOp_append_ok_iff {op : CompiledCanonicalizeOp} {a b c : List String} :
    lib.applyOp (a ++ b) op = .ok c ↔
      ∃ x y, lib.applyOp a op = .ok x ∧ lib.applyOp b op = .ok y ∧ c = x ++ y := by
  cases op with
  | trim => simp [applyOp, eq_comm]
  | lower => simp [applyOp, eq_comm]
  | compact => simp [applyOp, opCompact, eq_comm]
  | regexReplace pattern repl =>
    simp only [applyOp, List.mapM_append]
    cases ha : a.mapM (lib.sub pattern repl) with
    | error e => simp [bind, Except.bind]
    | ok x =>
      cases hb : b.mapM (lib.sub pattern repl) with
      | error e => simp [bind, Except.bind]
      | ok y => simp [bind, Except.bind, pure, Except.pure, eq_comm]

/-- Canonicalization works on the parts of a path alone. -/
theorem canonicalizeSegments_append_ok_iff {ops : List CompiledCanonicalizeOp}
    {a b c : List String} : lib.canonicalizeSegments ops (a ++ b) = .ok c ↔
      ∃ x y, lib.canonicalizeSegments ops a = .ok x ∧ lib.canonicalizeSegments ops b = .ok y ∧
        c = x ++ y := by
  induction ops generalizing a b with
  | nil => simp [canonicalizeSegments, pure, Except.pure, eq_comm]
  | cons op ops ih =>
    have hcons {l d : List String} : lib.canonicalizeSegments (op::ops) l = .ok d ↔
        ∃ next, lib.applyOp l op = .ok next ∧ lib.canonicalizeSegments ops next = .ok d := by
      unfold canonicalizeSegments
      rw [List.foldlM_cons]
      cases lib.applyOp l op <;> simp [bind, Except.bind]
    constructor
    · intro h
      obtain ⟨next,hnext,hrest⟩ := hcons.mp h
      obtain ⟨x,y,hx,hy,rfl⟩ := applyOp_append_ok_iff.mp hnext
      obtain ⟨u,v,hu,hv,hc⟩ := ih.mp hrest
      exact ⟨u,v,hcons.mpr ⟨x,hx,hu⟩,hcons.mpr ⟨y,hy,hv⟩,hc⟩
    · intro h
      obtain ⟨u,v,hu,hv,hc⟩ := h
      obtain ⟨x,hx,hu⟩ := hcons.mp hu
      obtain ⟨y,hy,hv⟩ := hcons.mp hv
      exact hcons.mpr ⟨x ++ y,applyOp_append_ok_iff.mpr ⟨x,y,hx,hy,rfl⟩,
        ih.mpr ⟨u,v,hu,hv,hc⟩⟩

theorem canonicalizeSegments_nil (ops : List CompiledCanonicalizeOp) :
    lib.canonicalizeSegments ops [] = .ok [] := by
  induction ops with
  | nil => rfl
  | cons op ops ih =>
    have hop : lib.applyOp [] op = .ok [] := by cases op <;> rfl
    unfold canonicalizeSegments
    rw [List.foldlM_cons, hop]
    exact ih

theorem canonicalizeSegments_ok_iff {ops : List CompiledCanonicalizeOp} {l out : List String} :
    lib.canonicalizeSegments ops l = .ok out ↔
      ∃ outs, List.Forall₂ (fun s o => lib.canonicalizeSegments ops [s] = .ok o) l outs ∧
        out = outs.flatten := by
  induction l generalizing out with
  | nil =>
    rw [canonicalizeSegments_nil]
    constructor
    · intro h
      exact ⟨[],.nil,(Except.ok.inj h).symm⟩
    · intro h
      obtain ⟨outs,houts,rfl⟩ := h
      cases houts
      rfl
  | cons s l ih =>
    rw [← List.singleton_append, canonicalizeSegments_append_ok_iff]
    constructor
    · intro h
      obtain ⟨x,y,hx,hy,rfl⟩ := h
      obtain ⟨outs,houts,rfl⟩ := ih.mp hy
      exact ⟨x::outs,.cons hx houts,rfl⟩
    · intro h
      obtain ⟨outs,houts,rfl⟩ := h
      cases houts with
      | cons hx houts => exact ⟨_,_,hx,ih.mpr ⟨_,houts,rfl⟩,rfl⟩

/-- One segment becomes at most one segment. -/
theorem canonicalizeSegments_singleton {ops : List CompiledCanonicalizeOp} {s : String}
    {out : List String} (h : lib.canonicalizeSegments ops [s] = .ok out) :
    out = [] ∨ ∃ c, out = [c] := by
  induction ops generalizing s with
  | nil => exact .inr ⟨s,(Except.ok.inj h).symm⟩
  | cons op ops ih =>
    unfold canonicalizeSegments at h
    rw [List.foldlM_cons] at h
    cases hop : lib.applyOp [s] op with
    | error e =>
      rw [hop] at h
      cases h
    | ok next =>
      rw [hop] at h
      have hnext : next = [] ∨ ∃ c, next = [c] := by
        cases op with
        | trim => exact .inr ⟨_,(Except.ok.inj hop).symm⟩
        | lower => exact .inr ⟨_,(Except.ok.inj hop).symm⟩
        | compact =>
          have hnext := (Except.ok.inj hop).symm
          by_cases hs : isBlankScalar s = true
          · exact .inl (by rw [hnext]; simp [opCompact, hs])
          · exact .inr ⟨s,by rw [hnext]; simp [opCompact, hs]⟩
        | regexReplace pattern repl =>
          obtain ⟨c,_,hc⟩ := List.forall₂_cons_left_iff.mp (mapM_ok_iff.mp hop)
          obtain ⟨rest,hrest,rfl⟩ := hc
          cases hrest
          exact .inr ⟨c,rfl⟩
      rcases hnext with rfl | ⟨c,rfl⟩
      · have hnil : lib.canonicalizeSegments ops [] = .ok [] := canonicalizeSegments_nil ops
        exact .inl (Except.ok.inj (h.symm.trans hnil))
      · exact ih h

end TextLibrary

structure SourceTopologyLocatorBuilder where
  pathFields : List String
  ops : List CompiledCanonicalizeOp

/-- The text of a path column; a column without a value is empty. -/
def columnText (v : Value) : String := if v.isNull then "" else v.pyStr

/-- The canonical path of a record, from its path columns. -/
def SourceTopologyLocatorBuilder.build (lib : TextLibrary) (b : SourceTopologyLocatorBuilder)
    (values : Fields) : Except PyException (Option (List String)) :=
  (lib.canonicalizeSegments b.ops
    (b.pathFields.map fun field => columnText (Fields.read values field))).map fun segments =>
      let normalized := segments.filter fun s => !isBlankScalar s
      if normalized = [] then none else some normalized

structure SqliteTopologyTargetReader where
  dataset : String
  nodeIdField : String
  parentIdField : String
  targetLabelField : String
  ops : List CompiledCanonicalizeOp

namespace SqliteTopologyTargetReader

variable (lib : TextLibrary) (reader : SqliteTopologyTargetReader)

/-- `row[field]` -/
def field (row : Fields) (name : String) : Except PyException Value :=
  match Dict.get? row name with
  | some v => .ok v
  | none => .error ⟨"KeyError",Value.strRepr name⟩

def optionalStr (v : Value) : Option String := if v.isNull then none else some v.pyStr

def iterRow (row : Fields) : Except PyException TargetHierarchyRow :=
  (field row reader.targetLabelField).bind fun rawLabel =>
  (field row reader.nodeIdField).bind fun nodeId =>
  (field row reader.parentIdField).bind fun parentId =>
  (lib.canonicalizeScalar reader.ops rawLabel.pyStr).map fun label =>
    ⟨nodeId.pyStr,optionalStr parentId,label⟩

def idText (row : Fields) : String := (Fields.read row reader.nodeIdField).pyStr

def ordered (rows : List Fields) : List Fields :=
  rows.insertionSort fun a b => reader.idText a ≤ reader.idText b

/-- The rows of the cache in the order of their ids. -/
def readHierarchy (dataset : String) (rows : List Fields) :
    Except PyException (List TargetHierarchyRow) :=
  if dataset ≠ reader.dataset then .error ⟨"ValueError",
    "SqliteTopologyTargetReader is bound to dataset " ++ Value.strRepr reader.dataset ++
      ", got " ++ Value.strRepr dataset⟩
  else (rows.mapM fun row => field row reader.nodeIdField).bind fun _ =>
    (reader.ordered rows).mapM (reader.iterRow lib)

def labelText (row : Fields) : String := (Fields.read row reader.targetLabelField).pyStr

def parentText (row : Fields) : Option String :=
  optionalStr (Fields.read row reader.parentIdField)

/-- A root has no parent; an empty reference is none unless some row has an empty id. -/
def IsRoot (rows : List Fields) (row : Fields) : Prop :=
  reader.parentText row = none ∨
    reader.parentText row = some "" ∧ ∀ other ∈ rows, reader.idText other ≠ ""

/-- Rows of a target hierarchy in the cache. -/
structure CacheHierarchy (rows : List Fields) : Prop where
  present : ∀ row ∈ rows, Dict.contains row reader.nodeIdField = true ∧
    Dict.contains row reader.parentIdField = true ∧
    Dict.contains row reader.targetLabelField = true
  labels : ∀ row ∈ rows, ∃ s, Fields.read row reader.targetLabelField = .str s ∧
    isBlankScalar s = false
  distinct : (rows.map reader.idText).Nodup
  known : ∀ row ∈ rows, reader.IsRoot rows row ∨
    ∃ parent ∈ rows, reader.parentText row = some (reader.idText parent)
  acyclic : Acyclic fun child parent =>
    ∃ row ∈ rows, reader.idText row = child ∧ reader.parentText row = some parent

/-- The rows from the root down to a row. -/
inductive RowPath (rows : List Fields) : Fields → List Fields → Prop
  | root {row : Fields} (hrow : row ∈ rows) (h : reader.IsRoot rows row) : RowPath rows row [row]
  | child {row parent : Fields} {path : List Fields} (hrow : row ∈ rows)
      (hp : reader.parentText row = some (reader.idText parent))
      (h : RowPath rows parent path) : RowPath rows row (path ++ [row])

/-- A record whose path columns hold the labels of a path, and nothing else. -/
structure HoldsPath (pathFields : List String) (values : Fields) (path : List Fields)
    (rest : List Value) : Prop where
  columns : pathFields.map (Fields.read values) =
    path.map (fun row => Fields.read row reader.targetLabelField) ++ rest
  blank : ∀ v ∈ rest, v = .null ∨ v = .str ""

end SqliteTopologyTargetReader

namespace TopologySnapshot

/-- The query for the canonical path of a node ends with the names. -/
def HasPath (t : TopologySnapshot) (id : String) (names : List String) : Prop :=
  ∃ bound, ∀ fuel, bound ≤ fuel → t.canonicalPath fuel id = some (.ok names)

/-- `_candidate_matches_mode` on the rung `exact_canonical_path`. -/
def matchesExactPath (t : TopologySnapshot) (fuel : Nat) (sourceSegments : List String)
    (id : String) : QueryRun Bool :=
  (t.canonicalPath fuel id).map fun path => path.map fun names => names == sourceSegments

theorem HasPath.unique {t : TopologySnapshot} {id : String} {names names' : List String}
    (h : t.HasPath id names) (h' : t.HasPath id names') : names = names' := by
  obtain ⟨bound,hpath⟩ := h
  obtain ⟨bound',hpath'⟩ := h'
  have heq := (hpath (max bound bound') (by omega)).symm.trans (hpath' (max bound bound') (by omega))
  exact Except.ok.inj (Option.some.inj heq)

theorem HasPath.matches {t : TopologySnapshot} {id : String} {names : List String}
    (h : t.HasPath id names) :
    ∃ bound, ∀ fuel, bound ≤ fuel → t.matchesExactPath fuel names id = some (.ok true) := by
  obtain ⟨bound,hpath⟩ := h
  refine ⟨bound,fun fuel hfuel => ?_⟩
  rw [matchesExactPath, hpath fuel hfuel]
  simp [Except.map]

theorem not_hasPath_empty (id : String) (names : List String) : ¬ empty.HasPath id names := by
  intro h
  obtain ⟨bound,hpath⟩ := h
  have hbound := hpath bound (Nat.le_refl _)
  simp [canonicalPath, pathToRoot, parentId, requireNode, empty, Except.map,
    Except.bind] at hbound

end TopologySnapshot

namespace TextLibrary

variable {lib : TextLibrary}

theorem canonicalizeScalar_ok_iff {ops : List CompiledCanonicalizeOp} {s c : String} :
    lib.canonicalizeScalar ops s = .ok c ↔
      ∃ out, lib.canonicalizeSegments ops [s] = .ok out ∧ out.headD "" = c := by
  unfold canonicalizeScalar
  cases lib.canonicalizeSegments ops [s] <;> simp [Except.map]

/-- What is left of a canonicalized path without blank segments is what is left of the
segments that are canonicalized alone. -/
theorem canonicalizeSegments_visible_iff {ops : List CompiledCanonicalizeOp}
    {l visible : List String} :
    (∃ out, lib.canonicalizeSegments ops l = .ok out ∧
      out.filter (fun s => !isBlankScalar s) = visible) ↔
    ∃ cs, List.Forall₂ (fun s c => lib.canonicalizeScalar ops s = .ok c) l cs ∧
      cs.filter (fun s => !isBlankScalar s) = visible := by
  have hone {s : String} {o : List String} (h : lib.canonicalizeSegments ops [s] = .ok o) :
      o.filter (fun s => !isBlankScalar s) = [o.headD ""].filter fun s => !isBlankScalar s := by
    rcases canonicalizeSegments_singleton h with rfl | ⟨c,rfl⟩
    · rfl
    · rfl
  constructor
  · intro h
    obtain ⟨out,hout,rfl⟩ := h
    obtain ⟨outs,houts,rfl⟩ := canonicalizeSegments_ok_iff.mp hout
    clear hout
    induction houts with
    | nil => exact ⟨[],.nil,rfl⟩
    | @cons s o l outs ho _ ih =>
      obtain ⟨cs,hcs,hvisible⟩ := ih
      refine ⟨o.headD ""::cs,.cons (canonicalizeScalar_ok_iff.mpr ⟨o,ho,rfl⟩) hcs,?_⟩
      rw [List.flatten_cons, List.filter_append, hone ho, ← hvisible, ← List.filter_append]
      rfl
  · intro h
    obtain ⟨cs,hcs,rfl⟩ := h
    induction hcs with
    | nil => exact ⟨[],canonicalizeSegments_nil ops,rfl⟩
    | @cons s c l cs hc _ ih =>
      obtain ⟨out,hout,hvisible⟩ := ih
      obtain ⟨o,ho,rfl⟩ := canonicalizeScalar_ok_iff.mp hc
      refine ⟨o ++ out,?_,?_⟩
      · rw [← List.singleton_append]
        exact canonicalizeSegments_append_ok_iff.mpr ⟨o,out,ho,hout,rfl⟩
      · rw [List.filter_append, hone ho, hvisible, ← List.filter_append]
        rfl

end TextLibrary

theorem SourceTopologyLocatorBuilder.build_ok_iff {lib : TextLibrary}
    {b : SourceTopologyLocatorBuilder} {values : Fields} {segments : List String} :
    b.build lib values = .ok (some segments) ↔ segments ≠ [] ∧
      ∃ cs, List.Forall₂ (fun v c => lib.canonicalizeScalar b.ops (columnText v) = .ok c)
        (b.pathFields.map (Fields.read values)) cs ∧
        cs.filter (fun s => !isBlankScalar s) = segments := by
  have hforall (cs : List String) :
      List.Forall₂ (fun v c => lib.canonicalizeScalar b.ops (columnText v) = .ok c)
        (b.pathFields.map (Fields.read values)) cs ↔
      List.Forall₂ (fun s c => lib.canonicalizeScalar b.ops s = .ok c)
        (b.pathFields.map fun field => columnText (Fields.read values field)) cs := by
    rw [List.forall₂_map_left_iff, List.forall₂_map_left_iff]
  simp only [hforall]
  rw [← TextLibrary.canonicalizeSegments_visible_iff]
  unfold build
  cases lib.canonicalizeSegments b.ops
      (b.pathFields.map fun field => columnText (Fields.read values field)) with
  | error e => simp [Except.map]
  | ok out =>
    simp only [Except.map, Except.ok.injEq]
    constructor
    · intro h
      split at h
      · cases h
      · cases h
        exact ⟨by assumption,out,rfl,rfl⟩
    · intro h
      obtain ⟨hne,out',rfl,rfl⟩ := h
      rw [if_neg hne]

namespace SqliteTopologyTargetReader

variable {lib : TextLibrary} {reader : SqliteTopologyTargetReader} {rows : List Fields}

/-- The hierarchy row of a cache row with its canonical label. -/
def hierarchyRow (reader : SqliteTopologyTargetReader) (row : Fields) (label : String) :
    TargetHierarchyRow := ⟨reader.idText row,reader.parentText row,label⟩

theorem field_of_contains {row : Fields} {name : String} (h : Dict.contains row name = true) :
    field row name = .ok (Fields.read row name) := by
  obtain ⟨v,hv⟩ := Option.isSome_iff_exists.mp h
  rw [field, Fields.read, hv]
  rfl

theorem iterRow_ok_iff (h : reader.CacheHierarchy rows) {row : Fields} (hrow : row ∈ rows)
    {hr : TargetHierarchyRow} : reader.iterRow lib row = .ok hr ↔
      ∃ c, lib.canonicalizeScalar reader.ops (reader.labelText row) = .ok c ∧
        reader.hierarchyRow row c = hr := by
  obtain ⟨hid,hparent,hlabel⟩ := h.present row hrow
  unfold iterRow
  rw [field_of_contains hid, field_of_contains hparent, field_of_contains hlabel]
  simp only [Except.bind]
  unfold labelText hierarchyRow idText parentText
  cases lib.canonicalizeScalar reader.ops (Fields.read row reader.targetLabelField).pyStr <;>
    simp [Except.map]

theorem mem_ordered {row : Fields} : row ∈ reader.ordered rows ↔ row ∈ rows :=
  (List.perm_insertionSort _ rows).mem_iff

/-- The rows that are read are those of the cache with their canonical labels. -/
theorem readHierarchy_ok_iff (h : reader.CacheHierarchy rows) {hierarchy : List TargetHierarchyRow} :
    reader.readHierarchy lib reader.dataset rows = .ok hierarchy ↔
      List.Forall₂ (fun row hr => ∃ c, lib.canonicalizeScalar reader.ops (reader.labelText row) =
        .ok c ∧ reader.hierarchyRow row c = hr) (reader.ordered rows) hierarchy := by
  have hids : rows.mapM (fun row => field row reader.nodeIdField) =
      .ok (rows.map fun row => Fields.read row reader.nodeIdField) := by
    rw [mapM_ok_iff, List.forall₂_map_right_iff, List.forall₂_same]
    exact fun row hrow => field_of_contains (h.present row hrow).1
  unfold readHierarchy
  rw [if_neg (by simp), hids]
  simp only [Except.bind]
  rw [mapM_ok_iff]
  have hrows : ∀ row ∈ reader.ordered rows, row ∈ rows := fun row hrow => mem_ordered.mp hrow
  generalize reader.ordered rows = sorted at hrows ⊢
  induction sorted generalizing hierarchy with
  | nil => simp
  | cons row sorted ih =>
    cases hierarchy with
    | nil => simp
    | cons hr hierarchy =>
      have hrest := @ih hierarchy fun r hr => hrows r (List.mem_cons_of_mem _ hr)
      rw [List.forall₂_cons, List.forall₂_cons]
      exact and_congr (iterRow_ok_iff h (hrows row List.mem_cons_self)) hrest

/-- Each cache row is read as a hierarchy row, and each hierarchy row comes from one. -/
structure ReadAs (lib : TextLibrary) (reader : SqliteTopologyTargetReader) (rows : List Fields)
    (hierarchy : List TargetHierarchyRow) : Prop where
  row_read : ∀ row ∈ rows, ∃ c, lib.canonicalizeScalar reader.ops (reader.labelText row) = .ok c ∧
    reader.hierarchyRow row c ∈ hierarchy
  of_row : ∀ hr ∈ hierarchy, ∃ row ∈ rows, ∃ c,
    lib.canonicalizeScalar reader.ops (reader.labelText row) = .ok c ∧
      reader.hierarchyRow row c = hr
  distinct : (hierarchy.map TargetHierarchyRow.nodeId).Nodup

theorem readAs_of_read (h : reader.CacheHierarchy rows) {hierarchy : List TargetHierarchyRow}
    (hread : reader.readHierarchy lib reader.dataset rows = .ok hierarchy) :
    ReadAs lib reader rows hierarchy := by
  rw [readHierarchy_ok_iff h] at hread
  have hids : hierarchy.map TargetHierarchyRow.nodeId =
      (reader.ordered rows).map reader.idText := by
    generalize reader.ordered rows = sorted at hread ⊢
    induction hread with
    | nil => rfl
    | cons hhead _ ih =>
      obtain ⟨c,_,rfl⟩ := hhead
      rw [List.map_cons, List.map_cons, ih]
      rfl
  refine ⟨fun row hrow => ?_,fun hr hhr => ?_,?_⟩
  · obtain ⟨hr,hhr,c,hc,rfl⟩ := forall₂_exists_right hread row (mem_ordered.mpr hrow)
    exact ⟨c,hc,hhr⟩
  · obtain ⟨row,hrow,c,hc⟩ := forall₂_exists_right hread.flip hr hhr
    exact ⟨row,mem_ordered.mp hrow,c,hc⟩
  · rw [hids]
    exact ((List.perm_insertionSort _ rows).map reader.idText).nodup_iff.mpr h.distinct

theorem read_of_canonical (h : reader.CacheHierarchy rows)
    (hrows : ∀ row ∈ rows, ∃ c, lib.canonicalizeScalar reader.ops (reader.labelText row) = .ok c) :
    ∃ hierarchy, reader.readHierarchy lib reader.dataset rows = .ok hierarchy := by
  have hforall : ∀ sorted : List Fields, (∀ row ∈ sorted, row ∈ rows) → ∃ hierarchy,
      List.Forall₂ (fun row hr => ∃ c, lib.canonicalizeScalar reader.ops (reader.labelText row) =
        .ok c ∧ reader.hierarchyRow row c = hr) sorted hierarchy := by
    intro sorted hsorted
    induction sorted with
    | nil => exact ⟨[],.nil⟩
    | cons row sorted ih =>
      obtain ⟨c,hc⟩ := hrows row (hsorted row List.mem_cons_self)
      obtain ⟨hierarchy,hh⟩ := ih fun r hr => hsorted r (List.mem_cons_of_mem _ hr)
      exact ⟨_,.cons ⟨c,hc,rfl⟩ hh⟩
  obtain ⟨hierarchy,hh⟩ := hforall _ fun row hrow => mem_ordered.mp hrow
  exact ⟨hierarchy,(readHierarchy_ok_iff h).mpr hh⟩

/-- The rows that are read are a hierarchy unless a root has an empty parent reference. -/
theorem isHierarchy_iff (h : reader.CacheHierarchy rows) {hierarchy : List TargetHierarchyRow}
    (hread : ReadAs lib reader rows hierarchy) : IsHierarchy hierarchy ↔
      ∀ row ∈ rows, reader.parentText row = some "" → ∃ other ∈ rows, reader.idText other = "" := by
  constructor
  · intro hh row hrow hempty
    obtain ⟨c,_,hmem⟩ := hread.row_read row hrow
    obtain ⟨hr,hhr,hid⟩ := hh.known _ hmem "" hempty
    obtain ⟨other,hother,c',_,rfl⟩ := hread.of_row hr hhr
    exact ⟨other,hother,hid⟩
  · intro hempty
    refine ⟨hread.distinct,fun hr hhr parent hparent => ?_,?_⟩
    · obtain ⟨row,hrow,c,_,rfl⟩ := hread.of_row hr hhr
      have hparent : reader.parentText row = some parent := hparent
      have hknown : ∃ other ∈ rows, reader.idText other = parent := by
        rcases h.known row hrow with (hnone | ⟨hblank,_⟩) | ⟨other,hother,hp⟩
        · rw [hnone] at hparent
          cases hparent
        · obtain ⟨other,hother,hid⟩ := hempty row hrow hblank
          rw [hblank] at hparent
          exact ⟨other,hother,by rw [hid, Option.some.inj hparent]⟩
        · rw [hp] at hparent
          exact ⟨other,hother,Option.some.inj hparent⟩
      obtain ⟨other,hother,hid⟩ := hknown
      obtain ⟨c',_,hmem⟩ := hread.row_read other hother
      exact ⟨_,hmem,hid⟩
    · have hedge : (fun child parent => ∃ hr ∈ hierarchy, hr.nodeId = child ∧
          hr.parentId = some parent) = fun child parent =>
            ∃ row ∈ rows, reader.idText row = child ∧ reader.parentText row = some parent := by
        funext child parent
        apply propext
        constructor
        · intro he
          obtain ⟨hr,hhr,hid,hp⟩ := he
          obtain ⟨row,hrow,c,_,rfl⟩ := hread.of_row hr hhr
          exact ⟨row,hrow,hid,hp⟩
        · intro he
          obtain ⟨row,hrow,hid,hp⟩ := he
          obtain ⟨c,_,hmem⟩ := hread.row_read row hrow
          exact ⟨_,hmem,hid,hp⟩
      rw [hedge]
      exact h.acyclic

variable {builder : TargetHierarchyTopologyBuilder}

theorem RowPath.mem {row : Fields} {path : List Fields} (h : reader.RowPath rows row path) :
    row ∈ rows := by
  cases h with
  | root hrow _ => exact hrow
  | child hrow _ _ => exact hrow

theorem RowPath.ends {row : Fields} {path : List Fields} (h : reader.RowPath rows row path) :
    ∃ above, path = above ++ [row] := by
  cases h with
  | root _ _ => exact ⟨[],rfl⟩
  | child _ _ _ => exact ⟨_,rfl⟩

theorem RowPath.subset {row : Fields} {path : List Fields} (h : reader.RowPath rows row path) :
    ∀ r ∈ path, r ∈ rows := by
  induction h with
  | root hrow _ =>
    intro r hr
    rw [List.mem_singleton.mp hr]
    exact hrow
  | child hrow _ _ ih =>
    intro r hr
    rcases List.mem_append.mp hr with hr | hr
    · exact ih r hr
    · rw [List.mem_singleton.mp hr]
      exact hrow

/-- The path of a row is the path of its node in the snapshot. -/
theorem rootPath_of_rowPath {hierarchy : List TargetHierarchyRow}
    (hread : ReadAs lib reader rows hierarchy) (hh : IsHierarchy hierarchy)
    (hempty : ∀ row ∈ rows, reader.parentText row = some "" →
      ∃ other ∈ rows, reader.idText other = "")
    {row : Fields} {path : List Fields} (h : reader.RowPath rows row path) :
    (builder.build hierarchy).1.RootPath (reader.idText row) (path.map reader.idText) := by
  have hparent {row : Fields} (hrow : row ∈ rows) :
      Dict.get? (builder.build hierarchy).1.parentById (reader.idText row) =
        some (reader.parentText row) := by
    obtain ⟨c,_,hmem⟩ := hread.row_read row hrow
    exact (TargetHierarchyTopologyBuilder.build_parentById hh _ _).mpr ⟨_,hmem,rfl,rfl⟩
  induction h with
  | root hrow hroot =>
    apply TopologySnapshot.RootPath.root
    rw [hparent hrow]
    rcases hroot with hnone | ⟨hblank,hno⟩
    · rw [hnone]
    · obtain ⟨other,hother,hid⟩ := hempty _ hrow hblank
      exact absurd hid (hno other hother)
  | @child row parent path hrow hp hpath ih =>
    rw [List.map_append]
    exact .child (by rw [TopologySnapshot.IsParent, hparent hrow, hp]) ih

theorem canonicalName_of_row {hierarchy : List TargetHierarchyRow}
    (hread : ReadAs lib reader rows hierarchy) (hh : IsHierarchy hierarchy) {row : Fields}
    (hrow : row ∈ rows) {c : String}
    (hc : lib.canonicalizeScalar reader.ops (reader.labelText row) = .ok c) :
    (builder.build hierarchy).1.canonicalName (reader.idText row) = .ok c := by
  obtain ⟨c',hc',hmem⟩ := hread.row_read row hrow
  have hnode : Dict.get? (builder.build hierarchy).1.nodesById (reader.idText row) =
      some (reader.hierarchyRow row c').node :=
    (TargetHierarchyTopologyBuilder.build_nodesById hh _ _).mpr ⟨_,hmem,rfl,rfl⟩
  rw [hc] at hc'
  rw [TopologySnapshot.canonicalName, TopologySnapshot.requireNode, hnode, Except.ok.inj hc']
  rfl

/-- The canonical path of a node holds the canonical labels of its rows. -/
theorem hasPath_of_rowPath {hierarchy : List TargetHierarchyRow}
    (hread : ReadAs lib reader rows hierarchy) (hh : IsHierarchy hierarchy)
    (hempty : ∀ row ∈ rows, reader.parentText row = some "" →
      ∃ other ∈ rows, reader.idText other = "")
    {row : Fields} {path : List Fields} (h : reader.RowPath rows row path) {cs : List String}
    (hcs : List.Forall₂ (fun row c =>
      lib.canonicalizeScalar reader.ops (reader.labelText row) = .ok c) path cs) :
    (builder.build hierarchy).1.HasPath (reader.idText row) cs := by
  have hroot : (builder.build hierarchy).1.RootPath (reader.idText row)
      (path.map reader.idText) := rootPath_of_rowPath hread hh hempty h
  have hnames : (path.map reader.idText).mapM (builder.build hierarchy).1.canonicalName =
      .ok cs := by
    have hsubset := h.subset
    rw [mapM_ok_iff, List.forall₂_map_left_iff]
    clear hroot h
    induction hcs with
    | nil => exact .nil
    | cons hc _ ih =>
      exact .cons (canonicalName_of_row hread hh (hsubset _ List.mem_cons_self) hc)
        (ih fun r hr => hsubset r (List.mem_cons_of_mem _ hr))
  obtain ⟨above,rfl⟩ := h.ends
  rw [List.map_append] at hroot hnames
  refine ⟨above.length,fun fuel hfuel => ?_⟩
  have hwf : (builder.build hierarchy).1.WellFormed :=
    TargetHierarchyTopologyBuilder.build_wellFormed hh
  have hlength : (above.map reader.idText).length ≤ fuel := by rwa [List.length_map]
  exact (hwf.canonicalPath_rootPath hroot hlength).trans (congrArg some hnames)

/-- The locator of a record is the canonical path of a row's node, and the exact rung confirms
the node. -/
def LocatorAgrees (lib : TextLibrary) (reader : SqliteTopologyTargetReader)
    (builder : TargetHierarchyTopologyBuilder) (rows : List Fields) (pathFields : List String)
    (values : Fields) (row : Fields) : Prop :=
  ∃ hierarchy segments,
    reader.readHierarchy lib reader.dataset rows = .ok hierarchy ∧
    SourceTopologyLocatorBuilder.build lib ⟨pathFields,reader.ops⟩ values = .ok (some segments) ∧
    (builder.build hierarchy).1.HasPath (reader.idText row) segments ∧
    ∃ bound, ∀ fuel, bound ≤ fuel → (builder.build hierarchy).1.matchesExactPath fuel segments
      (reader.idText row) = some (.ok true)

/-- Every label can be canonicalized, no root has an empty parent reference, no label of the path
is lost, and nothing comes out of an empty column. -/
structure KeepsLabels (lib : TextLibrary) (reader : SqliteTopologyTargetReader)
    (rows path : List Fields) (rest : List Value) : Prop where
  readable : ∀ row ∈ rows, ∃ c, lib.canonicalizeScalar reader.ops (reader.labelText row) = .ok c
  noEmptyParent : ∀ row ∈ rows, reader.parentText row = some "" →
    ∃ other ∈ rows, reader.idText other = ""
  visible : ∀ row ∈ path, ∀ c, lib.canonicalizeScalar reader.ops (reader.labelText row) = .ok c →
    isBlankScalar c = false
  blank : rest ≠ [] → ∃ c, lib.canonicalizeScalar reader.ops "" = .ok c ∧ isBlankScalar c = true

theorem columnText_blank {v : Value} (h : v = .null ∨ v = .str "") : columnText v = "" := by
  rcases h with rfl | rfl
  · rfl
  · rfl

theorem filter_visible_eq_self {cs : List String} (h : ∀ c ∈ cs, isBlankScalar c = false) :
    cs.filter (fun s => !isBlankScalar s) = cs := by
  apply List.filter_eq_self.mpr
  intro c hc
  rw [h c hc]
  rfl

/-- What the path columns of a record are canonicalized to, label by label. -/
theorem columns_canonical_iff {path : List Fields} {pathFields : List String} {values : Fields}
    {rest : List Value} (h : reader.CacheHierarchy rows) (hpath : ∀ r ∈ path, r ∈ rows)
    (hvalues : reader.HoldsPath pathFields values path rest) {cs : List String} :
    List.Forall₂ (fun v c => lib.canonicalizeScalar reader.ops (columnText v) = .ok c)
        (pathFields.map (Fields.read values)) cs ↔
      ∃ front back, cs = front ++ back ∧
        List.Forall₂ (fun r c => lib.canonicalizeScalar reader.ops (reader.labelText r) = .ok c)
          path front ∧
        List.Forall₂ (fun _ c => lib.canonicalizeScalar reader.ops "" = .ok c) rest back := by
  have hfront {front : List String} : List.Forall₂ (fun v c =>
      lib.canonicalizeScalar reader.ops (columnText v) = .ok c)
        (path.map fun r => Fields.read r reader.targetLabelField) front ↔
      List.Forall₂ (fun r c => lib.canonicalizeScalar reader.ops (reader.labelText r) = .ok c)
        path front := by
    rw [List.forall₂_map_left_iff]
    clear hvalues
    induction path generalizing front with
    | nil => simp
    | cons r path ih =>
      obtain ⟨s,hs,_⟩ := h.labels r (hpath r List.mem_cons_self)
      have hcolumn : columnText (Fields.read r reader.targetLabelField) = reader.labelText r := by
        rw [labelText, hs]
        rfl
      have hrest : ∀ front, _ := fun front =>
        @ih (fun q hq => hpath q (List.mem_cons_of_mem _ hq)) front
      simp only [List.forall₂_cons_left_iff, hcolumn, hrest]
  have hback {back : List String} : List.Forall₂ (fun v c =>
      lib.canonicalizeScalar reader.ops (columnText v) = .ok c) rest back ↔
      List.Forall₂ (fun _ c => lib.canonicalizeScalar reader.ops "" = .ok c) rest back := by
    have hblank := hvalues.blank
    clear hvalues
    induction rest generalizing back with
    | nil => simp
    | cons v rest ih =>
      have hrest : ∀ back, _ := fun back =>
        @ih back fun w hw => hblank w (List.mem_cons_of_mem _ hw)
      simp only [List.forall₂_cons_left_iff, columnText_blank (hblank v List.mem_cons_self), hrest]
  rw [hvalues.columns]
  constructor
  · intro hcs
    obtain ⟨front,back,rfl,hf,hb⟩ := forall₂_append_left hcs
    exact ⟨front,back,rfl,hfront.mp hf,hback.mp hb⟩
  · intro hcs
    obtain ⟨front,back,rfl,hf,hb⟩ := hcs
    exact List.rel_append (hfront.mpr hf) (hback.mpr hb)

/-- The labels of a path are canonical segments that can be seen. -/
theorem KeepsLabels.canonical_labels {lib : TextLibrary} {reader : SqliteTopologyTargetReader}
    {rows path : List Fields} {rest : List Value} (h : KeepsLabels lib reader rows path rest)
    {labels : List Fields} (hrows : ∀ r ∈ labels, r ∈ rows) (hpath : ∀ r ∈ labels, r ∈ path) :
    ∃ front, List.Forall₂ (fun r c =>
        lib.canonicalizeScalar reader.ops (reader.labelText r) = .ok c) labels front ∧
      ∀ c ∈ front, isBlankScalar c = false := by
  induction labels with
  | nil => exact ⟨[],.nil,by simp⟩
  | cons r labels ih =>
    obtain ⟨front,hfront,hvisible⟩ := ih (fun q hq => hrows q (List.mem_cons_of_mem _ hq))
      fun q hq => hpath q (List.mem_cons_of_mem _ hq)
    obtain ⟨c,hc⟩ := h.readable r (hrows r List.mem_cons_self)
    refine ⟨c::front,.cons hc hfront,fun d hd => ?_⟩
    rcases List.mem_cons.mp hd with rfl | hd
    · exact h.visible r (hpath r List.mem_cons_self) _ hc
    · exact hvisible d hd

/-- The empty columns after a path are dropped. -/
theorem KeepsLabels.canonical_rest {lib : TextLibrary} {reader : SqliteTopologyTargetReader}
    {rows path : List Fields} {rest : List Value} (h : KeepsLabels lib reader rows path rest) :
    ∃ back, List.Forall₂ (fun (_ : Value) c => lib.canonicalizeScalar reader.ops "" = .ok c)
        rest back ∧ back.filter (fun s => !isBlankScalar s) = [] := by
  by_cases hne : rest = []
  · exact ⟨[],by rw [hne]; exact .nil,rfl⟩
  · obtain ⟨c,hc,hdropped⟩ := h.blank hne
    refine ⟨List.replicate rest.length c,?_,?_⟩
    · clear h hne
      induction rest with
      | nil => exact .nil
      | cons v rest ih => exact .cons hc ih
    · apply List.filter_eq_nil_iff.mpr
      intro d hd
      rw [List.eq_of_mem_replicate hd, hdropped]
      simp

section Agreement

variable {lib : TextLibrary} {reader : SqliteTopologyTargetReader}
variable {builder : TargetHierarchyTopologyBuilder} {rows path : List Fields} {row : Fields}
variable {pathFields : List String} {values : Fields} {rest : List Value}

theorem keepsLabels_of_agrees (h : reader.CacheHierarchy rows)
    (hpath : reader.RowPath rows row path) (hvalues : reader.HoldsPath pathFields values path rest)
    (hagrees : LocatorAgrees lib reader builder rows pathFields values row) :
    KeepsLabels lib reader rows path rest := by
  obtain ⟨hierarchy,segments,hread,hbuild,hsegments,_⟩ := hagrees
  have hreadAs := readAs_of_read h hread
  have hh : IsHierarchy hierarchy := by
    by_contra hnot
    rw [(TargetHierarchyTopologyBuilder.build_of_not hnot).1] at hsegments
    exact TopologySnapshot.not_hasPath_empty _ _ hsegments
  have hempty := (isHierarchy_iff h hreadAs).mp hh
  obtain ⟨_,cs,hcs,hfilter⟩ := SourceTopologyLocatorBuilder.build_ok_iff.mp hbuild
  obtain ⟨front,back,rfl,hfront,hback⟩ :=
    (columns_canonical_iff h hpath.subset hvalues).mp hcs
  -- the path of the node is the one of the labels, so its segments are not blank
  have hsame : segments = front :=
    hsegments.unique (hasPath_of_rowPath hreadAs hh hempty hpath hfront)
  rw [List.filter_append, hsame] at hfilter
  have hvisible : ∀ c ∈ front, isBlankScalar c = false := by
    intro c hc
    rw [← hfilter, ← List.filter_append] at hc
    simpa using (List.mem_filter.mp hc).2
  rw [filter_visible_eq_self hvisible, List.append_right_eq_self] at hfilter
  refine ⟨fun r hr => ?_,hempty,fun r hr c hc => ?_,fun hne => ?_⟩
  · obtain ⟨c,hc,_⟩ := hreadAs.row_read r hr
    exact ⟨c,hc⟩
  · obtain ⟨c',hc',hr'⟩ := forall₂_exists_right hfront r hr
    rw [hc] at hr'
    rw [Except.ok.inj hr']
    exact hvisible c' hc'
  · obtain ⟨v,rest',rfl⟩ := List.exists_cons_of_ne_nil hne
    obtain ⟨c,hc,hok⟩ := forall₂_exists_right hback v List.mem_cons_self
    refine ⟨c,hok,?_⟩
    have hdropped := List.filter_eq_nil_iff.mp hfilter c hc
    simpa using hdropped

theorem agrees_of_keepsLabels (h : reader.CacheHierarchy rows)
    (hpath : reader.RowPath rows row path) (hvalues : reader.HoldsPath pathFields values path rest)
    (hkept : KeepsLabels lib reader rows path rest) :
    LocatorAgrees lib reader builder rows pathFields values row := by
  obtain ⟨hierarchy,hread⟩ := read_of_canonical h hkept.readable
  have hreadAs := readAs_of_read h hread
  have hh := (isHierarchy_iff h hreadAs).mpr hkept.noEmptyParent
  obtain ⟨front,hfront,hvisible⟩ := hkept.canonical_labels hpath.subset fun _ hr => hr
  obtain ⟨back,hback,hdropped⟩ := hkept.canonical_rest
  have hsegments : (builder.build hierarchy).1.HasPath (reader.idText row) front :=
    hasPath_of_rowPath hreadAs hh hkept.noEmptyParent hpath hfront
  refine ⟨hierarchy,front,hread,?_,hsegments,hsegments.matches⟩
  apply SourceTopologyLocatorBuilder.build_ok_iff.mpr
  constructor
  · intro hnil
    obtain ⟨above,habove⟩ := hpath.ends
    rw [hnil, habove] at hfront
    have hlength := hfront.length_eq
    simp at hlength
  · refine ⟨front ++ back,(columns_canonical_iff h hpath.subset hvalues).mpr
      ⟨front,back,rfl,hfront,hback⟩,?_⟩
    rw [List.filter_append, hdropped, List.append_nil, filter_visible_eq_self hvisible]

end Agreement

/-- The locator and the target path agree exactly when no label is lost on the way. -/
theorem locator_agrees_iff {lib : TextLibrary} {reader : SqliteTopologyTargetReader}
    {builder : TargetHierarchyTopologyBuilder} {rows path : List Fields} {row : Fields}
    {pathFields : List String} {values : Fields} {rest : List Value}
    (h : reader.CacheHierarchy rows) (hpath : reader.RowPath rows row path)
    (hvalues : reader.HoldsPath pathFields values path rest) :
    LocatorAgrees lib reader builder rows pathFields values row ↔
      KeepsLabels lib reader rows path rest :=
  ⟨keepsLabels_of_agrees h hpath hvalues,agrees_of_keepsLabels h hpath hvalues⟩

section Samples

def officeReader (ops : List CompiledCanonicalizeOp) : SqliteTopologyTargetReader :=
  ⟨"organizations","_id","parent_id","name",ops⟩

def headOffice (parent : Value) : Fields :=
  [("_id",.int 1),("parent_id",parent),("name",.str "Head Office")]

def office (name : String) : Fields := [("_id",.int 12),("parent_id",.int 1),("name",.str name)]

def officeFields : List String := ["org_1", "org_2", "org_3"]

def officeRecord (name : String) : Fields := [("org_1",.str "Head Office"),("org_2",.str name)]

/-- Digits are deleted, and an empty text is named. -/
def officeLibrary : TextLibrary :=
  { lower := Text.lower
    sub := fun pattern repl s =>
      if pattern = "^$" then .ok (if s = "" then repl else s)
      else .ok (String.ofList (s.toList.filter fun c => !c.isDigit)) }

theorem acyclic_of_longer {rows : List Fields}
    (h : ∀ row ∈ rows, ∀ parent ∈ reader.parentText row,
      parent.length < (reader.idText row).length) :
    Acyclic fun child parent =>
      ∃ row ∈ rows, reader.idText row = child ∧ reader.parentText row = some parent := by
  intro id hcycle
  have hlonger : ∀ a b, Relation.TransGen (fun child parent => ∃ row ∈ rows,
      reader.idText row = child ∧ reader.parentText row = some parent) a b →
      b.length < a.length := by
    intro a b hab
    induction hab with
    | single hr =>
      obtain ⟨row,hrow,rfl,hp⟩ := hr
      exact h row hrow _ hp
    | tail _ hr ih =>
      obtain ⟨row,hrow,rfl,hp⟩ := hr
      have hshort := h row hrow _ hp
      omega
  exact absurd (hlonger id id hcycle) (Nat.lt_irrefl _)

theorem cacheHierarchy_offices {parent : Value} {name : String} (ops : List CompiledCanonicalizeOp)
    (hname : isBlankScalar name = false) (hparent : parent = .null ∨ parent = .str "") :
    (officeReader ops).CacheHierarchy [headOffice parent, office name] := by
  have hroot : (officeReader ops).IsRoot [headOffice parent, office name] (headOffice parent) := by
    rcases hparent with rfl | rfl
    · exact .inl rfl
    · refine .inr ⟨rfl,?_⟩
      intro other hother
      rcases List.mem_cons.mp hother with rfl | hother
      · exact (by decide : "1" ≠ "")
      · rw [List.mem_singleton.mp hother]
        exact (by decide : "12" ≠ "")
  refine ⟨?_,?_,(by decide : ["1", "12"].Nodup),?_,?_⟩
  · intro row hrow
    rcases List.mem_cons.mp hrow with rfl | hrow
    · exact ⟨rfl,rfl,rfl⟩
    · rw [List.mem_singleton.mp hrow]
      exact ⟨rfl,rfl,rfl⟩
  · intro row hrow
    rcases List.mem_cons.mp hrow with rfl | hrow
    · exact ⟨_,rfl,by decide⟩
    · rw [List.mem_singleton.mp hrow]
      exact ⟨_,rfl,hname⟩
  · intro row hrow
    rcases List.mem_cons.mp hrow with rfl | hrow
    · exact .inl hroot
    · rw [List.mem_singleton.mp hrow]
      exact .inr ⟨_,List.mem_cons_self,rfl⟩
  · apply acyclic_of_longer
    intro row hrow p hp
    rcases List.mem_cons.mp hrow with rfl | hrow
    · rcases hparent with rfl | rfl
      · cases hp
      · cases hp
        exact (by decide : "".length < "1".length)
    · rw [List.mem_singleton.mp hrow] at hp ⊢
      cases hp
      exact (by decide : "1".length < "12".length)

theorem rowPath_office {parent : Value} {name : String} (ops : List CompiledCanonicalizeOp)
    (hroot : (officeReader ops).IsRoot [headOffice parent, office name] (headOffice parent)) :
    (officeReader ops).RowPath [headOffice parent, office name] (office name)
      [headOffice parent, office name] :=
  .child (List.mem_cons_of_mem _ List.mem_cons_self) rfl (.root List.mem_cons_self hroot)

theorem holdsPath_office (parent : Value) (name : String) (ops : List CompiledCanonicalizeOp) :
    (officeReader ops).HoldsPath officeFields (officeRecord name) [headOffice parent, office name]
      [.null] :=
  ⟨rfl,by simp⟩

theorem locator_agrees_iff_offices :
    LocatorAgrees officeLibrary (officeReader [.trim, .lower]) ⟨[]⟩ [headOffice .null, office " Sales "]
      officeFields (officeRecord " Sales ") (office " Sales ") := by
  apply (locator_agrees_iff (cacheHierarchy_offices _ (by decide) (.inl rfl))
    (rowPath_office _ (.inl rfl)) (holdsPath_office .null " Sales " _)).mpr
  have hhead : officeLibrary.canonicalizeScalar [.trim, .lower] "Head Office" =
      .ok "head office" := by decide
  have hsales : officeLibrary.canonicalizeScalar [.trim, .lower] " Sales " = .ok "sales" := by
    decide
  constructor
  · intro row hrow
    rcases List.mem_cons.mp hrow with rfl | hrow
    · exact ⟨_,hhead⟩
    · rw [List.mem_singleton.mp hrow]
      exact ⟨_,hsales⟩
  · intro row hrow hempty
    rcases List.mem_cons.mp hrow with rfl | hrow
    · cases hempty
    · rw [List.mem_singleton.mp hrow] at hempty
      exact absurd (Option.some.inj hempty) (by decide : "1" ≠ "")
  · intro row hrow c hc
    rcases List.mem_cons.mp hrow with rfl | hrow
    · rw [← Except.ok.inj (hhead.symm.trans hc)]
      decide
    · rw [List.mem_singleton.mp hrow] at hc
      rw [← Except.ok.inj (hsales.symm.trans hc)]
      decide
  · intro _
    exact ⟨"",by decide,by decide⟩

/-- A root with an empty parent reference empties the snapshot; a label that loses its last
character is a segment of the target path only; and an empty column may become a segment. -/
theorem labels_lost :
    ((officeReader [.trim]).CacheHierarchy [headOffice (.str ""), office "Sales"] ∧
      (officeReader [.trim]).RowPath [headOffice (.str ""), office "Sales"] (office "Sales")
        [headOffice (.str ""), office "Sales"] ∧
      (officeReader [.trim]).HoldsPath officeFields (officeRecord "Sales")
        [headOffice (.str ""), office "Sales"] [.null] ∧
      ¬ LocatorAgrees officeLibrary (officeReader [.trim]) ⟨[]⟩ [headOffice (.str ""), office "Sales"]
        officeFields (officeRecord "Sales") (office "Sales")) ∧
    (SourceTopologyLocatorBuilder.build officeLibrary ⟨officeFields,[.regexReplace "[0-9]" ""]⟩
        (officeRecord "42") = .ok (some ["Head Office"]) ∧
      ((officeReader [.regexReplace "[0-9]" ""]).readHierarchy officeLibrary "organizations"
        [headOffice .null, office "42"]).map (fun hierarchy =>
          (TargetHierarchyTopologyBuilder.build ⟨[]⟩ hierarchy).1.canonicalPath 2 "12") =
        .ok (some (.ok ["Head Office", ""]))) ∧
    (SourceTopologyLocatorBuilder.build officeLibrary ⟨officeFields,[.regexReplace "^$" "none"]⟩
        (officeRecord "Sales") = .ok (some ["Head Office", "Sales", "none"]) ∧
      ((officeReader [.regexReplace "^$" "none"]).readHierarchy officeLibrary "organizations"
        [headOffice .null, office "Sales"]).map (fun hierarchy =>
          (TargetHierarchyTopologyBuilder.build ⟨[]⟩ hierarchy).1.canonicalPath 2 "12") =
        .ok (some (.ok ["Head Office", "Sales"]))) := by
  have hroot : (officeReader [.trim]).IsRoot [headOffice (.str ""), office "Sales"]
      (headOffice (.str "")) := .inr ⟨rfl,by decide⟩
  refine ⟨⟨cacheHierarchy_offices _ (by decide) (.inr rfl),rowPath_office _ hroot,
    holdsPath_office _ _ _,?_⟩,⟨by decide,by decide⟩,
    ⟨by decide,by decide⟩⟩
  intro hagrees
  obtain ⟨hierarchy,segments,hread,_,hpath,_⟩ := hagrees
  have hrows : (officeReader [.trim]).readHierarchy officeLibrary "organizations"
      [headOffice (.str ""), office "Sales"] =
      .ok [⟨"1",some "","Head Office"⟩,⟨"12",some "1","Sales"⟩] := by decide
  have hempty : (TargetHierarchyTopologyBuilder.build ⟨[]⟩
      [⟨"1",some "","Head Office"⟩,⟨"12",some "1","Sales"⟩]).1 = .empty := by decide
  rw [← Except.ok.inj (hrows.symm.trans hread), hempty] at hpath
  exact TopologySnapshot.not_hasPath_empty _ _ hpath

end Samples

end SqliteTopologyTargetReader
end NexusEtl
