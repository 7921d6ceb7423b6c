import NexusEtl.PendingReplay

/-!
# Items per source row

Rows of the source come first in a planning run and the replayed rows follow.
Within each part an identifier comes once, so an identifier gets two items
exactly when a row of the source and its replayed copy both resolve to an item.
-/

set_option autoImplicit false

namespace NexusEtl
open NexusEtl.Library

/-- The row identifiers of the rows that reach the resolver. -/
def rowIds (rows : List (TransformResult MatchedRow)) : List String :=
  rows.filterMap fun m => m.row.map fun row => row.rowRef.rowId

def itemIds (results : List (TransformResult ResolvedRow)) : List String :=
  (results.filterMap PlanBuilder.itemOf).map PlanItem.rowId

theorem planItems_rowIds (results : List (TransformResult ResolvedRow)) :
    (PlanBuilder.buildFromStream results).planItems.map PlanItem.rowId = itemIds results := by
  rw [(PlanBuilder.buildFromStream_spec results).1, itemIds]

namespace ResolveStage

variable (stage : ResolveStage)

/-- The items of a stream bear identifiers of its rows, in order. -/
theorem itemIds_sublist (schedule : Nat → Tick) (n : Nat) (db : IdentityDb)
    (rows : List (TransformResult MatchedRow)) :
    (itemIds (stage.resolveStream schedule n db rows).1).Sublist (rowIds rows) := by
  induction rows generalizing n db with
  | nil => exact List.Sublist.slnil
  | cons m rows ih =>
    have hrest := ih (n+1) (sweepTick (schedule n)
      (stage.resolveRow (schedule n).clock db m).2)
    simp only [resolveStream, itemIds, rowIds, List.filterMap_cons] at hrest ⊢
    cases hitem : PlanBuilder.itemOf (stage.resolveRow (schedule n).clock db m).1 with
    | none =>
      cases hrow : m.row with
      | none => simpa using hrest
      | some row => exact hrest.trans (List.sublist_cons_self _ _)
    | some item =>
      rw [itemOf_rowId hitem]
      exact hrest.cons_cons _

/-- The row of a position resolves to an item, in the store that it meets. -/
def PlansAt (schedule : Nat → Tick) (db : IdentityDb) (rows : List (TransformResult MatchedRow))
    (k : Nat) : Prop :=
  ∃ m ∈ rows[k]?, (PlanBuilder.itemOf (stage.resolveRow (schedule k).clock
    (stage.dbBefore schedule 0 db rows k) m).1).isSome

/-- No row of the first part resolves to an item together with a row of the second part that
bears its identifier. -/
def ResolvedOnce (schedule : Nat → Tick) (db : IdentityDb)
    (stream replayed : List (TransformResult MatchedRow)) : Prop :=
  ∀ i j, i < stream.length → stream.length ≤ j →
    (((stream ++ replayed)[i]?.bind TransformResult.row).map fun row => row.rowRef.rowId) =
      (((stream ++ replayed)[j]?.bind TransformResult.row).map fun row => row.rowRef.rowId) →
    ¬ (stage.PlansAt schedule db (stream ++ replayed) i ∧
      stage.PlansAt schedule db (stream ++ replayed) j)

theorem mem_itemIds {results : List (TransformResult ResolvedRow)} {id : String} :
    id ∈ itemIds results ↔ ∃ (k : Nat) (res : TransformResult ResolvedRow) (item : PlanItem),
      results[k]? = some res ∧ PlanBuilder.itemOf res = some item ∧ item.rowId = id := by
  constructor
  · intro h
    obtain ⟨item,hmem,hid⟩ := List.mem_map.mp h
    obtain ⟨res,hres,hitem⟩ := List.mem_filterMap.mp hmem
    obtain ⟨k,hk⟩ := List.mem_iff_getElem?.mp hres
    exact ⟨k,res,item,hk,hitem,hid⟩
  · rintro ⟨k,res,item,hk,hitem,hid⟩
    exact List.mem_map.mpr ⟨item,List.mem_filterMap.mpr
      ⟨res,List.mem_of_getElem? hk,hitem⟩,hid⟩

/-- An item at a position, read off the row of this position. -/
theorem item_at {schedule : Nat → Tick} {db : IdentityDb}
    {rows : List (TransformResult MatchedRow)} {k : Nat} {res : TransformResult ResolvedRow}
    {item : PlanItem} (hk : (stage.resolveStream schedule 0 db rows).1[k]? = some res)
    (hitem : PlanBuilder.itemOf res = some item) :
    stage.PlansAt schedule db rows k ∧
      ((rows[k]?.bind TransformResult.row).map fun row => row.rowRef.rowId) =
        some item.rowId := by
  rw [stage.resolveStream_get, Nat.zero_add] at hk
  obtain ⟨m,hm,rfl⟩ := Option.map_eq_some_iff.mp hk
  refine ⟨⟨m,hm,by rw [hitem]; rfl⟩,?_⟩
  rw [hm]
  exact itemOf_rowId hitem

/-- With identifiers that come once in each part, a planning run gives each identifier at
most one item exactly when no identifier is resolved twice. -/
theorem itemIds_nodup_iff (schedule : Nat → Tick) (db : IdentityDb)
    {stream replayed : List (TransformResult MatchedRow)} (hs : (rowIds stream).Nodup)
    (hr : (rowIds replayed).Nodup) :
    (itemIds (stage.resolveStream schedule 0 db (stream ++ replayed)).1).Nodup ↔
      stage.ResolvedOnce schedule db stream replayed := by
  have happ := stage.resolveStream_append schedule 0 db stream replayed
  have hlen := stage.resolveStream_length schedule 0 db stream
  have hfirst := (stage.itemIds_sublist schedule 0 db stream).nodup hs
  have hsecond := (stage.itemIds_sublist schedule (0 + stream.length)
    (stage.resolveStream schedule 0 db stream).2 replayed).nodup hr
  constructor
  · rintro hnodup i j hi hj hid ⟨⟨m,hm,hpi⟩,⟨m',hm',hpj⟩⟩
    obtain ⟨item,hitem⟩ := Option.isSome_iff_exists.mp hpi
    obtain ⟨item',hitem'⟩ := Option.isSome_iff_exists.mp hpj
    have hgi := stage.resolveStream_get schedule 0 db (stream ++ replayed) i
    have hgj := stage.resolveStream_get schedule 0 db (stream ++ replayed) j
    rw [hm, Nat.zero_add] at hgi
    rw [hm', Nat.zero_add] at hgj
    have hidi := (stage.item_at hgi hitem).2
    have hidj := (stage.item_at hgj hitem').2
    rw [happ, List.getElem?_append_left (by omega)] at hgi
    rw [happ, List.getElem?_append_right (by omega)] at hgj
    rw [happ] at hnodup
    simp only [itemIds, List.filterMap_append, List.map_append] at hnodup
    have hdisjoint := List.disjoint_of_nodup_append hnodup
    have hx : item.rowId ∈ itemIds (stage.resolveStream schedule 0 db stream).1 :=
      mem_itemIds.mpr ⟨i,_,item,hgi,hitem,rfl⟩
    have hy : item'.rowId ∈ itemIds (stage.resolveStream schedule (0 + stream.length)
        (stage.resolveStream schedule 0 db stream).2 replayed).1 :=
      mem_itemIds.mpr ⟨_,_,item',hgj,hitem',rfl⟩
    rw [hidi, hidj, Option.some.injEq] at hid
    rw [← hid] at hy
    exact hdisjoint hx hy
  · intro honce
    rw [happ]
    simp only [itemIds, List.filterMap_append, List.map_append]
    refine List.Nodup.append hfirst hsecond ?_
    intro id hx hy
    obtain ⟨i,res,item,hi,hitem,rfl⟩ := mem_itemIds.mp hx
    obtain ⟨j,res',item',hj,hitem',hid⟩ := mem_itemIds.mp hy
    have hilt : i < stream.length := by
      have := (List.getElem?_eq_some_iff.mp hi).1
      omega
    have hgi : (stage.resolveStream schedule 0 db (stream ++ replayed)).1[i]? = some res := by
      rw [happ, List.getElem?_append_left (by omega)]
      exact hi
    have hgj : (stage.resolveStream schedule 0 db (stream ++ replayed)).1[stream.length + j]? =
        some res' := by
      rw [happ, List.getElem?_append_right (by omega), hlen, Nat.add_sub_cancel_left]
      exact hj
    obtain ⟨hpi,hidi⟩ := stage.item_at hgi hitem
    obtain ⟨hpj,hidj⟩ := stage.item_at hgj hitem'
    exact honce i (stream.length + j) hilt (by omega) (by rw [hidi, hidj, hid]) ⟨hpi,hpj⟩

end ResolveStage

namespace World

theorem rowIds_replayed {rows : List PendingRow} {results : List (TransformResult MatchedRow)}
    (h : List.Forall₂ Replays rows results) :
    rowIds results = rows.map PendingRow.sourceRowId := by
  induction h with
  | nil => rfl
  | cons hrow _ ih =>
    obtain ⟨matched,desired,_,_,hm,_,rfl⟩ := hrow
    rw [rowIds, List.filterMap_cons, List.map_cons, ← ih, ← hm]
    rfl

/-- On every reachable store a planning run goes through: its waiting rows are loaded and
each of their identifiers comes once. -/
theorem iterResolved_reachable (es : List Event) (resolver : ResolveCore)
    (catalog : ErrorCatalog) (dataset : String) (schedule : Nat → Tick)
    (stream : List (TransformResult MatchedRow)) :
    ∃ replayed, PendingCodec.loadPendingRows
        ((after es).db.pending.listPendingRows dataset) = .ok ⟨replayed,0⟩ ∧
      (rowIds replayed).Nodup ∧
      iterResolved resolver catalog dataset schedule (after es).db stream =
        .ok ⟨((planningStage resolver catalog stream).resolveStream schedule 0 (after es).db
            (stream ++ replayed)).1,
          ((planningStage resolver catalog stream).resolveStream schedule 0 (after es).db
            (stream ++ replayed)).2⟩ := by
  obtain ⟨replayed,hload,hall⟩ := (after_sound es).load dataset
  refine ⟨replayed,hload,?_,iterResolved_of_load _ _ hload schedule stream⟩
  rw [rowIds_replayed hall, PendingTable.listPendingRows_sourceRowIds]
  exact (after es).db.pending.replayLinks_nodup dataset

/-- The manager whose code the waiting employee names. -/
def managerRow : MatchedRow := newRow 2 "line:2" "E1" (.str "emp-1") [("name",.str "Ann")]

end World
end NexusEtl
