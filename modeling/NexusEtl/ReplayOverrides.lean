import NexusEtl.PendingReplay

/-!
# Link keys that the metadata gives

The metadata of a row may name the keys under which its links are looked up.
Three parts have to agree on the object that carries them: the result class
wraps it in a read-only view, JSON writes only plain dictionaries as objects,
and the reader takes only objects back.
-/

set_option autoImplicit false

namespace NexusEtl
open NexusEtl.Library

/-- A mapping as an object: a plain dictionary, or a read-only view of one. -/
inductive Mapping
  | dict (items : Fields)
  | proxy (items : Fields)
  deriving DecidableEq, Repr

namespace Mapping

def items : Mapping → Fields
  | .dict items => items
  | .proxy items => items

/-- `_freeze_mapping` -/
def freeze : Option Mapping → Mapping
  | none => .proxy []
  | some m => if m.items = [] then .proxy [] else .proxy m.items

/-- What `json.dumps(…, default=str)` writes for a mapping. -/
def toJson : Mapping → Value
  | .dict items => .dict items
  | .proxy items => .str ("mappingproxy(" ++ Value.pyStr (.dict items) ++ ")")

/-- `meta or {}` -/
def orEmpty (m : Mapping) : Mapping := if m.items = [] then .dict [] else m

@[simp] theorem freeze_items (m : Mapping) : (freeze (some m)).items = m.items := by
  simp only [freeze]
  split
  · rename_i h
    exact h.symm
  · rfl

/-- The codec is given the metadata of a result, whatever object the result was made with. -/
theorem serializeMeta_eq (m : Mapping) :
    PendingCodec.serializeMeta m.items = (orEmpty (freeze (some m))).toJson := by
  unfold PendingCodec.serializeMeta orEmpty
  rw [freeze_items]
  by_cases h : m.items = []
  · simp [h, toJson]
  · simp [h, freeze, toJson]

/-- A view does not come back as an object: only what is empty is read as it was. -/
theorem read_toJson_freeze (m : Mapping) :
    (PendingCodec.asDict (orEmpty (freeze (some m))).toJson).getD [] = [] := by
  rw [← serializeMeta_eq]
  unfold PendingCodec.serializeMeta
  split <;> rfl

end Mapping

namespace PendingCodec

theorem deserializePendingMatchedRow_metadata {payload : Fields} {parsed : MatchedRow × Fields}
    (h : deserializePendingMatchedRow payload = some parsed) :
    parsed.2 = (asDict (Fields.read payload "meta")).getD [] := by
  simp only [deserializePendingMatchedRow, bind, Option.bind_eq_some_iff] at h
  obtain ⟨_,_,_,_,_,_,_,_,_,_,_,_,_,_,_,_,h⟩ := h
  split at h
  · cases h
  · cases h
    rfl

/-- A row that is read back has no metadata. -/
theorem loadPayload_metadata {matched : MatchedRow} {desired metadata : Fields}
    {replayed : TransformResult MatchedRow}
    (h : loadPayload (serialize matched desired metadata) = .ok (some replayed)) :
    replayed.metadata = [] := by
  have hmeta : (asDict (serializeMeta metadata)).getD [] = [] :=
    Mapping.serializeMeta_eq (.dict metadata) ▸ Mapping.read_toJson_freeze (.dict metadata)
  simp only [loadPayload, serialize, Except.ok.injEq, Option.map_eq_some_iff] at h
  obtain ⟨parsed,hparsed,rfl⟩ := h
  exact (deserializePendingMatchedRow_metadata hparsed).trans hmeta

end PendingCodec

@[simp] theorem extractLinkKeyOverrides_nil (field : String) :
    extractLinkKeyOverrides [] field = [] := rfl

namespace ResolveStage

/-- A replay looks its links up under the keys that the metadata of the first attempt gave if
and only if it gave none. -/
theorem replay_overrides_iff (stage : ResolveStage) (first replayed : TransformResult MatchedRow)
    (row again : MatchedRow) (clock later : Clock) (desired : Fields)
    (hload : PendingCodec.loadPayload (PendingCodec.serialize row desired
      (stage.callOf first row clock).metadata) = .ok (some replayed)) :
    (∀ field, extractLinkKeyOverrides (stage.callOf replayed again later).metadata field =
        extractLinkKeyOverrides (stage.callOf first row clock).metadata field) ↔
      ∀ field, extractLinkKeyOverrides (stage.callOf first row clock).metadata field = [] := by
  have hmeta : (stage.callOf replayed again later).metadata = [] :=
    PendingCodec.loadPayload_metadata hload
  rw [hmeta]
  constructor
  · intro h field
    rw [← h field]
    rfl
  · intro h field
    rw [h field]
    rfl

end ResolveStage

section Samples

open World

/-- The stage of a run that plans employees. -/
def employeeStage : ResolveStage := planningStage employeeWaits.core [] []

/-- An employee whose metadata names its manager by another key value. -/
def renamedEmployee : TransformResult MatchedRow :=
  { arriving employeeWaits.call.matched with
    metadata := [("link_keys",.dict [("manager",.dict [("code",.str "E9")])])] }

theorem renamedEmployee_load :
    PendingCodec.loadPayload (PendingCodec.serialize employeeWaits.call.matched
      employeeWaits.call.matched.desiredState renamedEmployee.metadata) =
        .ok (some (arriving (PendingCodec.replayedRow employeeWaits.call.matched
          employeeWaits.call.matched.desiredState))) :=
  PendingCodec.loadPayload_serialize employeeWaits.replayable _ _

theorem replay_overrides_iff_employee :
    (∀ field, extractLinkKeyOverrides (employeeStage.callOf (arriving
        (PendingCodec.replayedRow employeeWaits.call.matched
          employeeWaits.call.matched.desiredState)) employeeWaits.call.matched noon).metadata field =
      extractLinkKeyOverrides (employeeStage.callOf renamedEmployee employeeWaits.call.matched
        noon).metadata field) ↔
      ∀ field, extractLinkKeyOverrides (employeeStage.callOf renamedEmployee
        employeeWaits.call.matched noon).metadata field = [] :=
  employeeStage.replay_overrides_iff renamedEmployee _ employeeWaits.call.matched
    employeeWaits.call.matched noon noon employeeWaits.call.matched.desiredState
    renamedEmployee_load

/-- The employee is looked up under code:E9 first, and under code:E1 by its replay. -/
theorem renamed_employee_forgets_key :
    ¬ ∀ (stage : ResolveStage) (first replayed : TransformResult MatchedRow)
      (row again : MatchedRow) (clock later : Clock) (desired : Fields),
      PendingCodec.loadPayload (PendingCodec.serialize row desired
        (stage.callOf first row clock).metadata) = .ok (some replayed) →
      ∀ field, extractLinkKeyOverrides (stage.callOf replayed again later).metadata field =
        extractLinkKeyOverrides (stage.callOf first row clock).metadata field := by
  intro h
  have hkeys := h employeeStage renamedEmployee _ employeeWaits.call.matched
    employeeWaits.call.matched noon noon employeeWaits.call.matched.desiredState
    renamedEmployee_load "manager"
  have hfirst : extractLinkKeyOverrides renamedEmployee.metadata "manager" = [("code","E9")] := by
    decide
  have hempty : [] = extractLinkKeyOverrides renamedEmployee.metadata "manager" := hkeys
  rw [hfirst] at hempty
  cases hempty

end Samples
end NexusEtl
