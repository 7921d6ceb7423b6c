import NexusEtl.MergeFill

/-!
# The contract of a resolve decision

What holds of every row that the resolver gives, whatever the policies, the
links and the existing record are; and what it leaves alone.
-/

set_option autoImplicit false

namespace NexusEtl
open NexusEtl.Library

namespace ResolveCore

variable {core : ResolveCore} {db : IdentityDb} {call : ResolveCall}

/-- The dictionaries at hand: those of the matched row, the two copies that are made first,
and one that a merge policy made. -/
inductive DictObject
  | matchedDesired | existing | originalCopy | desiredCopy | policyOwn
  deriving DecidableEq, Repr

/-- What a merge policy can give back: what it was given, or a dictionary of its own. -/
inductive MergedObject
  | existing | given | own
  deriving DecidableEq, Repr

def MergedObject.object : MergedObject → DictObject
  | .existing => .existing
  | .given => .desiredCopy
  | .own => .policyOwn

/-- Whether the merge policy gives a dictionary. -/
def mergedIsUsed (core : ResolveCore) (matched : MatchedRow) : Bool :=
  match core.resolveRules.mergePolicy with
  | none => false
  | some policy => match policy matched.existing matched.desiredState with
    | .ok (some _) => true
    | _ => false

/-- The items that are assigned: the source values over a merged state, then the links. -/
def dictWrites (core : ResolveCore) (db : IdentityDb) (call : ResolveCall)
    (returned : MergedObject) : List (DictObject × String) :=
  let merged := mergedIsUsed core call.matched
  let desired := if merged then returned.object else .desiredCopy
  let links := match core.linkStart db call with
    | none => []
    | some (s,_) => (core.resolveLinkLoop db call core.linkRules s).2.changed
  (if merged then (Dict.keys call.matched.desiredState).map (desired,·) else []) ++
    links.map (desired,·)

/-- What a resolved row says about its decision. -/
structure DecisionContract (call : ResolveCall) (row : ResolvedRow) : Prop where
  create : row.op = .create ↔ resolveDecisionStatus call.matched = .notFound
  update : row.op = .update → ∃ record, row.existing = some record ∧
    (Fields.read record "_id").isNull = false ∧
    row.targetId = .str (Fields.read record "_id").pyStr ∧ row.changes ≠ []
  skip : row.op = .skip → row.changes = []
  target : row.targetId.truthy = true

theorem decideOp_skip {matched : MatchedRow} {desired changes : Fields}
    (h : core.decideOp matched desired = .ok (.skip,changes)) : changes = [] := by
  rcases decideOp_cases h with ⟨_,heq⟩ | ⟨_,heq⟩ | ⟨_,_,heq,_,_⟩
  · cases heq
  · cases heq
    rfl
  · cases heq

theorem buildResolvedRow_existing {matched : MatchedRow} {desired : Fields} {targetId : Value}
    {row : ResolvedRow} (h : core.buildResolvedRow matched desired targetId = .ok row) :
    row.existing = matched.existing := by
  simp only [buildResolvedRow, bind, Except.bind, pure, Except.pure] at h
  split at h
  · cases h
  · split at h
    · cases h
    · split at h
      · cases h
      · cases h
        rfl

/-- A matched row that has a target has it from its existing record. -/
theorem matched_target {matched : MatchedRow} {map : Dict String String}
    (hstatus : resolveDecisionStatus matched = .matched)
    (ht : (resolveTargetId matched map).truthy = true) :
    ∃ record, matched.existing = some record ∧ (Fields.read record "_id").isNull = false ∧
      resolveTargetId matched map = .str (Fields.read record "_id").pyStr := by
  rw [resolveTargetId, if_pos hstatus, existingId, if_pos hstatus] at ht ⊢
  cases he : matched.existing with
  | none =>
    rw [he] at ht
    cases ht
  | some record =>
    rw [he] at ht
    rw [Option.getD_some] at ht ⊢
    cases hn : (Fields.read record "_id").isNull with
    | true =>
      rw [hn, if_pos rfl] at ht
      cases ht
    | false => exact ⟨record,rfl,hn,if_neg (by simp)⟩

theorem resolved_contract {r : Resolution} {row : ResolvedRow}
    (hr : (core.resolve db call).result = .ok r) (hrow : r.row = some row) :
    DecisionContract call row := by
  obtain ⟨s,hent,hb,_⟩ := resolve_row hr hrow
  obtain ⟨_,_,_,htarget,hop⟩ := buildResolvedRow_spec hb.built
  have hcreate := (decideOp_create hop).1
  constructor
  · exact hcreate
  · intro hupdate
    have hstatus : resolveDecisionStatus call.matched = .matched := by
      rcases hent.status with hs | hs
      · exact hs
      · have hc := hcreate.mpr hs
        rw [hupdate] at hc
        cases hc
    obtain ⟨record,hrecord,hid,hsame⟩ := matched_target hstatus hb.target
    rw [hupdate] at hop
    refine ⟨record,?_,hid,htarget.trans hsame,(decideOp_update hop).2⟩
    rw [buildResolvedRow_existing hb.built, hrecord]
  · intro hskip
    rw [hskip] at hop
    exact decideOp_skip hop
  · rw [htarget]
    exact hb.target

/-- The contract, for every row: what a resolved row says, what happens to a row in conflict,
and that the desired state of the matched row is never written to. -/
theorem resolve_contract (core : ResolveCore) (db : IdentityDb) (call : ResolveCall) :
    (∀ r row, (core.resolve db call).result = .ok r → r.row = some row →
      DecisionContract call row) ∧
    (resolveDecisionStatus call.matched = .ambiguous ∨
        resolveDecisionStatus call.matched = .conflictSource →
      (∃ e, (core.resolve db call).result = .ok ⟨none,[e],[]⟩) ∧
        (core.resolve db call).pending = db.pending ∧ (core.resolve db call).requests = [] ∧
        (core.resolve db call).closed = false) ∧
    ∀ returned, ∀ w ∈ dictWrites core db call returned, w.1 ≠ .matchedDesired := by
  refine ⟨fun r row hr hrow => resolved_contract hr hrow,fun hstatus => ?_,?_⟩
  · unfold resolve
    rcases hstatus with hs | hs <;>
    · rw [hs]
      exact ⟨⟨_,rfl⟩,rfl,rfl,rfl⟩
  · intro returned w hw
    have hobject : (if mergedIsUsed core call.matched then returned.object else .desiredCopy) ≠
        DictObject.matchedDesired := by
      cases mergedIsUsed core call.matched <;> cases returned <;> decide
    rcases List.mem_append.mp hw with hmerge | hlink
    · split at hmerge
      · rename_i hused
        obtain ⟨key,_,rfl⟩ := List.mem_map.mp hmerge
        rw [hused, if_pos rfl] at hobject
        exact hobject
      · cases hmerge
    · obtain ⟨field,_,rfl⟩ := List.mem_map.mp hlink
      exact hobject

/-- An employee with another name than the existing record, whose identifier is a number. -/
def renamedEmployee : ResolveCall :=
  { knownEmployee with matched := { knownEmployee.matched with
      desiredState := [("name",.str "Anna")]
      existing := some [("_id",.int 7),("name",.str "Ann")] } }

def renamedRow : ResolvedRow :=
  { rowRef := knownEmployee.matched.rowRef, identity := knownEmployee.matched.identity, op := .update
    desiredState := [("name",.str "Anna")]
    existing := some [("_id",.int 7),("name",.str "Ann")], changes := [("name",.str "Anna")]
    targetId := .str "7", sourceRef := none, secretFields := [], secretLifecycle := none }

/-- The target identifier is the text of the one in the record, not the record's own value. -/
theorem target_id_is_text :
    ((plainCore []).resolve .empty renamedEmployee).result = .ok ⟨some renamedRow,[],[]⟩ ∧
      renamedRow.op = .update ∧
      renamedRow.targetId ≠ Fields.read (renamedRow.existing.getD []) "_id" := by
  decide

end ResolveCore
end NexusEtl
