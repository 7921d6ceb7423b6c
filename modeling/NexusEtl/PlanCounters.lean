import NexusEtl.Planning
import Mathlib.Algebra.GroupWithZero.Nat

/-!
# The counters of the plan builder

A plan builder is given resolved rows one by one or as a stream, in any order.
Both ways count each row in the total and in one of the other counters, except a
conflict that is given by itself, which counts as valid and as failed, and a
skipped row whose callback raises, which counts as neither.
-/

set_option autoImplicit false

namespace NexusEtl

/-- What the plan makes of a row. -/
inductive RowKind
  | failed | skipped | create | update
  deriving DecidableEq, Repr

/-- A call of the builder. Each result of a stream stands with what its callback raises, if it is
told to one; a stream that raises is as good as one that ends there. -/
inductive PlanBuilderCall (ε : Type)
  | addResolved (resolved : ResolvedRow)
  | buildFromStream (results : List (TransformResult ResolvedRow × Option ε))

namespace PlanBuilder

variable {ε : Type}

def opKind : ResolveOp → RowKind
  | .create => .create
  | .update => .update
  | .skip => .skipped
  | .conflict => .failed

def kindOf (resolved : TransformResult ResolvedRow) : RowKind :=
  match resolved.row with
  | none => .failed
  | some row => if resolved.errors ≠ [] then .failed else opKind row.op

def addResolved (b : PlanBuilder) (resolved : ResolvedRow) : PlanBuilder :=
  let counted := { b.summary with
    rowsTotal := b.summary.rowsTotal + 1
    validRows := b.summary.validRows + 1 }
  if resolved.op = .skip then { b with summary := { counted with skipped := counted.skipped + 1 } }
  else if resolved.op = .conflict then
    { b with summary := { counted with failedRows := counted.failedRows + 1 } }
  else
    let item := serializePlanItem resolved
    { planItems := b.planItems ++ [item]
      summary := if item.op = .create then
          { counted with plannedCreate := counted.plannedCreate + 1 }
        else { counted with plannedUpdate := counted.plannedUpdate + 1 } }

/-- The rounds of `build_from_stream` with the callbacks: `on_failed_row` is called after a row is
counted as failed, `on_skipped_row` before one is counted as skipped. -/
def addResults : PlanBuilder → List (TransformResult ResolvedRow × Option ε) →
    PlanBuilder × Option ε
  | b, [] => (b,none)
  | b, (resolved,raises)::rest => match kindOf resolved, raises with
    | .failed, some e => (b.addResult resolved,some e)
    | .skipped, some e => (b.countRow,some e)
    | _, _ => addResults (b.addResult resolved) rest

def call (b : PlanBuilder) : PlanBuilderCall ε → PlanBuilder
  | .addResolved resolved => b.addResolved resolved
  | .buildFromStream results => (b.addResults results).1

/-- The results of a stream up to one whose callback raises. -/
def taken : List (TransformResult ResolvedRow × Option ε) →
    List (TransformResult ResolvedRow × Option ε)
  | [] => []
  | (resolved,raises)::rest => (resolved,raises)::match kindOf resolved, raises with
    | .failed, some _ => []
    | .skipped, some _ => []
    | _, _ => taken rest

end PlanBuilder

namespace PlanBuilderCall
open PlanBuilder

variable {ε : Type}

/-- The rows that a call is given, up to a callback that raises. -/
def kinds : PlanBuilderCall ε → List RowKind
  | .addResolved resolved => [opKind resolved.op]
  | .buildFromStream results => (taken results).map fun r => kindOf r.1

/-- A conflict is not given by itself, and no callback raises for a skipped row. -/
def Proper : PlanBuilderCall ε → Prop
  | .addResolved resolved => resolved.op ≠ .conflict
  | .buildFromStream results => ∀ r ∈ taken results, kindOf r.1 = .skipped → r.2 = none

def conflicts : PlanBuilderCall ε → Nat
  | .addResolved resolved => if resolved.op = .conflict then 1 else 0
  | .buildFromStream _ => 0

/-- The skipped rows that are lost to a callback. -/
def lost : PlanBuilderCall ε → Nat
  | .addResolved _ => 0
  | .buildFromStream results =>
    (taken results).countP fun r => kindOf r.1 = .skipped && r.2.isSome

theorem proper_iff (call : PlanBuilderCall ε) :
    call.Proper ↔ call.conflicts = 0 ∧ call.lost = 0 := by
  cases call with
  | addResolved resolved => simp [Proper, conflicts, lost]
  | buildFromStream results =>
    simp [Proper, conflicts, lost, List.countP_eq_zero]

end PlanBuilderCall

namespace PlanBuilder

variable {ε : Type}

/-- The counters after these rows, as they should be: each row is counted once. -/
structure Balanced (b : PlanBuilder) (kinds : List RowKind) : Prop where
  rows : b.summary.rowsTotal = kinds.length
  total : b.summary.rowsTotal = b.summary.validRows + b.summary.failedRows
  valid : b.summary.validRows =
    b.summary.plannedCreate + b.summary.plannedUpdate + b.summary.skipped
  items : b.planItems.length = b.summary.plannedCreate + b.summary.plannedUpdate
  failed : b.summary.failedRows = kinds.count .failed
  created : b.summary.plannedCreate = kinds.count .create
  updated : b.summary.plannedUpdate = kinds.count .update
  skipped : b.summary.skipped = kinds.count .skipped

/-- The counters after these rows, with so many conflicts counted twice and so many rows lost. -/
structure Accounts (b : PlanBuilder) (kinds : List RowKind) (conflicts lost : Nat) : Prop where
  rows : b.summary.rowsTotal = kinds.length
  valid : b.summary.validRows + kinds.count .failed + lost = kinds.length + conflicts
  failed : b.summary.failedRows = kinds.count .failed
  created : b.summary.plannedCreate = kinds.count .create
  updated : b.summary.plannedUpdate = kinds.count .update
  skipped : b.summary.skipped + lost = kinds.count .skipped
  items : b.planItems.length = kinds.count .create + kinds.count .update

theorem length_kinds (kinds : List RowKind) : kinds.length = kinds.count .failed +
    kinds.count .skipped + kinds.count .create + kinds.count .update := by
  induction kinds with
  | nil => rfl
  | cons kind kinds ih => cases kind <;> simp [ih] <;> omega

theorem Accounts.balanced_iff {b : PlanBuilder} {kinds : List RowKind} {conflicts lost : Nat}
    (h : b.Accounts kinds conflicts lost) : b.Balanced kinds ↔ conflicts = 0 ∧ lost = 0 := by
  have hlength := length_kinds kinds
  obtain ⟨hrows,hvalid,hfailed,hcreated,hupdated,hskipped,hitems⟩ := h
  constructor
  · intro hbalanced
    have htotal := hbalanced.total
    have hsum := hbalanced.valid
    omega
  · rintro ⟨rfl,rfl⟩
    exact ⟨hrows,by omega,by omega,by omega,hfailed,hcreated,hupdated,hskipped⟩

theorem Accounts.failRow {b : PlanBuilder} {kinds : List RowKind} {conflicts lost : Nat}
    (h : b.Accounts kinds conflicts lost) :
    b.countRow.failRow.Accounts (kinds ++ [.failed]) conflicts lost := by
  obtain ⟨hrows,hvalid,hfailed,hcreated,hupdated,hskipped,hitems⟩ := h
  constructor <;> simp [PlanBuilder.failRow, countRow] <;> omega

theorem Accounts.addValid {b : PlanBuilder} {kinds : List RowKind} {conflicts lost : Nat}
    (h : b.Accounts kinds conflicts lost) {resolved : ResolvedRow} (hop : resolved.op ≠ .conflict) :
    (b.countRow.addResolvedWithoutTotal resolved).Accounts (kinds ++ [opKind resolved.op])
      conflicts lost := by
  obtain ⟨hrows,hvalid,hfailed,hcreated,hupdated,hskipped,hitems⟩ := h
  cases hresolved : resolved.op with
  | create =>
    constructor <;> simp [addResolvedWithoutTotal, serializePlanItem, countRow, opKind,
      hresolved] <;> omega
  | update =>
    constructor <;> simp [addResolvedWithoutTotal, serializePlanItem, countRow, opKind,
      hresolved] <;> omega
  | skip =>
    constructor <;> simp [addResolvedWithoutTotal, countRow, opKind, hresolved] <;> omega
  | conflict => exact absurd hresolved hop

/-- A round of a stream counts its row once. -/
theorem Accounts.addResult {b : PlanBuilder} {kinds : List RowKind} {conflicts lost : Nat}
    (h : b.Accounts kinds conflicts lost) (resolved : TransformResult ResolvedRow) :
    (b.addResult resolved).Accounts (kinds ++ [kindOf resolved]) conflicts lost := by
  unfold PlanBuilder.addResult kindOf
  cases resolved.row with
  | none => exact h.failRow
  | some row =>
    dsimp only
    by_cases herrors : resolved.errors ≠ []
    · rw [if_pos herrors, if_pos herrors]
      exact h.failRow
    · rw [if_neg herrors, if_neg herrors]
      by_cases hop : row.op = .conflict
      · rw [if_pos hop, hop]
        exact h.failRow
      · rw [if_neg hop]
        exact h.addValid hop

/-- A row that its callback loses counts in the total alone. -/
theorem Accounts.loseRow {b : PlanBuilder} {kinds : List RowKind} {conflicts lost : Nat}
    (h : b.Accounts kinds conflicts lost) :
    b.countRow.Accounts (kinds ++ [.skipped]) conflicts (lost + 1) := by
  obtain ⟨hrows,hvalid,hfailed,hcreated,hupdated,hskipped,hitems⟩ := h
  constructor <;> simp [countRow] <;> omega

/-- A row that is given by itself counts as one of a stream, unless it is a conflict. -/
theorem addResolved_eq (b : PlanBuilder) {resolved : ResolvedRow} (hop : resolved.op ≠ .conflict) :
    b.addResolved resolved = b.countRow.addResolvedWithoutTotal resolved := by
  unfold addResolved addResolvedWithoutTotal
  dsimp only
  rw [if_neg hop]
  rfl

theorem Accounts.addResolved {b : PlanBuilder} {kinds : List RowKind} {conflicts lost : Nat}
    (h : b.Accounts kinds conflicts lost) (resolved : ResolvedRow) :
    (b.addResolved resolved).Accounts (kinds ++ [opKind resolved.op])
      (conflicts + if resolved.op = .conflict then 1 else 0) lost := by
  by_cases hop : resolved.op = .conflict
  · obtain ⟨hrows,hvalid,hfailed,hcreated,hupdated,hskipped,hitems⟩ := h
    constructor <;> simp [PlanBuilder.addResolved, opKind, hop] <;> omega
  · rw [addResolved_eq b hop, if_neg hop]
    exact h.addValid hop

/-- The rounds of a stream, by induction on its results. -/
theorem Accounts.addResults {results : List (TransformResult ResolvedRow × Option ε)}
    {b : PlanBuilder} {kinds : List RowKind} {conflicts lost : Nat}
    (h : b.Accounts kinds conflicts lost) :
    (b.addResults results).1.Accounts (kinds ++ (taken results).map fun r => kindOf r.1) conflicts
      (lost + (taken results).countP fun r => kindOf r.1 = .skipped && r.2.isSome) := by
  induction results generalizing b kinds lost with
  | nil => simpa [PlanBuilder.addResults, taken] using h
  | cons result rest ih =>
    obtain ⟨resolved,raises⟩ := result
    have hnext := ih (h.addResult resolved)
    unfold PlanBuilder.addResults taken
    cases hkind : kindOf resolved with
    | failed =>
      cases raises with
      | some e => simpa [hkind] using h.addResult resolved
      | none => simpa [hkind] using hnext
    | skipped =>
      cases raises with
      | some e => simpa [hkind] using h.loseRow
      | none => simpa [hkind] using hnext
    | create => simpa [hkind] using hnext
    | update => simpa [hkind] using hnext

theorem Accounts.call {b : PlanBuilder} {kinds : List RowKind} {conflicts lost : Nat}
    (h : b.Accounts kinds conflicts lost) (call : PlanBuilderCall ε) :
    (b.call call).Accounts (kinds ++ call.kinds) (conflicts + call.conflicts)
      (lost + call.lost) := by
  cases call with
  | addResolved resolved => exact h.addResolved resolved
  | buildFromStream results => exact h.addResults

theorem Accounts.calls {calls : List (PlanBuilderCall ε)} {b : PlanBuilder}
    {kinds : List RowKind} {conflicts lost : Nat} (h : b.Accounts kinds conflicts lost) :
    (calls.foldl PlanBuilder.call b).Accounts (kinds ++ calls.flatMap PlanBuilderCall.kinds)
      (conflicts + (calls.map PlanBuilderCall.conflicts).sum)
      (lost + (calls.map PlanBuilderCall.lost).sum) := by
  induction calls generalizing b kinds conflicts lost with
  | nil => simpa using h
  | cons call calls ih => simpa [Nat.add_assoc] using ih (h.call call)

theorem empty_accounts : empty.Accounts [] 0 0 := ⟨rfl,rfl,rfl,rfl,rfl,rfl,rfl⟩

/-- The counters balance after every sequence of calls that gives no conflict by itself and loses
no skipped row to a callback, and after no other. -/
theorem plan_counters_balance_iff (calls : List (PlanBuilderCall ε)) :
    (calls.foldl call empty).Balanced (calls.flatMap PlanBuilderCall.kinds) ↔
      ∀ call ∈ calls, call.Proper := by
  have haccounts := @Accounts.calls _ calls _ _ _ _ empty_accounts
  rw [List.nil_append] at haccounts
  rw [haccounts.balanced_iff]
  simp only [Nat.zero_add, List.sum_eq_zero_iff_forall_eq_nat, List.forall_mem_map, PlanBuilderCall.proper_iff]
  exact ⟨fun h call hcall => ⟨h.1 call hcall,h.2 call hcall⟩,
    fun h => ⟨fun call hcall => (h call hcall).1,fun call hcall => (h call hcall).2⟩⟩

def conflictRow : ResolvedRow :=
  ⟨⟨some 1,"line:1",none,none⟩,⟨"match_key",[]⟩,.conflict,[],none,[],.null,none,[],none⟩

/-- A conflict that is given by itself is a valid row and a failed one. -/
theorem conflict_counted_twice :
    let calls : List (PlanBuilderCall Empty) := [.addResolved conflictRow]
    let b := calls.foldl call empty
    b.summary = ⟨1,1,1,0,0,0⟩ ∧ ¬b.Balanced (calls.flatMap PlanBuilderCall.kinds) := by
  refine ⟨rfl,fun h => ?_⟩
  cases h.total

end PlanBuilder

end NexusEtl
