import NexusEtl.PlanningHistory
import NexusEtl.SourceDedup

/-!
# Source rows with one key

Deduplication compares rows by the identity under which they were matched. Of
two rows with one key the later is recognised and makes no item; rows that reach
one record under different identities have different keys and are not compared.
-/

set_option autoImplicit false

namespace NexusEtl
open NexusEtl.Library

/-- The key of a source row: that of the row that the matcher makes of it. -/
def sourceKey (core : MatchCore) (enriched : TransformResult Fields) : Option String :=
  (core.matchRow enriched).toOption.bind rowKey

/-- A duplicate or a conflict: the row is gone and the metadata says why. -/
def Recognised (r : TransformResult MatchedRow) : Prop :=
  r.row = none ∧ (Fields.read r.metadata "match_drop_reason" = .str "duplicate_source" ∨
    Fields.read r.metadata "match_drop_reason" = .str "conflict_source")

namespace MatchCore

variable (core : MatchCore)

theorem applyOutcome_recognised (matched : TransformResult MatchedRow) (row : MatchedRow)
    {outcome : DedupOutcome} (h : outcome ≠ .first) :
    Recognised (core.applyOutcome matched row outcome) := by
  cases outcome with
  | first => exact absurd rfl h
  | duplicate => exact ⟨rfl,.inl (Fields.read_set_self _ _ _)⟩
  | conflict =>
    simp only [applyOutcome]
    split <;> exact ⟨rfl,.inr (Fields.read_set_self _ _ _)⟩

/-- A row with a key makes the key known, and is recognised when it was known before. -/
theorem dedup_recognised (store : DedupStore) {matched : TransformResult MatchedRow}
    {key : String} (he : core.matchingRules.sourceDedup.enabled = true)
    (hkey : rowKey matched = some key) :
    (core.dedup store matched).2.Knows key ∧
      (store.Knows key → Recognised (core.dedup store matched).1) := by
  obtain ⟨row,hrow,hk⟩ := Option.bind_eq_some_iff.mp hkey
  obtain ⟨hfirst,hknown,_⟩ := store.checkAndRegister_spec key row.fingerprint
  simp only [dedup, hrow, he, hk, Bool.not_true, Bool.false_eq_true, if_false]
  exact ⟨hknown,fun h => core.applyOutcome_recognised matched row fun hf => hfirst hf h⟩

end MatchCore

section Stream

variable {core : MatchCore} (catalog : ErrorCatalog)

/-- Only a row of the source is matched. -/
theorem isNone_of_matched {enriched : TransformResult Fields}
    {matched : TransformResult MatchedRow} (hm : core.matchRow enriched = .ok matched)
    (hrow : matched.row.isSome = true) : enriched.row.isNone = false := by
  cases hr : enriched.row with
  | some row => rfl
  | none =>
    simp only [MatchCore.matchRow, hr, Except.ok.injEq] at hm
    subst hm
    cases hrow

theorem matchStage_recognised (store : DedupStore) {enriched : TransformResult Fields}
    {key : String} (he : core.matchingRules.sourceDedup.enabled = true)
    (hkey : sourceKey core enriched = some key) :
    (matchStage core catalog store enriched).2.Knows key ∧
      (store.Knows key → Recognised (matchStage core catalog store enriched).1) := by
  unfold sourceKey at hkey
  cases hm : core.matchRow enriched with
  | error exc => simp [hm, Except.toOption] at hkey
  | ok matched =>
    have hkeyed : rowKey matched = some key := by simpa [hm, Except.toOption] using hkey
    have hrow : enriched.row.isNone = false := by
      obtain ⟨row,hmatched,_⟩ := Option.bind_eq_some_iff.mp hkeyed
      exact isNone_of_matched hm (by rw [hmatched]; rfl)
    have hstage : matchStage core catalog store enriched = core.dedup store matched := by
      simp [matchStage, hrow, MatchCore.matchWithSourceDedup, hm, bind, Except.bind, pure,
        Except.pure]
    rw [hstage]
    exact core.dedup_recognised store he hkeyed

/-- Once a row with the key was read, every later row with it is recognised. -/
theorem matchStream_known {store : DedupStore} {stream : List (TransformResult Fields)}
    {key : String} (he : core.matchingRules.sourceDedup.enabled = true)
    (hknown : store.Knows key) {j : Nat} {b : TransformResult Fields} (hj : stream[j]? = some b)
    (hb : sourceKey core b = some key) :
    ∃ r, (matchStream core catalog store stream)[j]? = some r ∧ Recognised r := by
  induction stream generalizing store j with
  | nil => cases hj
  | cons enriched rest ih =>
    cases j with
    | zero =>
      cases hj
      exact ⟨_,rfl,(matchStage_recognised catalog store he hb).2 hknown⟩
    | succ j =>
      exact ih ((matchStage_key core catalog store enriched he).2 key hknown) hj

theorem matchStream_recognised (store : DedupStore) {stream : List (TransformResult Fields)}
    {key : String} (he : core.matchingRules.sourceDedup.enabled = true) {i j : Nat} (hij : i < j)
    {a b : TransformResult Fields} (hi : stream[i]? = some a) (hj : stream[j]? = some b)
    (ha : sourceKey core a = some key) (hb : sourceKey core b = some key) :
    ∃ r, (matchStream core catalog store stream)[j]? = some r ∧ Recognised r := by
  induction stream generalizing store i j with
  | nil => cases hi
  | cons enriched rest ih =>
    obtain ⟨j,rfl⟩ : ∃ k, j = k + 1 := ⟨j - 1,by omega⟩
    cases i with
    | zero =>
      cases hi
      exact matchStream_known catalog he (matchStage_recognised catalog store he ha).1 hj hb
    | succ i => exact ih _ (by omega) hi hj

end Stream

/-- With source deduplication, the later of two source rows with one key is recognised as a
duplicate or a conflict and makes no item in any planning run. -/
theorem same_key_recognised (core : MatchCore) (catalog : ErrorCatalog) (store : DedupStore)
    (stream : List (TransformResult Fields))
    (he : core.matchingRules.sourceDedup.enabled = true) {i j : Nat} (hij : i < j)
    {a b : TransformResult Fields} (hi : stream[i]? = some a) (hj : stream[j]? = some b)
    (key : String) (ha : sourceKey core a = some key) (hb : sourceKey core b = some key) :
    ∃ r, (matchStream core catalog store stream)[j]? = some r ∧ Recognised r ∧
      ∀ (resolver : ResolveCore) (dataset : String) (schedule : Nat → Tick) (db : IdentityDb)
        (planned : Planned), iterResolved resolver catalog dataset schedule db
          (matchStream core catalog store stream) = .ok planned →
        ∃ result, planned.results[j]? = some result ∧ PlanBuilder.itemOf result = none := by
  obtain ⟨r,hr,hrec⟩ := matchStream_recognised catalog store he hij hi hj ha hb
  refine ⟨r,hr,hrec,fun resolver dataset schedule db planned hplan => ?_⟩
  obtain ⟨db',hget⟩ := iterResolved_get hplan hr
  refine ⟨_,hget,?_⟩
  simp [ResolveStage.resolveRow, hrec.1, PlanBuilder.itemOf, TransformResult.withoutRow]

section Samples

def annRecord : Fields :=
  [("_id",.str "emp-1"),("code",.str "E1"),("mail",.str "ann@corp"),("name",.str "Ann")]

/-- Two rows of one employee: the first brings its code, the second its mail. -/
def annTwice : List (TransformResult Fields) :=
  [sourceRow 2 "line:2" [("code",.str "E1"),("name",.str "Anna")],
    sourceRow 3 "line:3" [("mail",.str "ann@corp"),("name",.str "Annie")]]

end Samples

theorem same_key_recognised_twin :
    ∃ r, (matchStream (fieldMatcher ["code"] [annRecord]) [] ⟨[],none⟩
        [sourceRow 2 "line:2" [("code",.str "E1")],sourceRow 3 "line:3" [("code",.str " E1")]])[1]? =
        some r ∧ Recognised r ∧
      ∀ (resolver : ResolveCore) (dataset : String) (schedule : Nat → Tick) (db : IdentityDb)
        (planned : Planned), iterResolved resolver [] dataset schedule db
          (matchStream (fieldMatcher ["code"] [annRecord]) [] ⟨[],none⟩
            [sourceRow 2 "line:2" [("code",.str "E1")],
              sourceRow 3 "line:3" [("code",.str " E1")]]) = .ok planned →
        ∃ result, planned.results[1]? = some result ∧ PlanBuilder.itemOf result = none :=
  same_key_recognised _ [] ⟨[],none⟩ _ rfl (i := 0) (by decide) rfl rfl
    "code:E1" (by decide) (by decide)

/-- Matched to one record by its code and by its mail, two rows get one item each. -/
theorem record_planned_twice :
    ¬ ∀ (core : MatchCore) (catalog : ErrorCatalog) (stream : List (TransformResult Fields))
      (resolver : ResolveCore) (dataset : String) (schedule : Nat → Tick) (db : IdentityDb)
      (planned : Planned), core.matchingRules.sourceDedup.enabled = true →
      iterResolved resolver catalog dataset schedule db
        (matchStream core catalog ⟨[],none⟩ stream) = .ok planned →
      ∀ a ∈ (PlanBuilder.buildFromStream planned.results).planItems,
        ∀ b ∈ (PlanBuilder.buildFromStream planned.results).planItems,
          a.rowId ≠ b.rowId → a.targetId ≠ b.targetId := by
  intro h
  have hitems : (iterResolved (plainCore []) [] "employees" steady IdentityDb.empty
      (matchStream (fieldMatcher ["code","mail"] [annRecord]) [] ⟨[],none⟩ annTwice)).map
        (fun p => (PlanBuilder.buildFromStream p.results).planItems.map
          fun item => (item.rowId,item.op,item.targetId)) =
      .ok [("line:2",.update,.str "emp-1"),("line:3",.update,.str "emp-1")] := by
    decide
  cases hrun : iterResolved (plainCore []) [] "employees" steady IdentityDb.empty
      (matchStream (fieldMatcher ["code","mail"] [annRecord]) [] ⟨[],none⟩ annTwice) with
  | error exc =>
    rw [hrun] at hitems
    cases hitems
  | ok planned =>
    rw [hrun] at hitems
    have hlist : (PlanBuilder.buildFromStream planned.results).planItems.map
        (fun item => (item.rowId,item.op,item.targetId)) =
          [("line:2",.update,.str "emp-1"),("line:3",.update,.str "emp-1")] :=
      Except.ok.inj hitems
    have hall := h _ _ _ _ _ _ _ planned rfl hrun
    obtain ⟨a,ha,hav⟩ := List.mem_map.mp (hlist ▸ List.mem_cons_self)
    obtain ⟨b,hb,hbv⟩ := List.mem_map.mp (hlist ▸ List.mem_cons_of_mem _ List.mem_cons_self)
    simp only [Prod.mk.injEq] at hav hbv
    exact hall a ha b hb (by rw [hav.1, hbv.1]; decide) (by rw [hav.2.2, hbv.2.2])

end NexusEtl
