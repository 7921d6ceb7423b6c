import NexusEtl.ResolveSpec
import NexusEtl.Library.Narrowing

/-!
# Narrowing the candidates of a link

The dedup rules of a link narrow its candidates. The resolver works on a list
and leaves the loop as soon as one candidate is left; what it returns is the
cascade of the rules over the set of the candidates.
-/

set_option autoImplicit false

namespace NexusEtl
open NexusEtl.Library

namespace ResolveCore

/-- The identifiers that the lookup of every key of a rule gives. -/
def foundByAll (lookup : String → List String) (value : String → Option String)
    (names : List String) : Set String :=
  { id | ∀ name ∈ names, ∃ text, value name = some text ∧
    id ∈ lookup (formatIdentityKey name text) }

variable {lookup : String → List String} {value : String → Option String}

theorem mem_narrow {names found : List String} {id : String} :
    id ∈ narrow lookup value names found ↔
      id ∈ found ∧ id ∈ foundByAll lookup value names := by
  induction names generalizing found with
  | nil => simp [narrow, foundByAll]
  | cons name names ih =>
    cases hv : value name with
    | none => simp [narrow, foundByAll, hv]
    | some text =>
      have hhead : id ∈ foundByAll lookup value (name::names) ↔
          id ∈ lookup (formatIdentityKey name text) ∧ id ∈ foundByAll lookup value names := by
        simp [foundByAll, hv]
      rw [narrow, hv, hhead]
      dsimp only
      rw [ih, List.mem_filter, List.contains_iff_mem, and_assoc]

/-- The list that one rule leaves is the narrowed set. -/
theorem mem_kept {names remaining : List String} {id : String} :
    id ∈ (if narrow lookup value names remaining = [] then remaining
      else narrow lookup value names remaining) ↔
      id ∈ Narrowing.narrowBy { c | c ∈ remaining } (foundByAll lookup value names) := by
  by_cases hnil : narrow lookup value names remaining = []
  · have hmiss : ¬ ({ c | c ∈ remaining } ∩ foundByAll lookup value names).Nonempty := by
      rintro ⟨c,hc⟩
      have hin : c ∈ narrow lookup value names remaining := mem_narrow.mpr hc
      rw [hnil] at hin
      cases hin
    rw [if_pos hnil, Narrowing.narrowBy_of_misses hmiss]
    rfl
  · obtain ⟨c,hc⟩ := List.exists_mem_of_ne_nil _ hnil
    have hmeet : ({ c | c ∈ remaining } ∩ foundByAll lookup value names).Nonempty :=
      ⟨c,mem_narrow.mp hc⟩
    rw [if_neg hnil, Narrowing.narrowBy_of_meets hmeet]
    exact mem_narrow

/-- The loop over the rules, with its exits, computes the cascade. -/
theorem mem_applyDedup {rules : List (List String)} {remaining : List String} {id : String} :
    id ∈ applyDedup lookup value rules remaining ↔
      id ∈ Narrowing.cascade { c | c ∈ remaining } (rules.map (foundByAll lookup value)) := by
  induction rules generalizing remaining with
  | nil => exact Iff.rfl
  | cons names rules ih =>
    have hcascade : Narrowing.cascade { c | c ∈ remaining }
        ((names::rules).map (foundByAll lookup value)) =
        Narrowing.cascade { c | c ∈ (if narrow lookup value names remaining = [] then remaining
          else narrow lookup value names remaining) } (rules.map (foundByAll lookup value)) := by
      have hkept : { c | c ∈ (if narrow lookup value names remaining = [] then remaining
          else narrow lookup value names remaining) } =
          Narrowing.narrowBy { c | c ∈ remaining } (foundByAll lookup value names) :=
        Set.ext fun c => mem_kept
      rw [hkept]
      rfl
    rw [hcascade]
    by_cases hempty : remaining = []
    · have hnone : { c | c ∈ (if narrow lookup value names remaining = [] then remaining
          else narrow lookup value names remaining) } = ∅ := by
        apply Set.eq_empty_of_forall_notMem
        intro c hc
        have hin := Narrowing.narrowBy_subset _ _ (mem_kept.mp hc)
        rw [hempty] at hin
        cases hin
      rw [applyDedup, if_pos hempty, hnone, Narrowing.cascade_empty]
      simp
    · rw [applyDedup, if_neg hempty]
      dsimp only
      generalize (if narrow lookup value names remaining = [] then remaining
        else narrow lookup value names remaining) = kept
      by_cases hone : kept.length = 1
      · obtain ⟨a,rfl⟩ := List.length_eq_one_iff.mp hone
        have hset : { c | c ∈ [a] } = ({a} : Set String) := by
          ext c
          simp
        rw [if_pos hone, hset, Narrowing.cascade_singleton]
        simp
      · rw [if_neg hone]
        exact ih

section Rules
variable (rule : LinkFieldRule) (keyValues : Dict String String) (desired : Fields)
  (db : IdentityDb) (batchIndex : BatchIndex)

/-- The conditions that the dedup rules of a link set. -/
def dedupConditions : List (Set String) :=
  rule.dedupRules.map (foundByAll (lookupCandidates batchIndex db rule.targetDataset)
    (dedupLookup keyValues desired))

theorem mem_applyDedupRules {candidates : List String} {id : String} :
    id ∈ applyDedupRules rule keyValues desired db batchIndex candidates ↔
      id ∈ Narrowing.cascade { c | c ∈ candidates }
        (dedupConditions rule keyValues desired db batchIndex) := by
  unfold applyDedupRules dedupConditions
  by_cases hrules : rule.dedupRules = []
  · rw [if_pos hrules, hrules]
    exact Iff.rfl
  · rw [if_neg hrules, mem_applyDedup]
    have hset : { c | c ∈ candidates.eraseDups } = { c | c ∈ candidates } :=
      Set.ext fun c => List.mem_eraseDups
    rw [hset]

/-- Dedup narrows: what is returned is the cascade of the rules over the candidates, a part
of them, not empty unless there are none, and the same for every list of them. -/
theorem dedup_narrows (candidates : List String) :
    (∀ id, id ∈ applyDedupRules rule keyValues desired db batchIndex candidates ↔
      id ∈ Narrowing.cascade { c | c ∈ candidates }
        (dedupConditions rule keyValues desired db batchIndex)) ∧
    (∀ id ∈ applyDedupRules rule keyValues desired db batchIndex candidates, id ∈ candidates) ∧
    (candidates ≠ [] → applyDedupRules rule keyValues desired db batchIndex candidates ≠ []) ∧
    ∀ other : List String, (∀ id, id ∈ other ↔ id ∈ candidates) →
      ∀ id, id ∈ applyDedupRules rule keyValues desired db batchIndex other ↔
        id ∈ applyDedupRules rule keyValues desired db batchIndex candidates := by
  refine ⟨fun id => mem_applyDedupRules ..,fun id hid => ?_,fun hne => ?_,fun other hsame id => ?_⟩
  · have hin := (mem_applyDedupRules ..).mp hid
    exact Narrowing.cascade_subset { c | c ∈ candidates } _ hin
  · obtain ⟨first,hfirst⟩ := List.exists_mem_of_ne_nil _ hne
    have hnonempty : ({ c | c ∈ candidates } : Set String).Nonempty := ⟨first,hfirst⟩
    obtain ⟨id,hid⟩ := Narrowing.cascade_nonempty hnonempty
      (dedupConditions rule keyValues desired db batchIndex)
    exact List.ne_nil_of_mem ((mem_applyDedupRules ..).mpr hid)
  · have hset : { c | c ∈ other } = { c | c ∈ candidates } := Set.ext hsame
    rw [mem_applyDedupRules, mem_applyDedupRules, hset]

end Rules

/-- No candidates leave none. -/
theorem no_candidates_left :
    applyDedupRules { field := "unit", targetDataset := "organizations", resolveKeys := []
                      dedupRules := [["code"]] } [] [] .empty [] [] = [] := by
  decide

end ResolveCore
end NexusEtl
