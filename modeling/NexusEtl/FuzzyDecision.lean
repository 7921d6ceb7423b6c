import NexusEtl.Library.Ranking
import NexusEtl.MatchCore
import Mathlib.Data.Rat.Floor
import Mathlib.Tactic.Linarith

/-!
# The fuzzy decision

A row without a record of its own identity is scored against the candidates of
its blocking keys. The best one is taken when its score is high enough and no
other comes within the tie band. With a band of zero width, candidates of one
score are not told apart, and the first of them is taken.
-/

set_option autoImplicit false

namespace NexusEtl
open NexusEtl.Library

namespace FuzzyScoringRules

def checkWeights : Dict String Rat → Except PyException Unit
  | [] => .ok ()
  | (name,weight)::weights =>
    if weight < 0 then
      .error ⟨"ValueError","fuzzy.weights[" ++ Value.strRepr name ++ "] must be >= 0.0"⟩
    else checkWeights weights

/-- `__post_init__` of compiled rules; rational numbers are finite. -/
def postInit (fuzzy : FuzzyScoringRules) : Except PyException Unit :=
  if ¬(0 ≤ fuzzy.acceptThreshold ∧ fuzzy.acceptThreshold ≤ 1) then
    .error ⟨"ValueError","fuzzy.accept_threshold must be within [0.0, 1.0]"⟩
  else if ¬(0 ≤ fuzzy.reviewThreshold ∧ fuzzy.reviewThreshold ≤ 1) then
    .error ⟨"ValueError","fuzzy.review_threshold must be within [0.0, 1.0]"⟩
  else if fuzzy.acceptThreshold < fuzzy.reviewThreshold then
    .error ⟨"ValueError","fuzzy.review_threshold must be <= fuzzy.accept_threshold"⟩
  else if fuzzy.tieDelta < 0 then .error ⟨"ValueError","fuzzy.tie_delta must be >= 0.0"⟩
  else if fuzzy.maxCandidates < 1 then
    .error ⟨"ValueError","fuzzy.max_candidates must be >= 1"⟩
  else if fuzzy.topK < 1 then .error ⟨"ValueError","fuzzy.top_k must be >= 1"⟩
  else if fuzzy.scoreRound < 0 then .error ⟨"ValueError","fuzzy.score_round must be >= 0"⟩
  else checkWeights fuzzy.weights

theorem postInit_bounds {fuzzy : FuzzyScoringRules} (h : fuzzy.postInit = .ok ()) :
    (0 ≤ fuzzy.acceptThreshold ∧ fuzzy.acceptThreshold ≤ 1) ∧ 0 ≤ fuzzy.tieDelta := by
  unfold postInit at h
  split at h
  · cases h
  · rename_i haccept
    split at h
    · cases h
    · split at h
      · cases h
      · split at h
        · cases h
        · rename_i htie
          exact ⟨not_not.mp haccept,not_lt.mp htie⟩

variable (fuzzy : FuzzyScoringRules) (source : String → Value)

/-- What `_match_with_fuzzy` does with the candidates that it found. -/
def decideCandidates (candidates : List Fields) : MatchState :=
  match fuzzy.rankCandidates source candidates with
  | [] => MatchCore.fuzzyState none .notFound "fuzzy_no_candidates" none [] fuzzy.topK
  | best::rest =>
    let accept := min 1 (max 0 fuzzy.acceptThreshold)
    let review := min accept (max 0 fuzzy.reviewThreshold)
    let result :=
      if fuzzy.isTie (best::rest) then (none,MatchDecisionStatus.ambiguous,"fuzzy_tie")
      else if accept ≤ best.2 then (some best.1,.matched,"fuzzy_accept")
      else if review ≤ best.2 then (none,.ambiguous,"fuzzy_review")
      else (none,.notFound,"fuzzy_reject")
    MatchCore.fuzzyState result.1 result.2.1 result.2.2 (some best.2) (best::rest) fuzzy.topK

theorem rankCandidates_eq (candidates : List Fields) :
    fuzzy.rankCandidates source candidates =
      ranking (fuzzy.scoreCandidate source) candidates := rfl

/-- The record scores high enough, and every other candidate less, outside the tie band. -/
def Accepts (candidates : List Fields) (record : Fields) : Prop :=
  fuzzy.acceptThreshold ≤ fuzzy.scoreCandidate source record ∧
    ∃ others, candidates.Perm (record::others) ∧ ∀ other ∈ others,
      fuzzy.scoreCandidate source other < fuzzy.scoreCandidate source record ∧
        fuzzy.tieDelta ≤ fuzzy.scoreCandidate source record - fuzzy.scoreCandidate source other

/-- Two candidates share the highest score, and it is high enough. -/
def SharedTop (candidates : List Fields) : Prop :=
  ∃ a b, SharesTop (fuzzy.scoreCandidate source) candidates a b ∧
    fuzzy.acceptThreshold ≤ fuzzy.scoreCandidate source a

variable {fuzzy source}

theorem isTie_eq_false {best : Fields × Rat} {rest : List (Fields × Rat)}
    (hsorted : (best::rest).Pairwise fun a b => b.2 ≤ a.2)
    (h : fuzzy.isTie (best::rest) = false) :
    ∀ p ∈ rest, fuzzy.tieDelta ≤ best.2 - p.2 := by
  intro p hp
  cases rest with
  | nil => cases hp
  | cons second rest =>
    have hband : max 0 fuzzy.tieDelta ≤ best.2 - second.2 := by
      simpa [isTie] using h
    have hsecond : p.2 ≤ second.2 := by
      rcases List.mem_cons.mp hp with rfl | hp
      · exact le_refl _
      · exact (List.pairwise_cons.mp (List.pairwise_cons.mp hsorted).2).1 p hp
    calc
      fuzzy.tieDelta ≤ max 0 fuzzy.tieDelta := le_max_right _ _
      _ ≤ best.2 - second.2 := hband
      _ ≤ best.2 - p.2 := by linarith

theorem clamp_accept (h : 0 ≤ fuzzy.acceptThreshold ∧ fuzzy.acceptThreshold ≤ 1) :
    min 1 (max 0 fuzzy.acceptThreshold) = fuzzy.acceptThreshold := by
  rw [max_eq_right h.1, min_eq_right h.2]

/-- A match is the best candidate, with a score that is high enough and no tie. -/
theorem decide_matched_iff {candidates : List Fields} :
    (fuzzy.decideCandidates source candidates).status = .matched ↔ ∃ best rest,
      fuzzy.rankCandidates source candidates = best::rest ∧
        fuzzy.isTie (best::rest) = false ∧ min 1 (max 0 fuzzy.acceptThreshold) ≤ best.2 := by
  unfold decideCandidates
  cases hrank : fuzzy.rankCandidates source candidates with
  | nil => simp [MatchCore.fuzzyState]
  | cons best rest =>
    cases htie : fuzzy.isTie (best::rest) with
    | true => simp [MatchCore.fuzzyState, htie]
    | false =>
      by_cases haccept : min 1 (max 0 fuzzy.acceptThreshold) ≤ best.2
      · simp only [MatchCore.fuzzyState, htie, Bool.false_eq_true, if_false, if_pos haccept,
          true_iff]
        exact ⟨best,rest,rfl,htie,haccept⟩
      · simp only [MatchCore.fuzzyState, htie, Bool.false_eq_true, if_false, if_neg haccept]
        constructor
        · intro h
          split at h <;> cases h
        · rintro ⟨best',rest',heq,_,hle⟩
          cases heq
          exact absurd hle haccept

theorem decide_existing {candidates : List Fields} {best : Fields × Rat}
    {rest : List (Fields × Rat)} (hrank : fuzzy.rankCandidates source candidates = best::rest)
    (h : (fuzzy.decideCandidates source candidates).status = .matched) :
    (fuzzy.decideCandidates source candidates).existing = some best.1 := by
  obtain ⟨best',rest',hrank',htie,haccept⟩ := decide_matched_iff.mp h
  rw [hrank] at hrank'
  cases hrank'
  unfold decideCandidates
  rw [hrank]
  simp [MatchCore.fuzzyState, htie, haccept]

theorem decide_not_matched {candidates : List Fields}
    (h : (fuzzy.decideCandidates source candidates).status ≠ .matched) :
    (fuzzy.decideCandidates source candidates).existing = none := by
  unfold decideCandidates at h ⊢
  split at h
  · rfl
  · dsimp only [MatchCore.fuzzyState] at h ⊢
    split
    · rfl
    · split
      · rename_i htie haccept
        simp [htie, haccept] at h
      · split <;> rfl

theorem Accepts.wins {candidates : List Fields} {record : Fields}
    (h : fuzzy.Accepts source candidates record) :
    Wins (fuzzy.scoreCandidate source) candidates record := by
  obtain ⟨_,others,hperm,hless⟩ := h
  exact ⟨others,hperm,fun other hother => (hless other hother).1⟩

/-- A match is sound where the band has a width or nobody shares the top. -/
theorem accepts_of_matched (hrules : fuzzy.postInit = .ok ()) {candidates : List Fields}
    (hclear : 0 < fuzzy.tieDelta ∨ ¬fuzzy.SharedTop source candidates)
    (h : (fuzzy.decideCandidates source candidates).status = .matched) :
    ∃ record, (fuzzy.decideCandidates source candidates).existing = some record ∧
      fuzzy.Accepts source candidates record := by
  obtain ⟨hbounds,_⟩ := postInit_bounds hrules
  obtain ⟨best,rest,hrank,htie,haccept⟩ := decide_matched_iff.mp h
  rw [clamp_accept hbounds] at haccept
  have hsorted := ranking_sorted (fuzzy.scoreCandidate source) candidates
  obtain ⟨hbest,hperm,hrest⟩ := ranking_cons hrank
  rw [← rankCandidates_eq, hrank] at hsorted
  have hband := isTie_eq_false hsorted htie
  rw [hbest] at haccept hband
  refine ⟨best.1,decide_existing hrank h,haccept,rest.map Prod.fst,hperm,fun other hother => ?_⟩
  obtain ⟨p,hp,rfl⟩ := List.mem_map.mp hother
  have hscore := (hrest p hp).1
  have hgap := hband p hp
  rw [hscore] at hgap
  refine ⟨?_,hgap⟩
  rcases hclear with hwidth | hshared
  · linarith
  · have hle := (hrest p hp).2
    rw [hscore, hbest] at hle
    apply lt_of_le_of_ne hle
    intro heq
    obtain ⟨before,after,hsplit⟩ := List.append_of_mem hother
    apply hshared
    refine ⟨best.1,p.1,⟨before ++ after,?_,heq.symm,fun c hc => ?_⟩,haccept⟩
    · rw [hsplit] at hperm
      exact hperm.trans (List.Perm.cons _ List.perm_middle)
    · have hc' : c ∈ rest.map Prod.fst := by
        rw [hsplit]
        rcases List.mem_append.mp hc with hc | hc
        · exact List.mem_append_left _ hc
        · exact List.mem_append_right _ (List.mem_cons_of_mem _ hc)
      obtain ⟨q,hq,rfl⟩ := List.mem_map.mp hc'
      have hle := (hrest q hq).2
      rwa [(hrest q hq).1, hbest] at hle

/-- Without a band, candidates that share an acceptable top are no tie. -/
theorem matched_of_sharedTop (hrules : fuzzy.postInit = .ok ()) {candidates : List Fields}
    (hwidth : ¬0 < fuzzy.tieDelta) (h : fuzzy.SharedTop source candidates) :
    (fuzzy.decideCandidates source candidates).status = .matched := by
  obtain ⟨hbounds,htie⟩ := postInit_bounds hrules
  obtain ⟨a,b,hshares,haccept⟩ := h
  obtain ⟨best,second,rest,hrank,hbest,hsecond⟩ := hshares.second
  have hzero : fuzzy.tieDelta = 0 := le_antisymm (not_lt.mp hwidth) htie
  apply decide_matched_iff.mpr
  refine ⟨best,second::rest,hrank,?_,?_⟩
  · simp [isTie, hbest, hsecond, hzero]
  · rw [clamp_accept hbounds, hbest]
    exact haccept

theorem isTie_congr {best best' : Fields × Rat} {rest rest' : List (Fields × Rat)}
    (hbest : best.2 = best'.2) (hrest : rest.map Prod.snd = rest'.map Prod.snd) :
    fuzzy.isTie (best::rest) = fuzzy.isTie (best'::rest') := by
  cases rest with
  | nil =>
    cases rest' with
    | nil => rfl
    | cons _ _ => cases hrest
  | cons second rest =>
    cases rest' with
    | nil => cases hrest
    | cons second' rest' =>
      have hsecond : second.2 = second'.2 := (List.cons.inj hrest).1
      simp [isTie, hbest, hsecond]

/-- The status is a function of the scores. -/
theorem status_perm {candidates others : List Fields} (h : others.Perm candidates) :
    (fuzzy.decideCandidates source others).status =
      (fuzzy.decideCandidates source candidates).status := by
  have hscores : (fuzzy.rankCandidates source others).map Prod.snd =
      (fuzzy.rankCandidates source candidates).map Prod.snd := ranking_scores_perm h
  unfold decideCandidates
  cases hrank : fuzzy.rankCandidates source others with
  | nil =>
    cases hrank' : fuzzy.rankCandidates source candidates with
    | nil => rfl
    | cons best rest => simp [hrank, hrank'] at hscores
  | cons best rest =>
    cases hrank' : fuzzy.rankCandidates source candidates with
    | nil => simp [hrank, hrank'] at hscores
    | cons best' rest' =>
      rw [hrank, hrank', List.map_cons, List.map_cons] at hscores
      obtain ⟨hbest,hrest⟩ := List.cons.inj hscores
      have htie : fuzzy.isTie (best::rest) = fuzzy.isTie (best'::rest') := isTie_congr hbest hrest
      simp only [MatchCore.fuzzyState, htie, hbest]
      split
      · rfl
      · split
        · rfl
        · split <;> rfl

theorem SharedTop.perm {candidates others : List Fields} (h : others.Perm candidates)
    (hshared : fuzzy.SharedTop source others) : fuzzy.SharedTop source candidates := by
  obtain ⟨a,b,⟨rest,hrest,hshares⟩,haccept⟩ := hshared
  exact ⟨a,b,⟨rest,h.symm.trans hrest,hshares⟩,haccept⟩

/-- So is the record, where the best candidate is clear. -/
theorem existing_perm (hrules : fuzzy.postInit = .ok ()) {candidates others : List Fields}
    (hclear : 0 < fuzzy.tieDelta ∨ ¬fuzzy.SharedTop source candidates)
    (h : others.Perm candidates) :
    (fuzzy.decideCandidates source others).existing =
      (fuzzy.decideCandidates source candidates).existing := by
  have hstatus := @status_perm fuzzy source candidates others h
  by_cases hmatched : (fuzzy.decideCandidates source candidates).status = .matched
  · have hclear' : 0 < fuzzy.tieDelta ∨ ¬fuzzy.SharedTop source others :=
      hclear.imp_right fun hnot hshared => hnot (hshared.perm h)
    obtain ⟨record,hexisting,haccepts⟩ := accepts_of_matched hrules hclear hmatched
    obtain ⟨record',hexisting',haccepts'⟩ :=
      accepts_of_matched hrules hclear' (hstatus.trans hmatched)
    rw [hexisting, hexisting', haccepts'.wins.unique (haccepts.wins.perm h)]
  · rw [decide_not_matched hmatched, decide_not_matched (hstatus ▸ hmatched)]

end FuzzyScoringRules

namespace MatchCore

variable (core : MatchCore)

/-- The candidates that the blocking keys give. -/
def blockingCandidates (row desired : Fields) (identity : Identity) :
    Except PyException (List Fields) :=
  core.collectBlockingCandidates row desired identity
    (max 1 core.matchingRules.fuzzy.maxCandidates).toNat core.matchingRules.fuzzy.blockingKeys []

variable {core}

theorem matchWithFuzzy_eq (row desired : Fields) (identity : Identity) :
    core.matchWithFuzzy row desired identity =
      (core.blockingCandidates row desired identity).map
        (core.matchingRules.fuzzy.decideCandidates
          fun f => readMatchValue f row desired identity) := by
  unfold matchWithFuzzy blockingCandidates
  dsimp only
  cases core.collectBlockingCandidates row desired identity
    (max 1 core.matchingRules.fuzzy.maxCandidates).toNat
      core.matchingRules.fuzzy.blockingKeys [] with
  | error exc => rfl
  | ok candidates =>
    simp only [bind, Except.bind, pure, Except.pure, Except.map,
      FuzzyScoringRules.decideCandidates]
    cases core.matchingRules.fuzzy.rankCandidates
      (fun f => readMatchValue f row desired identity) candidates <;> rfl

/-- What the fuzzy decision about these candidates should be: a match is the clear best of them,
nobody is matched where two share the top, and the order does not show. -/
structure DecidesFuzzy (core : MatchCore) (row desired : Fields) (identity : Identity)
    (candidates : List Fields) (state : MatchState) : Prop where
  accepted : state.status = .matched → ∃ record, state.existing = some record ∧
    core.matchingRules.fuzzy.Accepts (fun f => readMatchValue f row desired identity)
      candidates record
  shared : ∀ a b, SharesTop (core.matchingRules.fuzzy.scoreCandidate
    fun f => readMatchValue f row desired identity) candidates a b → state.status ≠ .matched
  order : ∀ find others, { core with find := find }.blockingCandidates row desired identity =
      .ok others → others.Perm candidates →
    ∃ state', { core with find := find }.matchWithFuzzy row desired identity = .ok state' ∧
      state'.status = state.status ∧ state'.existing = state.existing

/-- The fuzzy decision does this exactly when the tie band has a width, or no two candidates share
an acceptable top. -/
theorem fuzzy_decides_iff {row desired : Fields} {identity : Identity} {candidates : List Fields}
    (hrules : core.matchingRules.fuzzy.postInit = .ok ())
    (hfound : core.blockingCandidates row desired identity = .ok candidates) :
    ∃ state, core.matchWithFuzzy row desired identity = .ok state ∧
      (DecidesFuzzy core row desired identity candidates state ↔
        0 < core.matchingRules.fuzzy.tieDelta ∨
          ¬core.matchingRules.fuzzy.SharedTop (fun f => readMatchValue f row desired identity)
            candidates) := by
  refine ⟨core.matchingRules.fuzzy.decideCandidates
    (fun f => readMatchValue f row desired identity) candidates,?_,fun hdecides => ?_,
    fun hclear => ⟨FuzzyScoringRules.accepts_of_matched hrules hclear,?_,?_⟩⟩
  · rw [matchWithFuzzy_eq, hfound]
    rfl
  · by_contra hnot
    obtain ⟨hwidth,hshared⟩ := not_or.mp hnot
    have hmatched := FuzzyScoringRules.matched_of_sharedTop hrules hwidth (not_not.mp hshared)
    obtain ⟨a,b,hshares,_⟩ := not_not.mp hshared
    exact hdecides.shared a b hshares hmatched
  · intro a b hshares hmatched
    obtain ⟨record,_,haccepts⟩ := FuzzyScoringRules.accepts_of_matched hrules hclear hmatched
    exact hshares.not_wins haccepts.wins
  · intro find others hothers hperm
    refine ⟨core.matchingRules.fuzzy.decideCandidates
      (fun f => readMatchValue f row desired identity) others,?_,
      FuzzyScoringRules.status_perm hperm,?_⟩
    · rw [matchWithFuzzy_eq, hothers]
      rfl
    · exact FuzzyScoringRules.existing_perm hrules hclear hperm

end MatchCore

section Samples

/-- A cache that has these records whatever the lookup. -/
def nameMatcher (tieDelta : Rat) (records : List Fields) : MatchCore :=
  { dataset := "employees"
    find := fun _ _ _ => .ok records
    matchingRules := { identityRules := [], fuzzy :=
      { enabled := true, blockingKeys := ["city"], tieDelta := tieDelta
        comparators := [("name",.exact),("city",.exact)], weights := [("name",3),("city",1)] } }
    buildDesiredState := fun row _ => .ok row
    hash := fun _ => ""
    includeDeleted := false
    catalog := []
    topologyServices := none }

def named (id name : String) : Fields :=
  [("_id",.str id),("name",.str name),("city",.str "Omsk")]

def namesakes : List Fields := [named "1" "Ann",named "2" "Ann"]

def annRow : Fields := [("name",.str "Ann"),("city",.str "Omsk")]

def annIdentity : Identity := ⟨"email",[("email","ann@x")]⟩

/-- A band of some width keeps two persons of one name from a match. -/
theorem fuzzy_decides_namesakes : ∃ state,
    (nameMatcher (1/20) namesakes).matchWithFuzzy annRow [] annIdentity = .ok state ∧
      (MatchCore.DecidesFuzzy (nameMatcher (1/20) namesakes) annRow [] annIdentity namesakes
          state ↔
        0 < (nameMatcher (1/20) namesakes).matchingRules.fuzzy.tieDelta ∨
          ¬(nameMatcher (1/20) namesakes).matchingRules.fuzzy.SharedTop
            (fun f => readMatchValue f annRow [] annIdentity) namesakes) :=
  MatchCore.fuzzy_decides_iff (by decide +kernel) (by decide +kernel)

/-- Two persons of one score: the rules are accepted, and the one found first is matched. -/
theorem zero_band_takes_first :
    (nameMatcher 0 []).matchingRules.fuzzy.postInit = .ok () ∧
      ((nameMatcher 0 namesakes).matchWithFuzzy annRow [] annIdentity).map
        (fun state => (state.status,state.existing)) =
          .ok (.matched,some (named "1" "Ann")) ∧
      ((nameMatcher 0 namesakes.reverse).matchWithFuzzy annRow [] annIdentity).map
        (fun state => (state.status,state.existing)) =
          .ok (.matched,some (named "2" "Ann")) := by decide +kernel

end Samples
end NexusEtl
