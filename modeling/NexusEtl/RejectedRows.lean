import NexusEtl.LinkSteps
import NexusEtl.History
import Mathlib.Algebra.Order.BigOperators.Group.List
import Mathlib.Algebra.Order.Group.Nat
import Mathlib.Algebra.GroupWithZero.Nat

/-!
# Rejected rows and their pending links

A row can fail outright: a link rule that wants an answer has none, a changed
field does not fit the sink, there is no target identifier. Links that earlier
rules of the row have stored by then stay in the table.
-/

set_option autoImplicit false

namespace NexusEtl
open NexusEtl.Library

namespace PendingTable

/-- The attempts of all links together: each request adds one. -/
def totalAttempts (t : PendingTable) : Nat := (t.rows.map PendingLink.attempts).sum

theorem totalAttempts_modifyId (t : PendingTable) (id : Nat) {f : PendingLink → PendingLink}
    {hf : ∀ l, (f l).pendingId = l.pendingId} (h : ∀ l, (f l).attempts = l.attempts) :
    (t.modifyId id f hf).totalAttempts = t.totalAttempts := by
  unfold totalAttempts modifyId
  rw [modify_rows, List.map_map]
  congr 1
  apply List.map_congr_left
  intro l _
  by_cases hid : l.pendingId = id
  · simp [hid, h]
  · simp [hid]

theorem totalAttempts_markConflict (t : PendingTable) (id : Nat) (reason : Option String)
    (now : String) : (t.markConflict id reason now).totalAttempts = t.totalAttempts :=
  totalAttempts_modifyId t id fun _ => rfl

theorem totalAttempts_addPending (t : PendingTable) (req : PendingRequest) (now : String) :
    (t.addPending req now).1.totalAttempts = t.totalAttempts := by
  unfold addPending
  split
  · dsimp only
    split
    · exact totalAttempts_modifyId t _ fun _ => rfl
    · rfl
  · simp [totalAttempts, insert, newLink]

theorem totalAttempts_touchAttempt {t : PendingTable} {id : Nat} (now : String)
    (h : ∃ l ∈ t.rows, l.pendingId = id) :
    t.totalAttempts < (t.touchAttempt id now).1.totalAttempts := by
  obtain ⟨m,hm,rfl⟩ := h
  unfold totalAttempts touchAttempt modifyId
  rw [modify_rows, List.map_map]
  apply List.sum_lt_sum
  · intro l _
    by_cases hid : l.pendingId = m.pendingId <;> simp [hid, touched]
  · exact ⟨m,hm,by simp [touched]⟩

theorem totalAttempts_request (t : PendingTable) (maxAttempts : Int) (req : PendingRequest)
    (now : String) (hp : req.payload.isSome) :
    t.totalAttempts < (t.request maxAttempts req now).1.totalAttempts := by
  obtain ⟨m,hid,_,hm⟩ := t.addPending_spec req now hp
  have htouch := totalAttempts_touchAttempt now ⟨m,hm.mem,hid⟩
  rw [totalAttempts_addPending] at htouch
  unfold request
  dsimp only
  split
  · rw [totalAttempts_markConflict]
    exact htouch
  · exact htouch

theorem totalAttempts_run (maxAttempts : Int) (now : String) (t : PendingTable)
    {reqs : List PendingRequest} (hp : ∀ req ∈ reqs, req.payload.isSome = true) :
    t.totalAttempts + reqs.length ≤ (run (requestStep maxAttempts now) t reqs).totalAttempts := by
  induction reqs generalizing t with
  | nil => exact Nat.le_refl _
  | cons req reqs ih =>
    have hstep := t.totalAttempts_request maxAttempts req now (hp req List.mem_cons_self)
    have hrest := ih (requestStep maxAttempts now t req) fun r hr => hp r (List.mem_cons_of_mem _ hr)
    have hrun : run (requestStep maxAttempts now) t (req::reqs) =
        run (requestStep maxAttempts now) (requestStep maxAttempts now t req) reqs := rfl
    rw [hrun, List.length_cons]
    have hlt : t.totalAttempts < (requestStep maxAttempts now t req).totalAttempts := hstep
    omega

end PendingTable

namespace ResolveCore

variable (core : ResolveCore) (db : IdentityDb) (call : ResolveCall)

/-- The row fails for another reason than a pending link: a rule stops the loop without a
link, or the loop goes through and the row is rejected after it. -/
def RejectedOutright : Prop :=
  (∃ p ∈ core.linkTrace db call, core.flowAt db call p = .stop ∧ core.fateAt db call p = none) ∨
  ∃ s mutated, core.linkStart db call = some (s,mutated) ∧
    (core.resolveLinkLoop db call core.linkRules s).1 = none ∧
    (core.resolveLinkLoop db call core.linkRules s).2.shouldStop = false ∧
    core.rejects call (core.resolveLinkLoop db call core.linkRules s).2 mutated = true

/-- The links that the loop stores are the requests of its state. -/
theorem resolveLinkLoop_requests (rules : List LinkFieldRule) (s : LinkState) :
    (core.resolveLinkLoop db call rules s).2.requests.length =
      s.requests.length +
        ((core.visited db call rules s).filterMap (core.fateAt db call)).length := by
  induction rules generalizing s with
  | nil => simp [resolveLinkLoop, visited]
  | cons rule rules ih =>
    have hcount := core.requests_step db call (rule,s)
    cases hstep : core.resolveLink db call rule s with
    | mk flow s' =>
    rw [hstep] at hcount
    have hfates (ps : List (LinkFieldRule × LinkState)) :
        (((rule,s)::ps).filterMap (core.fateAt db call)).length =
          (core.fateAt db call (rule,s)).toList.length +
            (ps.filterMap (core.fateAt db call)).length := by
      rw [List.filterMap_cons]
      cases core.fateAt db call (rule,s) <;> simp [Nat.add_comm]
    rw [resolveLinkLoop, visited, hstep, hfates]
    cases flow with
    | next =>
      dsimp only at hcount ⊢
      rw [ih s', hcount]
      omega
    | stop => simpa using hcount
    | raised exc => simpa using hcount

variable {core db call}

theorem RejectedOutright.returnsNone (h : core.RejectedOutright db call) :
    ReturnsNone (core.resolve db call) := by
  rcases h with ⟨p,hp,hstop,_⟩ | ⟨s,mutated,hstart,hnone,_,hrejects⟩
  · cases hstart : core.linkStart db call with
    | none =>
      rw [linkTrace, hstart] at hp
      cases hp
    | some start =>
      obtain ⟨s,mutated⟩ := start
      rw [linkTrace, hstart] at hp
      obtain ⟨hnone,hflag⟩ := core.resolveLinkLoop_of_stop db call hp hstop
      rw [core.resolve_of_linkStart db call hstart]
      rw [← Prod.mk.eta (p := core.resolveLinkLoop db call core.linkRules s), hnone]
      exact (core.finish_returnsNone_iff call mutated _).mpr (.inl hflag)
  · rw [core.resolve_of_linkStart db call hstart]
    rw [← Prod.mk.eta (p := core.resolveLinkLoop db call core.linkRules s), hnone]
    exact (core.finish_returnsNone_iff call mutated _).mpr (.inr hrejects)

theorem not_closed_of_returnsNone (h : ReturnsNone (core.resolve db call)) :
    (core.resolve db call).closed = false := by
  obtain ⟨resolution,hres,hrow⟩ := h
  by_contra hclosed
  obtain ⟨_,row,hok⟩ := resolve_closed (Bool.eq_true_of_not_eq_false hclosed)
  rw [hok] at hres
  cases hres
  cases hrow

theorem finish_requests (mutated : List String) (s : LinkState) :
    (core.finish call mutated s).requests = s.requests := by
  unfold finish
  split
  · rfl
  · dsimp only
    split
    · rfl
    · split
      · rfl
      · split
        · rfl
        · split <;> rfl

theorem RejectedOutright.start (h : core.RejectedOutright db call) :
    ∃ s mutated, core.linkStart db call = some (s,mutated) := by
  rcases h with ⟨p,hp,_⟩ | ⟨s,mutated,hstart,_⟩
  · cases hstart : core.linkStart db call with
    | none =>
      rw [linkTrace, hstart] at hp
      cases hp
    | some start => exact ⟨start.1,start.2,rfl⟩
  · exact ⟨s,mutated,hstart⟩

theorem linkStart_requests {s : LinkState} {mutated : List String}
    (h : core.linkStart db call = some (s,mutated)) : s.requests = [] := by
  unfold linkStart at h
  split at h
  · split at h
    · cases h
      rfl
    · cases h
  · cases h

theorem resolve_requests_of_linkStart {s : LinkState} {mutated : List String}
    (h : core.linkStart db call = some (s,mutated)) : (core.resolve db call).requests =
      (core.resolveLinkLoop db call core.linkRules s).2.requests := by
  rw [core.resolve_of_linkStart db call h]
  rcases core.resolveLinkLoop db call core.linkRules s with ⟨_ | exc,s'⟩
  · exact finish_requests mutated s'
  · rfl

/-- The requests of a row are the links that its rules store. -/
theorem resolve_requests_eq_nil_iff {s : LinkState} {mutated : List String}
    (hstart : core.linkStart db call = some (s,mutated)) :
    (core.resolve db call).requests = [] ↔
      ∀ p ∈ core.linkTrace db call, core.fateAt db call p = none := by
  have hcount := resolveLinkLoop_requests core db call core.linkRules s
  rw [linkStart_requests hstart, List.length_nil, Nat.zero_add] at hcount
  have htrace : core.linkTrace db call = core.visited db call core.linkRules s := by
    rw [linkTrace, hstart]
  rw [resolve_requests_of_linkStart hstart, htrace, ← List.filterMap_eq_nil_iff,
    ← List.length_eq_zero_iff,
    ← List.length_eq_zero_iff, hcount]

/-- The manager may wait, the unit must be there. -/
def strictUnit : ResolveCore :=
  plainCore [codeLink "manager" "employees",
    { codeLink "unit" "organizations" with onUnresolved := .hardError }]

def newcomer : ResolveCall :=
  callOn (newRow 2 "line:2" "E1" (.str "emp-1") [("manager",.str "M1"),("unit",.str "U1")])

theorem newcomer_rejected : strictUnit.RejectedOutright .empty newcomer := by
  refine .inl ⟨(strictUnit.linkTrace .empty newcomer).getLast (by decide),
    List.getLast_mem _,?_⟩
  decide

end ResolveCore
end NexusEtl
