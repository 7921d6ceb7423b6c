import Mathlib.Data.List.Nodup
import Mathlib.Logic.Relation

/-!
# Exploring a graph

An exploration takes elements off a stack, skips those it has visited, and puts
the successors of the others on top. It ends within a round for every edge, and
then it has found exactly the elements that the start leads to, except the start.
A scope that spreads from the start takes new elements through a queue, each once,
and ends with all that the start leads to.
-/

set_option autoImplicit false

namespace NexusEtl.Library

variable {α : Type}

/-- What a computation gives once it has fuel enough. -/
def Gives (run : Nat → Option α) (a : α) : Prop := ∃ n, ∀ fuel, n ≤ fuel → run fuel = some a

theorem Gives.unique {run : Nat → Option α} {a b : α} (ha : Gives run a) (hb : Gives run b) :
    a = b := by
  obtain ⟨n,hn⟩ := ha
  obtain ⟨m,hm⟩ := hb
  have heq := (hn (max n m) (Nat.le_max_left n m)).symm.trans
    (hm (max n m) (Nat.le_max_right n m))
  exact Option.some.inj heq

theorem Gives.of_more {run : Nat → Option α} {a : α} {n : Nat}
    (h : ∀ more, run (n + more) = some a) : Gives run a := by
  refine ⟨n,fun fuel hfuel => ?_⟩
  obtain ⟨more,rfl⟩ := Nat.exists_eq_add_of_le hfuel
  exact h more

theorem Gives.map {β : Type} {run : Nat → Option α} {a : α} (h : Gives run a) (f : α → β) :
    Gives (fun fuel => (run fuel).map f) (f a) := by
  obtain ⟨n,hn⟩ := h
  exact ⟨n,fun fuel hfuel => congrArg (Option.map f) (hn fuel hfuel)⟩

theorem Gives.const (a : α) : Gives (fun _ => some a) a := ⟨0,fun _ _ => rfl⟩

/-- The elements that a step leads to. -/
def Leads (succ : α → List α) (a b : α) : Prop := b ∈ succ a

section Progress

variable {succ : α → List α}

/-- How far an exploration from a start has come. -/
structure Explored (succ : α → List α) (start : α) (stack visited result : List α) : Prop where
  seen : ∀ a, a ∈ visited ↔ a = start ∨ a ∈ result
  fresh : start ∉ result
  reached : ∀ a, a ∈ result ∨ a ∈ stack → Relation.TransGen (Leads succ) start a
  closed : ∀ a ∈ visited, ∀ b ∈ succ a, b ∈ visited ∨ b ∈ stack

theorem Explored.skip {start a : α} {stack visited result : List α}
    (h : Explored succ start (a::stack) visited result) (ha : a ∈ visited) :
    Explored succ start stack visited result := by
  refine ⟨h.seen,h.fresh,fun b hb => h.reached b (hb.imp_right (List.mem_cons_of_mem a)),?_⟩
  intro b hb c hc
  rcases h.closed b hb c hc with hc | hc
  · exact .inl hc
  · rcases List.mem_cons.mp hc with rfl | hc
    · exact .inl ha
    · exact .inr hc

theorem Explored.visit {start a : α} {stack visited result : List α}
    (h : Explored succ start (a::stack) visited result) (ha : a ∉ visited) :
    Explored succ start (succ a ++ stack) (a::visited) (result ++ [a]) := by
  have hreached := h.reached a (.inr List.mem_cons_self)
  refine ⟨fun b => ?_,fun hmem => ?_,fun b hb => ?_,fun b hb c hc => ?_⟩
  · rw [List.mem_cons, h.seen, List.mem_append, List.mem_singleton]
    tauto
  · rcases List.mem_append.mp hmem with hmem | hmem
    · exact h.fresh hmem
    · exact ha ((h.seen a).mpr (.inl (List.mem_singleton.mp hmem).symm))
  · rcases hb with hb | hb
    · rcases List.mem_append.mp hb with hb | hb
      · exact h.reached b (.inl hb)
      · rw [List.mem_singleton.mp hb]
        exact hreached
    · rcases List.mem_append.mp hb with hb | hb
      · exact hreached.tail hb
      · exact h.reached b (.inr (List.mem_cons_of_mem a hb))
  · rcases List.mem_cons.mp hb with rfl | hb
    · exact .inr (List.mem_append_left stack hc)
    · rcases h.closed b hb c hc with hc | hc
      · exact .inl (List.mem_cons_of_mem a hc)
      · rcases List.mem_cons.mp hc with rfl | hc
        · exact .inl List.mem_cons_self
        · exact .inr (List.mem_append_right _ hc)

theorem Explored.mem_iff {start : α} {visited result : List α}
    (h : Explored succ start [] visited result) (a : α) :
    a ∈ result ↔ a ≠ start ∧ Relation.TransGen (Leads succ) start a := by
  constructor
  · intro ha
    exact ⟨fun heq => h.fresh (heq ▸ ha),h.reached a (.inl ha)⟩
  · rintro ⟨hne,hleads⟩
    have hvisited : a ∈ visited := by
      induction hleads with
      | single hb =>
        exact (h.closed start ((h.seen start).mpr (.inl rfl)) _ hb).resolve_right
          List.not_mem_nil
      | @tail b c _ hc ih =>
        have hb : b ∈ visited := by
          by_cases heq : b = start
          · exact (h.seen b).mpr (.inl heq)
          · exact ih heq
        exact (h.closed b hb c hc).resolve_right List.not_mem_nil
    exact ((h.seen a).mp hvisited).resolve_left hne

end Progress

variable [DecidableEq α] (succ : α → List α)

/-- Takes fuel; the head of the list is the top of the stack. -/
def explore : Nat → List α → List α → List α → Option (List α)
  | _, [], _, result => some result
  | 0, _::_, _, _ => none
  | fuel+1, current::stack, visited, result =>
    if current ∈ visited then explore fuel stack visited result
    else explore fuel (succ current ++ stack) (current::visited) (result ++ [current])

variable {succ}

/-- The work that is left: the stack, and the edges from what has not been visited. -/
def work (edges : List (α × α)) (stack visited : List α) : Nat :=
  stack.length + edges.countP fun edge => !decide (edge.1 ∈ visited)

theorem countP_visit (edges : List (α × α)) {a : α} {visited : List α} (ha : a ∉ visited) :
    (edges.countP fun edge => !decide (edge.1 ∈ a::visited)) +
      (edges.countP fun edge => decide (edge.1 = a)) =
        edges.countP fun edge => !decide (edge.1 ∈ visited) := by
  induction edges with
  | nil => rfl
  | cons edge edges ih =>
    simp only [List.countP_cons, List.mem_cons] at ih ⊢
    by_cases heq : edge.1 = a
    · simp only [heq, true_or, decide_true, Bool.not_true, ha, decide_false, Bool.not_false,
        Bool.false_eq_true, if_false, if_true]
      omega
    · simp only [heq, false_or, decide_false, Bool.false_eq_true, if_false]
      omega

theorem explore_ends {edges : List (α × α)}
    (hedges : ∀ a, (succ a).length ≤ edges.countP fun edge => decide (edge.1 = a)) {fuel : Nat}
    {stack visited : List α} (hfuel : work edges stack visited ≤ fuel) (result : List α) :
    ∃ found, explore succ fuel stack visited result = some found := by
  induction fuel generalizing stack visited result with
  | zero =>
    cases stack with
    | nil => exact ⟨result,rfl⟩
    | cons a stack => simp [work] at hfuel
  | succ fuel ih =>
    cases stack with
    | nil => exact ⟨result,rfl⟩
    | cons a stack =>
      unfold work at hfuel
      rw [List.length_cons] at hfuel
      by_cases ha : a ∈ visited
      · simp only [explore, if_pos ha]
        apply ih
        unfold work
        omega
      · simp only [explore, if_neg ha]
        apply ih
        have hcount := countP_visit edges ha
        have hsucc := hedges a
        unfold work
        rw [List.length_append]
        omega

theorem Explored.run {start : α} {fuel : Nat} {stack visited result found : List α}
    (h : Explored succ start stack visited result)
    (hrun : explore succ fuel stack visited result = some found) (a : α) :
    a ∈ found ↔ a ≠ start ∧ Relation.TransGen (Leads succ) start a := by
  induction fuel generalizing stack visited result with
  | zero =>
    cases stack with
    | nil =>
      cases hrun
      exact h.mem_iff a
    | cons b stack => cases hrun
  | succ fuel ih =>
    cases stack with
    | nil =>
      cases hrun
      exact h.mem_iff a
    | cons b stack =>
      by_cases hb : b ∈ visited
      · rw [explore, if_pos hb] at hrun
        exact ih (h.skip hb) hrun
      · rw [explore, if_neg hb] at hrun
        exact ih (h.visit hb) hrun

/-- What an exploration from the successors of an element finds. -/
theorem mem_explore_iff {start a : α} {fuel : Nat} {found : List α}
    (h : explore succ fuel (succ start) [start] [] = some found) :
    a ∈ found ↔ a ≠ start ∧ Relation.TransGen (Leads succ) start a := by
  apply Explored.run _ h
  refine ⟨by simp,List.not_mem_nil,fun b hb => ?_,fun b hb c hc => ?_⟩
  · rcases hb with hb | hb
    · cases hb
    · exact .single hb
  · rw [List.mem_singleton.mp hb] at hc
    exact .inr hc

section Spreading

/-- A new element joins the queue and the scope. -/
def enlist (found : List α × List α) (a : α) : List α × List α :=
  if a ∈ found.2 then found else (found.1 ++ [a],found.2 ++ [a])

variable (succ) in
/-- Takes fuel; the head of the list is the front of the queue. -/
def spread : Nat → List α → List α → Option (List α)
  | _, [], scope => some scope
  | 0, _::_, _ => none
  | n+1, current::queue, scope =>
    let grown := (succ current).foldl enlist (queue,scope)
    spread n grown.1 grown.2

theorem foldl_admit (as queue : List α) {scope : List α} (h : scope.Nodup) :
    ∃ new, as.foldl enlist (queue,scope) = (queue ++ new,scope ++ new) ∧
      (∀ a, a ∈ scope ++ new ↔ a ∈ scope ∨ a ∈ as) ∧ (scope ++ new).Nodup := by
  induction as generalizing queue scope with
  | nil => exact ⟨[],by simp,by simp,by simpa using h⟩
  | cons a as ih =>
    rw [List.foldl_cons]
    by_cases ha : a ∈ scope
    · obtain ⟨new,hnew,hmem,hnodup⟩ := ih queue h
      refine ⟨new,by rw [enlist, if_pos ha, hnew],fun b => ?_,hnodup⟩
      rw [hmem, List.mem_cons]
      constructor
      · exact Or.imp_right .inr
      · rintro (hb | rfl | hb)
        · exact .inl hb
        · exact .inl ha
        · exact .inr hb
    · have hgrown : (scope ++ [a]).Nodup := List.nodup_append.mpr
        ⟨h,List.nodup_singleton a,fun b hb c hc heq => ha (List.mem_singleton.mp hc ▸ heq ▸ hb)⟩
      obtain ⟨new,hnew,hmem,hnodup⟩ := ih (queue ++ [a]) hgrown
      rw [enlist, if_neg ha, hnew]
      refine ⟨a::new,by simp,fun b => ?_,by simpa using hnodup⟩
      have hb := hmem b
      simp only [List.append_assoc, List.singleton_append, List.mem_append, List.mem_singleton]
        at hb
      rw [List.mem_append, hb, List.mem_cons, or_assoc]

/-- How far a scope has spread: what came off the queue has its successors in the scope. -/
structure Spread (succ : α → List α) (start : α) (taken queue : List α) : Prop where
  once : (taken ++ queue).Nodup
  origin : start ∈ taken ++ queue
  reached : ∀ a ∈ taken ++ queue, Relation.ReflTransGen (Leads succ) start a
  closed : ∀ a ∈ taken, ∀ b ∈ succ a, b ∈ taken ++ queue

theorem Spread.take {start current : α} {taken queue : List α}
    (h : Spread succ start taken (current::queue)) :
    ∃ new, (succ current).foldl enlist (queue,taken ++ current::queue) =
        (queue ++ new,taken ++ current::queue ++ new) ∧
      Spread succ start (taken ++ [current]) (queue ++ new) := by
  obtain ⟨new,hnew,hmem,hnodup⟩ := foldl_admit (succ current) queue h.once
  have hscope : taken ++ [current] ++ (queue ++ new) = taken ++ current::queue ++ new := by simp
  refine ⟨new,hnew,hscope ▸ hnodup,?_,?_,?_⟩
  · rw [hscope]
    exact (hmem start).mpr (.inl h.origin)
  · rw [hscope]
    intro a ha
    rcases (hmem a).mp ha with hold | hsucc
    · exact h.reached a hold
    · exact (h.reached current (by simp)).tail hsucc
  · rw [hscope]
    intro a ha b hb
    rcases List.mem_append.mp ha with ha | ha
    · exact (hmem b).mpr (.inl (h.closed a ha b hb))
    · rw [List.mem_singleton.mp ha] at hb
      exact (hmem b).mpr (.inr hb)

omit [DecidableEq α] in
theorem mem_of_reached {nodes : List α} (hnodes : ∀ a ∈ nodes, ∀ b ∈ succ a, b ∈ nodes)
    {start a : α} (hstart : start ∈ nodes)
    (hpath : Relation.ReflTransGen (Leads succ) start a) : a ∈ nodes := by
  induction hpath with
  | refl => exact hstart
  | tail _ hstep ih => exact hnodes _ ih _ hstep

omit [DecidableEq α] in
theorem Spread.mem_of_path {start a : α} {taken : List α} (h : Spread succ start taken [])
    (hpath : Relation.ReflTransGen (Leads succ) start a) : a ∈ taken := by
  have hclosed : ∀ b ∈ taken, ∀ c ∈ succ b, c ∈ taken := by
    intro b hb c hc
    simpa using h.closed b hb c hc
  exact mem_of_reached hclosed (by simpa using h.origin) hpath

/-- A scope that stays among some nodes is complete within a round for each of them. -/
theorem Spread.run {nodes : List α} (hnodes : ∀ a ∈ nodes, ∀ b ∈ succ a, b ∈ nodes) {start : α}
    (hstart : start ∈ nodes) {fuel : Nat} {taken queue : List α}
    (h : Spread succ start taken queue) (hfuel : nodes.length ≤ fuel + taken.length) :
    ∃ scope, (∀ more, spread succ (fuel + more) queue (taken ++ queue) = some scope) ∧
      ∀ a, a ∈ scope ↔ Relation.ReflTransGen (Leads succ) start a := by
  induction fuel generalizing taken queue with
  | zero =>
    cases queue with
    | nil =>
      rw [List.append_nil]
      refine ⟨taken,fun more => by cases more <;> rfl,fun a => ?_⟩
      exact ⟨fun ha => h.reached a (by simpa using ha),fun hpath => h.mem_of_path hpath⟩
    | cons current queue =>
      have hsub : taken ++ current::queue ⊆ nodes := by
        intro a ha
        exact mem_of_reached hnodes hstart (h.reached a ha)
      have hlength := h.once.length_le_of_subset hsub
      simp only [List.length_append, List.length_cons] at hlength
      omega
  | succ fuel ih =>
    cases queue with
    | nil =>
      rw [List.append_nil]
      refine ⟨taken,fun more => by rw [Nat.succ_add]; rfl,fun a => ?_⟩
      exact ⟨fun ha => h.reached a (by simpa using ha),fun hpath => h.mem_of_path hpath⟩
    | cons current queue =>
      obtain ⟨new,hnew,hspread⟩ := h.take
      obtain ⟨scope,hrun,hmem⟩ := ih hspread (by
        rw [List.length_append, List.length_singleton]
        omega)
      refine ⟨scope,fun more => ?_,hmem⟩
      rw [Nat.succ_add, spread, hnew, ← hrun more]
      simp

theorem gives_spread {nodes : List α} (hnodes : ∀ a ∈ nodes, ∀ b ∈ succ a, b ∈ nodes) {start : α}
    (hstart : start ∈ nodes) : ∃ scope, Gives (spread succ · [start] [start]) scope ∧
      ∀ a, a ∈ scope ↔ Relation.ReflTransGen (Leads succ) start a := by
  have h : Spread succ start [] [start] := by
    refine ⟨by simp,by simp,fun a ha => ?_,fun a ha => absurd ha List.not_mem_nil⟩
    rw [List.mem_singleton.mp ha]
  obtain ⟨scope,hrun,hmem⟩ := h.run hnodes hstart (Nat.le_add_right nodes.length _)
  exact ⟨scope,Gives.of_more hrun,hmem⟩

end Spreading

end NexusEtl.Library
