import NexusEtl.Library.Acyclic
import NexusEtl.Library.Dict
import NexusEtl.Library.Reach

/-!
# Sorting by predecessors

The sort counts for every element the predecessors that it waits for, takes an
element that waits for none from a queue and releases those that wait for it. It
takes a round for an element at most, and what it gives is complete exactly if
there is no cycle.
-/

set_option autoImplicit false

namespace NexusEtl.Library

variable {α : Type} [DecidableEq α]

structure Sorting (α : Type) where
  indegree : Dict α Int
  queue : List α
  ordered : List α

/-- One predecessor less to wait for. -/
def release (s : Sorting α) (next : α) : Sorting α :=
  let left := (Dict.get? s.indegree next).getD 0 - 1
  { s with
    indegree := Dict.set s.indegree next left
    queue := if left = 0 then s.queue ++ [next] else s.queue }

/-- Takes fuel; nothing comes of it when the fuel is used up. -/
def sortLoop (edges : Dict α (List α)) : Nat → Sorting α → Option (List α)
  | _, ⟨_,[],ordered⟩ => some ordered
  | 0, ⟨_,_::_,_⟩ => none
  | n+1, ⟨indegree,current::queue,ordered⟩ =>
    sortLoop edges n (((Dict.get? edges current).getD []).foldl release
      ⟨indegree,queue,ordered ++ [current]⟩)

theorem foldl_release {nexts : List α} (h : nexts.Nodup) (s : Sorting α) :
    (nexts.foldl release s).ordered = s.ordered ∧
      (nexts.foldl release s).queue = s.queue ++
        nexts.filter (fun n => decide ((Dict.get? s.indegree n).getD 0 = 1)) ∧
      ∀ n, (Dict.get? (nexts.foldl release s).indegree n).getD 0 =
        (Dict.get? s.indegree n).getD 0 - if n ∈ nexts then 1 else 0 := by
  induction nexts generalizing s with
  | nil => simp
  | cons next nexts ih =>
    obtain ⟨hnew,hrest⟩ := List.nodup_cons.mp h
    obtain ⟨hordered,hqueue,hcount⟩ := ih hrest (release s next)
    have hget : ∀ n, (Dict.get? (release s next).indegree n).getD 0 =
        (Dict.get? s.indegree n).getD 0 - if next = n then 1 else 0 := by
      intro n
      simp only [release, Dict.get?_set]
      split
      · rename_i heq
        rw [heq]
        rfl
      · rw [Int.sub_zero]
    have hsame : nexts.filter
        (fun n => decide ((Dict.get? (release s next).indegree n).getD 0 = 1)) =
        nexts.filter fun n => decide ((Dict.get? s.indegree n).getD 0 = 1) := by
      apply List.filter_congr
      intro n hn
      have hne : next ≠ n := fun heq => hnew (heq ▸ hn)
      rw [hget, if_neg hne, Int.sub_zero]
    rw [List.foldl_cons]
    refine ⟨hordered,?_,fun n => ?_⟩
    · rw [hqueue, hsame, List.filter_cons]
      simp only [release]
      by_cases hone : (Dict.get? s.indegree next).getD 0 = 1
      · simp [hone]
      · have hleft : ¬(Dict.get? s.indegree next).getD 0 - 1 = 0 := by omega
        simp [hone, hleft]
    · rw [hcount, hget]
      by_cases heq : next = n
      · subst heq
        simp [hnew]
      · simp [heq, Ne.symm heq]

theorem idxOf_lt_of_sublist {l : List α} (h : l.Nodup) {a b : α} (hab : List.Sublist [a,b] l) :
    l.idxOf a < l.idxOf b := by
  induction l with
  | nil => cases hab
  | cons x l ih =>
    obtain ⟨hx,hl⟩ := List.nodup_cons.mp h
    cases hab with
    | cons _ hab =>
      have hax : x ≠ a := fun heq => hx (heq ▸ hab.subset List.mem_cons_self)
      have hbx : x ≠ b := fun heq => hx (heq ▸ hab.subset (.tail _ List.mem_cons_self))
      rw [List.idxOf_cons_ne _ hax, List.idxOf_cons_ne _ hbx]
      exact Nat.succ_lt_succ (ih hl hab)
    | cons_cons _ hb =>
      have hbx : a ≠ b := fun heq => hx (heq ▸ hb.subset List.mem_cons_self)
      rw [List.idxOf_cons_self, List.idxOf_cons_ne _ hbx]
      exact Nat.succ_pos _

section Run

variable {nodes : List α} {preds : α → List α} {edges : Dict α (List α)}

/-- The nodes, their predecessors and the index of who waits for whom. -/
structure Indexed (nodes : List α) (preds : α → List α) (edges : Dict α (List α)) : Prop where
  distinct : nodes.Nodup
  known : ∀ n ∈ nodes, ∀ p ∈ preds n, p ∈ nodes
  once : ∀ n, (preds n).Nodup
  edge : ∀ p n, n ∈ (Dict.get? edges p).getD [] ↔ n ∈ nodes ∧ p ∈ preds n
  edgeOnce : ∀ p, ((Dict.get? edges p).getD []).Nodup

/-- How far a sort has come: ready or taken are the nodes that wait for none, and what is taken
stands after its predecessors. -/
structure Sorted (nodes : List α) (preds : α → List α) (s : Sorting α) : Prop where
  waits : ∀ n ∈ nodes, (Dict.get? s.indegree n).getD 0 =
    (preds n).countP fun p => !decide (p ∈ s.ordered)
  ready : ∀ n, n ∈ s.queue ∨ n ∈ s.ordered ↔ n ∈ nodes ∧ ∀ p ∈ preds n, p ∈ s.ordered
  once : (s.queue ++ s.ordered).Nodup
  before : ∀ n ∈ s.ordered, ∀ p ∈ preds n, List.Sublist [p,n] s.ordered

theorem countP_concat {l : List α} (h : l.Nodup) {taken : List α} {current : α}
    (hnew : current ∉ taken) :
    ((l.countP fun p => !decide (p ∈ taken ++ [current])) : Int) =
      (l.countP fun p => !decide (p ∈ taken)) - if current ∈ l then 1 else 0 := by
  induction l with
  | nil => simp
  | cons p l ih =>
    obtain ⟨hp,hl⟩ := List.nodup_cons.mp h
    have hrest := ih hl
    by_cases heq : p = current
    · subst heq
      simp only [List.countP_cons, List.mem_append, or_true, decide_true,
        Bool.not_true, Bool.false_eq_true, if_false, hnew, decide_false, Bool.not_false, if_true,
        List.mem_cons, true_or, hp] at hrest ⊢
      omega
    · have hne : ¬current = p := fun h => heq h.symm
      have hsame : decide (p ∈ taken ++ [current]) = decide (p ∈ taken) := by simp [heq]
      simp only [List.countP_cons, hsame, List.mem_cons, hne, false_or]
      push_cast
      omega

/-- One round: the first ready node is taken and releases the nodes that wait for it. -/
theorem Sorted.take (hindex : Indexed nodes preds edges) {indegree : Dict α Int} {current : α}
    {queue ordered : List α} (h : Sorted nodes preds ⟨indegree,current::queue,ordered⟩) :
    Sorted nodes preds (((Dict.get? edges current).getD []).foldl release
      ⟨indegree,queue,ordered ++ [current]⟩) := by
  obtain ⟨hordered,hqueue,hcount⟩ := foldl_release (hindex.edgeOnce current)
    ⟨indegree,queue,ordered ++ [current]⟩
  have hnodup := List.nodup_append.mp h.once
  obtain ⟨hfirst,hrestq⟩ := List.nodup_cons.mp hnodup.1
  have hfresh : current ∉ ordered :=
    fun hmem => hnodup.2.2 current List.mem_cons_self current hmem rfl
  have hcurrent := (h.ready current).mp (.inl List.mem_cons_self)
  have hleft : ∀ n ∈ nodes, (Dict.get? indegree n).getD 0 - (if current ∈ preds n then 1 else 0) =
      ((preds n).countP fun p => !decide (p ∈ ordered ++ [current]) : Int) := by
    intro n hn
    rw [countP_concat (hindex.once n) hfresh, h.waits n hn]
  have hzero : ∀ n, ((preds n).countP fun p => !decide (p ∈ ordered ++ [current])) = 0 ↔
      ∀ p ∈ preds n, p ∈ ordered ++ [current] := by
    intro n
    rw [List.countP_eq_zero]
    simp only [Bool.not_eq_true, Bool.not_eq_false', decide_eq_true_eq]
  have hreleased : ∀ n, n ∈ ((Dict.get? edges current).getD []).filter
      (fun n => decide ((Dict.get? indegree n).getD 0 = 1)) ↔
        n ∈ nodes ∧ current ∈ preds n ∧ ∀ p ∈ preds n, p ∈ ordered ++ [current] := by
    intro n
    rw [List.mem_filter, hindex.edge, decide_eq_true_eq, and_assoc]
    refine and_congr_right fun hn => and_congr_right fun hpred => ?_
    have hcountn := hleft n hn
    rw [if_pos hpred] at hcountn
    rw [← hzero]
    omega
  refine ⟨fun n hn => ?_,fun n => ?_,?_,?_⟩
  · rw [hcount, hordered, ← hleft n hn]
    simp only [hindex.edge, hn, true_and]
  · rw [hqueue, hordered, List.mem_append, hreleased]
    have hold := h.ready n
    constructor
    · rintro ((hq | ⟨hn,_,hall⟩) | ho)
      · obtain ⟨hn,hall⟩ := hold.mp (.inl (.tail _ hq))
        exact ⟨hn,fun p hp => List.mem_append_left _ (hall p hp)⟩
      · exact ⟨hn,hall⟩
      · rcases List.mem_append.mp ho with ho | ho
        · obtain ⟨hn,hall⟩ := hold.mp (.inr ho)
          exact ⟨hn,fun p hp => List.mem_append_left _ (hall p hp)⟩
        · rw [List.mem_singleton.mp ho]
          exact ⟨hcurrent.1,fun p hp => List.mem_append_left _ (hcurrent.2 p hp)⟩
    · rintro ⟨hn,hall⟩
      by_cases hpred : current ∈ preds n
      · exact .inl (.inr ⟨hn,hpred,hall⟩)
      · have hbefore : ∀ p ∈ preds n, p ∈ ordered := by
          intro p hp
          rcases List.mem_append.mp (hall p hp) with ho | ho
          · exact ho
          · exact absurd (List.mem_singleton.mp ho ▸ hp) hpred
        rcases hold.mpr ⟨hn,hbefore⟩ with hq | ho
        · rcases List.mem_cons.mp hq with rfl | hq
          · exact .inr (List.mem_append_right _ (List.mem_singleton_self _))
          · exact .inl (.inl hq)
        · exact .inr (List.mem_append_left _ ho)
  · rw [hqueue, hordered]
    have hnotyet : ∀ n ∈ ((Dict.get? edges current).getD []).filter
        (fun n => decide ((Dict.get? indegree n).getD 0 = 1)),
        ¬(n ∈ current::queue ∨ n ∈ ordered) := by
      intro n hn hold
      exact hfresh (((h.ready n).mp hold).2 current ((hreleased n).mp hn).2.1)
    refine List.nodup_append.mpr ⟨List.nodup_append.mpr ⟨hrestq,(hindex.edgeOnce _).filter _,?_⟩,
      List.nodup_append.mpr ⟨hnodup.2.1,List.nodup_singleton _,?_⟩,?_⟩
    · exact fun a ha b hb heq => hnotyet b hb (.inl (.tail _ (heq ▸ ha)))
    · exact fun a ha b hb heq => hfresh (List.mem_singleton.mp hb ▸ heq ▸ ha)
    · intro a ha b hb heq
      subst heq
      rcases List.mem_append.mp ha with ha | ha
      · rcases List.mem_append.mp hb with hb | hb
        · exact hnodup.2.2 a (.tail _ ha) a hb rfl
        · exact hfirst (List.mem_singleton.mp hb ▸ ha)
      · apply hnotyet a ha
        rcases List.mem_append.mp hb with hb | hb
        · exact .inr hb
        · rw [List.mem_singleton.mp hb]
          exact .inl List.mem_cons_self
  · rw [hordered]
    intro n hn p hp
    rcases List.mem_append.mp hn with hn | hn
    · exact (h.before n hn p hp).trans (List.sublist_append_left _ _)
    · rw [List.mem_singleton.mp hn] at hp ⊢
      exact (List.singleton_sublist.mpr (hcurrent.2 p hp)).append (List.Sublist.refl [current])

/-- The loop ends within a round for every node that is not yet taken. -/
theorem Sorted.run (hindex : Indexed nodes preds edges) {s : Sorting α}
    (h : Sorted nodes preds s) {fuel : Nat} (hfuel : nodes.length ≤ fuel + s.ordered.length) :
    ∃ indegree ordered, Sorted nodes preds ⟨indegree,[],ordered⟩ ∧
      ∀ more, sortLoop edges (fuel + more) s = some ordered := by
  induction fuel generalizing s with
  | zero =>
    obtain ⟨indegree,queue,ordered⟩ := s
    cases queue with
    | nil =>
      refine ⟨indegree,ordered,h,fun more => ?_⟩
      cases more <;> rfl
    | cons current queue =>
      have hsub : current::queue ++ ordered ⊆ nodes := by
        intro n hn
        exact ((h.ready n).mp (List.mem_append.mp hn)).1
      have hlength := h.once.length_le_of_subset hsub
      simp only [List.length_append, List.length_cons] at hlength hfuel
      omega
  | succ fuel ih =>
    obtain ⟨indegree,queue,ordered⟩ := s
    cases queue with
    | nil =>
      refine ⟨indegree,ordered,h,fun more => ?_⟩
      rw [Nat.succ_add]
      rfl
    | cons current queue =>
      obtain ⟨hordered,_⟩ := foldl_release (hindex.edgeOnce current)
        ⟨indegree,queue,ordered ++ [current]⟩
      have hnext : nodes.length ≤ fuel + (((Dict.get? edges current).getD []).foldl release
          ⟨indegree,queue,ordered ++ [current]⟩).ordered.length := by
        rw [hordered, List.length_append, List.length_singleton]
        simp only at hfuel
        omega
      obtain ⟨indegree',ordered',hsorted,hrun⟩ := ih (h.take hindex) hnext
      refine ⟨indegree',ordered',hsorted,fun more => ?_⟩
      rw [Nat.succ_add]
      exact hrun more

theorem Sorted.gives (hindex : Indexed nodes preds edges) {s : Sorting α}
    (h : Sorted nodes preds s) : ∃ indegree ordered,
      Sorted nodes preds ⟨indegree,[],ordered⟩ ∧ Gives (sortLoop edges · s) ordered := by
  obtain ⟨indegree,ordered,hsorted,hrun⟩ := h.run hindex (Nat.le_add_right nodes.length _)
  exact ⟨indegree,ordered,hsorted,Gives.of_more hrun⟩

/-- What is left at the end has a cycle. -/
theorem Sorted.complete_iff (hindex : Indexed nodes preds edges) {indegree : Dict α Int}
    {ordered : List α} (h : Sorted nodes preds ⟨indegree,[],ordered⟩) :
    ordered.length = nodes.length ↔ Acyclic fun n p => n ∈ nodes ∧ p ∈ preds n := by
  have hnodup : ordered.Nodup := h.once
  have hsub : ordered ⊆ nodes := fun n hn => ((h.ready n).mp (.inr hn)).1
  constructor
  · intro hlength
    have hall : ∀ n ∈ nodes, n ∈ ordered := by
      have hperm := (hnodup.subperm hsub).perm_of_length_le hlength.ge
      exact fun n hn => hperm.mem_iff.mpr hn
    apply Acyclic.flip (r := fun p n => n ∈ nodes ∧ p ∈ preds n)
    apply Acyclic.of_wellFounded
    apply Subrelation.wf _ (InvImage.wf ordered.idxOf Nat.lt_wfRel.wf)
    intro p n hedge
    exact idxOf_lt_of_sublist hnodup (h.before n (hall n hedge.1) p hedge.2)
  · intro hacyclic
    have hwf := hacyclic.flip.wellFounded (List.finite_toSet nodes) fun p n hedge =>
      ⟨hindex.known n hedge.1 p hedge.2,hedge.1⟩
    have hall : ∀ n, n ∈ nodes → n ∈ ordered := by
      intro n
      induction n using hwf.induction with
      | _ n ih =>
        intro hn
        have hready := (h.ready n).mpr
          ⟨hn,fun p hp => ih p ⟨hn,hp⟩ (hindex.known n hn p hp)⟩
        exact hready.resolve_left List.not_mem_nil
    exact Nat.le_antisymm (hnodup.length_le_of_subset hsub)
      (hindex.distinct.length_le_of_subset fun n hn => hall n hn)

end Run
end NexusEtl.Library
