import Mathlib.Data.List.Infix
import NexusEtl.PipelineOrchestrator

/-!
# Cutting a stream into batches

Batches are flushed by their size, by their age and at the end of the stream, and
several are open at once if there is a key. In every run, also one that raises or
is given up, no batch is empty, too large or of two keys, and what the batches
hold is what the stream began with, key by key. Nothing is missing once the
stream has ended.
-/

set_option autoImplicit false

namespace NexusEtl.Pipeline
open NexusEtl.Library

variable {W ε T K : Type} [DecidableEq K]

/-- The batches are not empty and hold so many items at most. -/
def Sized (size : Nat) (batches : List (List T)) : Prop :=
  ∀ batch ∈ batches, batch ≠ [] ∧ batch.length ≤ size

def SingleKey (key : T → K) (batches : List (List T)) : Prop :=
  ∀ batch ∈ batches, ∃ k, ∀ x ∈ batch, key x = k

theorem sized_nil (size : Nat) : Sized size ([] : List (List T)) :=
  fun _ h => absurd h List.not_mem_nil

theorem sized_cons {size : Nat} {batch : List T} {batches : List (List T)} (hne : batch ≠ [])
    (hlength : batch.length ≤ size) (h : Sized size batches) : Sized size (batch::batches) :=
  List.forall_mem_cons.mpr ⟨⟨hne,hlength⟩,h⟩

/-- With these items held back, the batches begin what is held and what comes. -/
def Batched (size : Nat) (held xs : List T) (batches : List (List T)) : Prop :=
  held.length < size → Sized size batches ∧ batches.flatten <+: held ++ xs

theorem batched_nil (size : Nat) (held xs : List T) : Batched size held xs [] :=
  fun _ => ⟨sized_nil size,List.nil_prefix⟩

/-- What is held is handed out. -/
theorem Batched.handed {size : Nat} (hsize : 0 < size) {held batch xs ys : List T}
    {batches : List (List T)} (h : Batched size [] xs batches) (hne : batch ≠ [])
    (hlength : held.length < size → batch.length ≤ size) (hitems : batch ++ xs = held ++ ys) :
    Batched size held ys (batch::batches) := by
  intro hroom
  obtain ⟨hsized,hbegun⟩ := h hsize
  refine ⟨sized_cons hne (hlength hroom) hsized,?_⟩
  rw [List.flatten_cons, ← hitems]
  exact (List.prefix_append_right_inj batch).mpr (by simpa using hbegun)

/-- What is held at the end is the last batch. -/
theorem batched_ended {size : Nat} (hsize : 0 < size) {held : List T} {batches : List (List T)}
    (h : (if held.isEmpty then .done else .yield held id .done : Gen W ε (List T)).Begins batches) :
    Batched size held [] batches := by
  by_cases hempty : held.isEmpty
  · rw [if_pos hempty] at h
    obtain rfl : batches = [] := h
    exact batched_nil size held []
  · rw [if_neg hempty] at h
    obtain rfl | ⟨m,rfl,hm⟩ := h
    · exact batched_nil size held []
    · obtain rfl : m = [] := hm
      exact (batched_nil size [] []).handed hsize (by simpa using hempty) (fun h => h.le) rfl

/-- An item joins what is held, which is handed out when it is full. -/
theorem batched_joined {size : Nat} (hsize : 0 < size) {p : List T → Prop} {held : List T}
    {item : T} {close : W → W} {full room : Gen W ε (List T)} {batches : List (List T)}
    (h : (if size ≤ (held ++ [item]).length then .yield (held ++ [item]) close full
      else room : Gen W ε (List T)).Begins batches)
    (hfull : ∀ batches, full.Begins batches → ∃ xs, p xs ∧ Batched size [] xs batches)
    (hroom : ∀ batches, room.Begins batches →
      ∃ xs, p xs ∧ Batched size (held ++ [item]) xs batches) :
    ∃ xs, p xs ∧ Batched size held (item::xs) batches := by
  split at h
  · obtain rfl | ⟨m,rfl,hm⟩ := h
    · obtain ⟨xs,hxs,_⟩ := hfull [] (Gen.begins_nil _)
      exact ⟨xs,hxs,batched_nil size held (item::xs)⟩
    · obtain ⟨xs,hxs,hbatched⟩ := hfull m hm
      refine ⟨xs,hxs,hbatched.handed hsize (by simp) (fun h => ?_) (by simp)⟩
      rw [List.length_append]
      exact h
  · rename_i hfits
    obtain ⟨xs,hxs,hbatched⟩ := hroom batches h
    refine ⟨xs,hxs,fun _ => ?_⟩
    simpa using hbatched (not_le.mp hfits)

section Fixed

/-- What a run without a key has handed out so far. -/
theorem begins_fixedBatches {size : Nat} (hsize : 0 < size) {stream : Gen W ε T}
    {batches : List (List T)} (h : (fixedBatches size stream).Begins batches) :
    Sized size batches ∧ ∃ xs, stream.Begins xs ∧ batches.flatten <+: xs := by
  obtain ⟨xs,hxs,hbatched⟩ : ∃ xs, stream.Begins xs ∧ Batched size [] xs batches := by
    apply Gen.begins_loop (r := Batched size) _ _ _ _ h
    · exact fun held => batched_nil size held []
    · exact fun held _ hys => batched_ended hsize hys
    · rintro held e _ rfl
      exact batched_nil size held []
    · intro held item close next p hnext ys hys
      exact batched_joined hsize hys (hnext []) (hnext _)
  obtain ⟨hsized,hbegun⟩ := hbatched hsize
  exact ⟨hsized,xs,hxs,hbegun⟩

end Fixed

section Timed

theorem MicroBatch.filled_of_flushDue {batch : MicroBatch T} {interval : Int} {now : Rat}
    (h : batch.flushDue interval now = true) : batch.items ≠ [] := by
  intro hempty
  rw [MicroBatch.flushDue, hempty] at h
  revert h
  cases batch.openedAt with
  | some openedAt => simp
  | none => simp

/-- What a run with a flush interval has handed out so far. -/
theorem begins_microBatchLoop {size : Nat} (hsize : 0 < size) {interval : Int} {clock : Nat → Rat}
    {stream : Gen W ε T} {batches : List (List T)}
    (h : (Gen.loop (microBatchLoop size interval clock) stream (⟨[],none⟩,0)).Begins batches) :
    Sized size batches ∧ ∃ xs, stream.Begins xs ∧ batches.flatten <+: xs := by
  obtain ⟨xs,hxs,hbatched⟩ : ∃ xs, stream.Begins xs ∧ Batched size [] xs batches := by
    apply Gen.begins_loop (r := fun s => Batched size s.1.items) _ _ _ _ h
    · exact fun s => batched_nil size _ []
    · exact fun s _ hys => batched_ended hsize hys
    · rintro s e _ rfl
      exact batched_nil size _ []
    · intro s item close next p hnext ys hys
      simp only [microBatchLoop] at hys
      by_cases hdue : s.1.flushDue interval (clock s.2)
      · -- the age empties the batch before the item joins it
        simp only [if_pos hdue] at hys
        obtain rfl | ⟨m,rfl,hm⟩ := hys
        · obtain ⟨xs,hxs,_⟩ := hnext (⟨[],none⟩,0) [] (Gen.begins_nil _)
          exact ⟨xs,hxs,batched_nil size _ _⟩
        · obtain ⟨xs,hxs,hbatched⟩ := batched_joined hsize hm (hnext _) (hnext _)
          exact ⟨xs,hxs,hbatched.handed hsize (MicroBatch.filled_of_flushDue hdue)
            (fun h => h.le) rfl⟩
      · rw [Bool.not_eq_true] at hdue
        simp only [hdue, Bool.false_eq_true, if_false] at hys
        exact batched_joined hsize hys (hnext _) (hnext _)
  obtain ⟨hsized,hbegun⟩ := hbatched hsize
  exact ⟨hsized,xs,hxs,hbegun⟩

end Timed

section ByKey

/-- The buckets are filed by their keys and have room. -/
structure Roomy (size : Nat) (key : T → K) (buckets : Dict K (List T)) : Prop
    extends Filed key buckets where
  room : ∀ k, ((Dict.get? buckets k).getD []).length < size

theorem Roomy.set {size : Nat} {key : T → K} {buckets : Dict K (List T)}
    (h : Roomy size key buckets) {k : K} {bucket : List T} (hbucket : ∀ x ∈ bucket, key x = k)
    (hroom : bucket.length < size) : Roomy size key (Dict.set buckets k bucket) := by
  refine ⟨h.toFiled.set hbucket,fun k' => ?_⟩
  rw [Dict.get?_set]
  by_cases hk : k = k'
  · rw [if_pos hk]
    exact hroom
  · rw [if_neg hk]
    exact h.room k'

/-- The batches are well-formed, and under each key they begin what is there. -/
def BeginsKeyed (size : Nat) (key : T → K) (buckets : Dict K (List T)) (xs : List T)
    (batches : List (List T)) : Prop :=
  Sized size batches ∧ SingleKey key batches ∧
    ∀ k, batches.flatten.filter (fun x => decide (key x = k)) <+:
      (Dict.get? buckets k).getD [] ++ xs.filter fun x => decide (key x = k)

theorem beginsKeyed_nil (size : Nat) (key : T → K) (buckets : Dict K (List T)) (xs : List T) :
    BeginsKeyed size key buckets xs [] :=
  ⟨sized_nil size,fun _ h => absurd h List.not_mem_nil,fun _ => List.nil_prefix⟩

/-- The buckets that are left at the end. -/
theorem beginsKeyed_values {size : Nat} {key : T → K} {buckets : Dict K (List T)}
    (h : Roomy size key buckets) {batches : List (List T)}
    (hbatches : batches <+: (Dict.values buckets).filter fun b => !b.isEmpty) :
    BeginsKeyed size key buckets [] batches := by
  have hbucket : ∀ batch ∈ batches, batch ≠ [] ∧ ∃ k, Dict.get? buckets k = some batch := by
    intro batch hbatch
    obtain ⟨hmem,hfilled⟩ := List.mem_filter.mp (hbatches.mem hbatch)
    obtain ⟨⟨k,_⟩,hentry,rfl⟩ := List.mem_map.mp hmem
    exact ⟨by simpa using hfilled,k,(Dict.mem_iff_get? h.distinct).mp hentry⟩
  refine ⟨fun batch hbatch => ?_,fun batch hbatch => ?_,fun k => ?_⟩
  · obtain ⟨hne,k,hk⟩ := hbucket batch hbatch
    have hroom := h.room k
    rw [hk] at hroom
    exact ⟨hne,hroom.le⟩
  · obtain ⟨_,k,hk⟩ := hbucket batch hbatch
    exact ⟨k,fun x hx => h.own k x (by rw [hk]; exact hx)⟩
  · have hbegun := (List.IsPrefix.flatten hbatches).filter fun x => decide (key x = k)
    rw [List.flatten_filter_not_isEmpty, h.toFiled.filter_values] at hbegun
    simpa using hbegun

/-- A bucket that is full is handed out, and its key begins anew. -/
theorem BeginsKeyed.full {size : Nat} {key : T → K} {buckets : Dict K (List T)} {item : T}
    {xs : List T} {batches : List (List T)}
    (h : BeginsKeyed size key (Dict.set buckets (key item) []) xs batches)
    (hown : ∀ x ∈ (Dict.get? buckets (key item)).getD [] ++ [item], key x = key item)
    (hroom : ((Dict.get? buckets (key item)).getD []).length < size) :
    BeginsKeyed size key buckets (item::xs)
      (((Dict.get? buckets (key item)).getD [] ++ [item])::batches) := by
  obtain ⟨hsized,hsingle,hbegun⟩ := h
  refine ⟨sized_cons (by simp) (by rw [List.length_append]; exact hroom) hsized,
    List.forall_mem_cons.mpr ⟨⟨key item,hown⟩,hsingle⟩,fun k => ?_⟩
  have hrest := hbegun k
  rw [Dict.get?_set] at hrest
  rw [List.flatten_cons, List.filter_append]
  by_cases hk : key item = k
  · subst hk
    rw [if_pos rfl] at hrest
    rw [List.filter_eq_self.mpr fun x hx => decide_eq_true (hown x hx),
      List.filter_cons_of_pos (by simp), List.append_assoc]
    simpa using hrest
  · rw [if_neg hk] at hrest
    have hnone : ((Dict.get? buckets (key item)).getD [] ++ [item]).filter
        (fun x => decide (key x = k)) = [] := List.filter_eq_nil_iff.mpr fun x hx hx' =>
      hk ((hown x hx).symm.trans (of_decide_eq_true hx'))
    rw [hnone, List.nil_append, List.filter_cons_of_neg (by simp [hk])]
    exact hrest

/-- A bucket that has room keeps the item. -/
theorem BeginsKeyed.kept {size : Nat} {key : T → K} {buckets : Dict K (List T)} {item : T}
    {xs : List T} {batches : List (List T)}
    (h : BeginsKeyed size key (Dict.set buckets (key item)
      ((Dict.get? buckets (key item)).getD [] ++ [item])) xs batches) :
    BeginsKeyed size key buckets (item::xs) batches := by
  refine ⟨h.1,h.2.1,fun k => ?_⟩
  have hrest := h.2.2 k
  rw [Dict.get?_set] at hrest
  by_cases hk : key item = k
  · subst hk
    rw [if_pos rfl] at hrest
    rw [List.filter_cons_of_pos (by simp)]
    simpa using hrest
  · rw [if_neg hk] at hrest
    rw [List.filter_cons_of_neg (by simp [hk])]
    exact hrest

/-- What a run with a key has handed out so far. -/
theorem begins_keyedBatches {size : Nat} (hsize : 0 < size) {key : T → K} {stream : Gen W ε T}
    {batches : List (List T)} (h : (keyedBatches size key stream).Begins batches) :
    Sized size batches ∧ SingleKey key batches ∧ ∃ xs, stream.Begins xs ∧
      ∀ k, batches.flatten.filter (fun x => decide (key x = k)) <+:
        xs.filter fun x => decide (key x = k) := by
  obtain ⟨xs,hxs,heq⟩ : ∃ xs, stream.Begins xs ∧ (Roomy size key [] →
      BeginsKeyed size key [] xs batches) := by
    apply Gen.begins_loop (r := fun buckets xs batches => Roomy size key buckets →
      BeginsKeyed size key buckets xs batches) _ _ _ _ h
    · exact fun buckets _ => beginsKeyed_nil size key buckets []
    · exact fun buckets ys hys hroomy => beginsKeyed_values hroomy (Gen.begins_ofList hys)
    · rintro buckets e _ rfl _
      exact beginsKeyed_nil size key buckets []
    · intro buckets item close next p hnext ys hys
      have hown : Roomy size key buckets → ∀ x ∈ (Dict.get? buckets (key item)).getD [] ++ [item],
          key x = key item := by
        intro hroomy x hx
        rcases List.mem_append.mp hx with hx | hx
        · exact hroomy.own _ x hx
        · rw [List.mem_singleton.mp hx]
      dsimp only at hys
      split at hys
      · obtain rfl | ⟨m,rfl,hm⟩ := hys
        · obtain ⟨xs,hxs,_⟩ := hnext [] [] (Gen.begins_nil _)
          exact ⟨xs,hxs,fun _ => beginsKeyed_nil size key buckets _⟩
        · obtain ⟨xs,hxs,heq⟩ := hnext _ m hm
          refine ⟨xs,hxs,fun hroomy => ?_⟩
          exact (heq (hroomy.set (by simp) hsize)).full (hown hroomy) (hroomy.room _)
      · rename_i hroom
        obtain ⟨xs,hxs,heq⟩ := hnext _ ys hys
        exact ⟨xs,hxs,fun hroomy =>
          (heq (hroomy.set (hown hroomy) (not_le.mp hroom))).kept⟩
  obtain ⟨hsized,hsingle,hbegun⟩ := heq
    ⟨⟨List.nodup_nil,fun _ _ hx => by simp at hx⟩,fun _ => hsize⟩
  exact ⟨hsized,hsingle,xs,hxs,fun k => by simpa using hbegun k⟩

end ByKey

/-- In every run the batches are not empty, not too large and of one key if there is one, and what
they hold is what the stream began with, in its order, or in that of each key. In a run that ends
it is all that the stream handed out. -/
theorem batches_partition (stream : Gen W ε T) {size : Int} (hsize : 0 < size) :
    (∀ batches, (bufferIntoBatches size (none : Option (T → K)) stream).Begins batches →
      Sized size.toNat batches ∧ (∃ xs, stream.Begins xs ∧ batches.flatten <+: xs) ∧
      ((bufferIntoBatches size (none : Option (T → K)) stream).Hands batches →
        stream.Hands batches.flatten)) ∧
    (∀ (key : T → K) batches, (bufferIntoBatches size (some key) stream).Begins batches →
      Sized size.toNat batches ∧ SingleKey key batches ∧
      (∃ xs, stream.Begins xs ∧ ∀ k, batches.flatten.filter (fun x => decide (key x = k)) <+:
        xs.filter fun x => decide (key x = k)) ∧
      ((bufferIntoBatches size (some key) stream).Hands batches →
        ∃ xs, stream.Hands xs ∧ batches.flatten.Perm xs ∧ KeptPerKey key xs batches.flatten)) ∧
    ∀ interval clock batches, (microBatches size interval clock stream).Begins batches →
      Sized size.toNat batches ∧ (∃ xs, stream.Begins xs ∧ batches.flatten <+: xs) ∧
      ((microBatches size interval clock stream).Hands batches →
        stream.Hands batches.flatten) := by
  have hpositive : 0 < size.toNat := by omega
  have hcut : (if 0 < size then size.toNat else 1) = size.toNat := if_pos hsize
  simp only [bufferIntoBatches, microBatches, hcut]
  refine ⟨fun batches h => ?_,fun key batches h => ?_,fun interval clock batches h => ?_⟩
  · obtain ⟨hsized,hbegins⟩ := begins_fixedBatches hpositive h
    exact ⟨hsized,hbegins,hands_fixedBatches⟩
  · obtain ⟨hsized,hsingle,hbegins⟩ := begins_keyedBatches hpositive h
    refine ⟨hsized,hsingle,hbegins,fun hends => ?_⟩
    obtain ⟨xs,hxs,hkept⟩ := hands_keyedBatches hends
    exact ⟨xs,hxs,hkept.perm,hkept⟩
  · obtain ⟨hsized,hbegins⟩ := begins_microBatchLoop hpositive h
    refine ⟨hsized,hbegins,fun hends => ?_⟩
    have hruns : (microBatches size interval clock stream).Hands batches := by
      rw [microBatches, hcut]
      exact hends
    obtain ⟨xs,hxs,rfl⟩ := hands_microBatches hruns
    rw [iterMicroBatches_flatten]
    exact hxs

/-- Batches of two out of five items, by their parity for a consumer that asks for one batch. -/
theorem batches_partition_five :
    let stream : Gen Unit PyException Nat := .ofList [1,2,3,4,5]
    (stream.Hands ((bufferIntoBatches 2 (none : Option (Nat → Nat)) stream).drain ()).1.1.flatten ∧
      ((bufferIntoBatches 2 (none : Option (Nat → Nat)) stream).drain ()).1.1 =
        [[1,2],[3,4],[5]]) ∧
    SingleKey (fun n => n % 2)
        ((bufferIntoBatches 2 (some fun n => n % 2) stream).consume 1 id ()).1.1 ∧
      ((bufferIntoBatches 2 (some fun n => n % 2) stream).consume 1 id ()).1.1 = [[1,3]] := by
  intro stream
  obtain ⟨hfixed,hkeyed,_⟩ := batches_partition (K := Nat) stream (show (0 : Int) < 2 by decide)
  refine ⟨⟨(hfixed _ (Gen.begins_drain _ ())).2.2 (Gen.hands_drain rfl),rfl⟩,?_,rfl⟩
  exact (hkeyed _ _ (Gen.begins_consume _ 1 id ())).2.1

end NexusEtl.Pipeline
