import NexusEtl.Library.Memo
import NexusEtl.Library.Runs
import NexusEtl.Value
import Mathlib.Data.List.Sort
import Mathlib.Data.String.Basic

/-!
# Mapping through a dictionary

`map_dict` folds the case of the keys of its mapping. A table in memory keeps the
folded mappings by their sorted entries, which Python compares with `==`; a mapping
that cannot be hashed is folded in its own order. When every call of a process gets
what its own mapping holds is settled here.
-/

set_option autoImplicit false

namespace NexusEtl
open NexusEtl.Library

abbrev MapItems := List (String × Value)

namespace MapDict

variable (casefold : String → String)

/-- `{k.casefold(): v for k, v in mapping}` -/
def normalizeItems (items : MapItems) : Fields :=
  items.foldl (fun d item => Dict.set d (casefold item.1) item.2) []

/-- `tuple(sorted(mapping.items()))`; the keys differ, so no values are compared. -/
def sortedItems (mapping : Fields) : MapItems := mapping.insertionSort fun a b => a.1 ≤ b.1

def hashable : Value → Bool
  | .list _ => false
  | .dict _ => false
  | _ => true

/-- Tuples of entries are equal when their keys are and their values compare equal. -/
def sameItems : MapItems → MapItems → Bool
  | [], [] => true
  | (k,v)::items, (l,w)::others => k == l && Value.pyEq v w && sameItems items others
  | _, _ => false

def memoSize : Nat := 128

abbrev MappingMemo := Memo (normalizeItems casefold)

/-- `_normalize_mapping_safe` -/
def normalizeMappingSafe (memo : MappingMemo casefold) (mapping : Fields) :
    Fields × MappingMemo casefold :=
  if mapping.all fun entry => hashable entry.2 then
    memo.call sameItems memoSize (sortedItems mapping)
  else (normalizeItems casefold mapping,memo)

/-- `op_map_dict`, with what it leaves in memory. -/
def opMapDict (memo : MappingMemo casefold) (value : Value) (mapping : Fields) (fold : Bool) :
    Value × MappingMemo casefold :=
  if value = .null then (.null,memo)
  else if fold then
    (Fields.read (normalizeMappingSafe casefold memo mapping).1 (casefold value.pyStr),
      (normalizeMappingSafe casefold memo mapping).2)
  else (Fields.read mapping value.pyStr,memo)

/-! ## The calls of a process -/

/-- A call with `casefold=true`; the mapping is a dictionary. -/
structure MapCall where
  value : Value
  mapping : Fields
  keys : (Dict.keys mapping).Nodup

def step (memo : MappingMemo casefold) (call : MapCall) : MappingMemo casefold :=
  (opMapDict casefold memo call.value call.mapping true).2

/-- The value of the last item whose key folds to the given one. -/
def lastOf (items : MapItems) (key : String) : Option Value :=
  (items.reverse.find? fun item => casefold item.1 == key).map Prod.snd

/-- What the mapping of a call holds for its value. -/
def own (call : MapCall) : Value :=
  if call.value = .null then .null
  else (lastOf casefold call.mapping (casefold call.value.pyStr)).getD .null

/-- The call gets what its mapping holds, and its mapping means the same on both paths. -/
def Right (memo : MappingMemo casefold) (call : MapCall) : Prop :=
  (opMapDict casefold memo call.value call.mapping true).1 = own casefold call ∧
    ∀ key, Dict.get? (normalizeItems casefold (sortedItems call.mapping)) key =
      Dict.get? (normalizeItems casefold call.mapping) key

/-- No key of the mapping that folds alike is greater. -/
def Greatest (mapping : Fields) (item : String × Value) : Prop :=
  item ∈ mapping ∧ ∀ other ∈ mapping, casefold other.1 = casefold item.1 → other.1 ≤ item.1

/-- Of the keys that fold alike the greatest holds the value of the last. -/
def LastIsGreatest (mapping : Fields) : Prop :=
  ∀ item, Greatest casefold mapping item → lastOf casefold mapping (casefold item.1) = some item.2

/-- The entry that an equal mapping has left in memory holds the value that the greatest
key has here, with its type. -/
def FoundAlike (memo : MappingMemo casefold) (call : MapCall) : Prop :=
  call.value ≠ .null → call.mapping.all (fun entry => hashable entry.2) = true →
    ∀ entry, memo.stored sameItems (sortedItems call.mapping) = some entry →
      ∀ item, Greatest casefold call.mapping item →
        casefold item.1 = casefold call.value.pyStr → item ∈ entry.key

variable {casefold}

theorem get?_normalizeItems (items : MapItems) (key : String) :
    Dict.get? (normalizeItems casefold items) key = lastOf casefold items key := by
  induction items using List.reverseRecOn with
  | nil => rfl
  | append_singleton items item ih =>
    have hfold : normalizeItems casefold (items ++ [item]) =
        Dict.set (normalizeItems casefold items) (casefold item.1) item.2 := by
      rw [normalizeItems, List.foldl_append]
      rfl
    rw [hfold, Dict.get?_set, lastOf, List.reverse_append, List.reverse_singleton,
      List.singleton_append, List.find?_cons]
    by_cases h : casefold item.1 = key
    · simp [h]
    · rw [if_neg (fun e => h e), ih, lastOf, beq_eq_false_iff_ne.mpr h]

theorem mem_sortedItems {mapping : Fields} {item : String × Value} :
    item ∈ sortedItems mapping ↔ item ∈ mapping := List.mem_insertionSort _

def SortedItems (items : MapItems) : Prop := items.Pairwise fun a b => a.1 ≤ b.1

theorem sorted_sortedItems (mapping : Fields) : SortedItems (sortedItems mapping) := by
  have : Std.Total fun a b : String × Value => a.1 ≤ b.1 := ⟨fun a b => String.le_total a.1 b.1⟩
  have : IsTrans (String × Value) fun a b => a.1 ≤ b.1 := ⟨fun _ _ _ => String.le_trans⟩
  exact List.pairwise_insertionSort _ mapping

/-- The item that `lastOf` takes stands after all that fold alike. -/
theorem lastOf_eq_some {items : MapItems} {key : String} {v : Value}
    (h : lastOf casefold items key = some v) :
    ∃ before item after, items = before ++ item :: after ∧ casefold item.1 = key ∧ item.2 = v ∧
      ∀ other ∈ after, casefold other.1 ≠ key := by
  rw [lastOf, Option.map_eq_some_iff] at h
  obtain ⟨item,hfind,rfl⟩ := h
  obtain ⟨hkey,after,before,hsplit,hafter⟩ := List.find?_eq_some_iff_append.mp hfind
  refine ⟨before.reverse,item,after.reverse,?_,by simpa using hkey,rfl,fun other hother => ?_⟩
  · have hrev := congrArg List.reverse hsplit
    simpa using hrev
  · simpa using hafter other (List.mem_reverse.mp hother)

variable (casefold) in
theorem lastOf_isSome {items : MapItems} {item : String × Value} (h : item ∈ items) :
    (lastOf casefold items (casefold item.1)).isSome = true := by
  rw [lastOf, Option.isSome_map, List.find?_isSome]
  exact ⟨item,List.mem_reverse.mpr h,beq_self_eq_true _⟩

theorem lastOf_eq_none {items : MapItems} {key : String}
    (h : lastOf casefold items key = none) : ∀ item ∈ items, casefold item.1 ≠ key := by
  intro item hitem hkey
  have hsome := lastOf_isSome casefold hitem
  rw [hkey, h] at hsome
  cases hsome

/-- Keys differ, so the greatest item of those that fold alike is one. -/
theorem Greatest.unique {items : Fields} (hkeys : (Dict.keys items).Nodup)
    {a b : String × Value} (ha : Greatest casefold items a) (hb : Greatest casefold items b)
    (h : casefold a.1 = casefold b.1) : a = b := by
  have hkey : a.1 = b.1 := String.le_antisymm (hb.2 a ha.1 h) (ha.2 b hb.1 h.symm)
  exact List.inj_on_of_nodup_map hkeys ha.1 hb.1 hkey

/-- The last of the sorted items that fold alike is the greatest. -/
theorem greatest_of_lastOf {items : MapItems} (hsorted : SortedItems items) {key : String}
    {v : Value} (h : lastOf casefold items key = some v) :
    ∃ item, Greatest casefold items item ∧ casefold item.1 = key ∧ item.2 = v := by
  obtain ⟨before,item,after,rfl,hkey,hv,hafter⟩ := lastOf_eq_some h
  rw [SortedItems, List.pairwise_append] at hsorted
  refine ⟨item,⟨by simp,fun other hother hfold => ?_⟩,hkey,hv⟩
  rw [List.mem_append, List.mem_cons] at hother
  rcases hother with hother | rfl | hother
  · exact hsorted.2.2 other hother item List.mem_cons_self
  · exact String.le_refl _
  · exact absurd (hfold.trans hkey) (hafter other hother)

/-- Of sorted items the greatest of those that fold alike wins. -/
theorem lastOf_of_greatest {items : MapItems} (hsorted : SortedItems items)
    (hkeys : (Dict.keys items).Nodup) {item : String × Value}
    (h : Greatest casefold items item) :
    lastOf casefold items (casefold item.1) = some item.2 := by
  obtain ⟨v,hv⟩ := Option.isSome_iff_exists.mp (lastOf_isSome casefold h.1)
  obtain ⟨other,hother,hfold,rfl⟩ := greatest_of_lastOf hsorted hv
  rw [hv, hother.unique hkeys h hfold]

theorem greatest_sortedItems {mapping : Fields} {item : String × Value} :
    Greatest casefold (sortedItems mapping) item ↔ Greatest casefold mapping item := by
  simp only [Greatest, mem_sortedItems]

theorem nodup_sortedItems {mapping : Fields} (hkeys : (Dict.keys mapping).Nodup) :
    (Dict.keys (sortedItems mapping)).Nodup :=
  ((List.perm_insertionSort _ mapping).map Prod.fst).nodup_iff.mpr hkeys

/-- The two paths give every key the same winner. -/
theorem same_winner_iff {mapping : Fields} (hkeys : (Dict.keys mapping).Nodup) :
    (∀ key, Dict.get? (normalizeItems casefold (sortedItems mapping)) key =
      Dict.get? (normalizeItems casefold mapping) key) ↔ LastIsGreatest casefold mapping := by
  simp only [get?_normalizeItems]
  constructor
  · intro h item hitem
    rw [← h]
    exact lastOf_of_greatest (sorted_sortedItems mapping) (nodup_sortedItems hkeys)
      (greatest_sortedItems.mpr hitem)
  · intro h key
    cases hsorted : lastOf casefold (sortedItems mapping) key with
    | none =>
      symm
      rw [← Option.not_isSome_iff_eq_none]
      intro hsome
      obtain ⟨v,hv⟩ := Option.isSome_iff_exists.mp hsome
      obtain ⟨before,item,after,hitems,hkey,_,_⟩ := lastOf_eq_some hv
      exact lastOf_eq_none hsorted item (mem_sortedItems.mpr (by simp [hitems])) hkey
    | some v =>
      obtain ⟨item,hitem,rfl,rfl⟩ := greatest_of_lastOf
        (sorted_sortedItems mapping) hsorted
      exact (h item (greatest_sortedItems.mp hitem)).symm

/-! ## Tables that are found -/

theorem keys_sameItems {items others : MapItems} (h : sameItems items others = true) :
    items.map Prod.fst = others.map Prod.fst := by
  induction items generalizing others with
  | nil =>
    cases others with
    | nil => rfl
    | cons other others => cases h
  | cons item items ih =>
    cases others with
    | nil => cases h
    | cons other others =>
      simp only [sameItems, Bool.and_eq_true, beq_iff_eq] at h
      rw [List.map_cons, List.map_cons, h.1.1, ih h.2]

theorem mem_of_keys {items others : MapItems} (h : items.map Prod.fst = others.map Prod.fst)
    {x : String × Value} (hx : x ∈ items) : ∃ y ∈ others, y.1 = x.1 := by
  have : x.1 ∈ others.map Prod.fst := h ▸ List.mem_map_of_mem hx
  simpa using this

variable (casefold) in
theorem lastOf_sameItems {items others : MapItems} (h : sameItems items others = true)
    (key : String) :
    (lastOf casefold items key).isSome = (lastOf casefold others key).isSome := by
  have hkeys := keys_sameItems h
  rw [Bool.eq_iff_iff]
  constructor
  · intro hsome
    obtain ⟨v,hv⟩ := Option.isSome_iff_exists.mp hsome
    obtain ⟨_,item,_,rfl,rfl,_,_⟩ := lastOf_eq_some hv
    obtain ⟨other,hother,hkey⟩ := mem_of_keys hkeys (x := item) (by simp)
    exact hkey ▸ lastOf_isSome casefold hother
  · intro hsome
    obtain ⟨v,hv⟩ := Option.isSome_iff_exists.mp hsome
    obtain ⟨_,other,_,rfl,rfl,_,_⟩ := lastOf_eq_some hv
    obtain ⟨item,hitem,hkey⟩ := mem_of_keys hkeys.symm (x := other) (by simp)
    exact hkey ▸ lastOf_isSome casefold hitem

/-- A table that an equal mapping has left answers as the own one when it holds the value
of the greatest key. -/
theorem lastOf_eq_iff {items others : MapItems} (h : sameItems items others = true)
    (hsorted : SortedItems items) (hkeys : (Dict.keys items).Nodup) (key : String) :
    lastOf casefold others key = lastOf casefold items key ↔
      ∀ item, Greatest casefold items item → casefold item.1 = key → item ∈ others := by
  have hsame : items.map Prod.fst = others.map Prod.fst := keys_sameItems h
  have hsorted' : SortedItems others := by
    rw [SortedItems, ← List.pairwise_map (f := Prod.fst)] at hsorted ⊢
    rwa [← hsame]
  have hkeys' : (Dict.keys others).Nodup := by
    rw [Dict.keys] at hkeys ⊢
    rwa [← hsame]
  constructor
  · rintro heq item hitem rfl
    rw [lastOf_of_greatest hsorted hkeys hitem] at heq
    obtain ⟨other,hother,hfold,hv⟩ := greatest_of_lastOf hsorted' heq
    obtain ⟨item',hmem,hkey⟩ := mem_of_keys hsame.symm hother.1
    obtain ⟨other',hmem',hkey'⟩ := mem_of_keys hsame hitem.1
    have hle : other.1 ≤ item.1 := hkey ▸ hitem.2 item' hmem (by rw [hkey, hfold])
    have hge : item.1 ≤ other.1 := hkey' ▸ hother.2 other' hmem' (by rw [hkey', hfold])
    have : other = item := Prod.ext (String.le_antisymm hle hge) hv
    exact this ▸ hother.1
  · intro hall
    cases hitems : lastOf casefold items key with
    | none =>
      have hnone := lastOf_sameItems casefold h key
      rw [hitems] at hnone
      exact Option.isSome_eq_false_iff.mp hnone.symm |> Option.isNone_iff_eq_none.mp
    | some v =>
      obtain ⟨item,hitem,rfl,rfl⟩ := greatest_of_lastOf hsorted hitems
      have hother : Greatest casefold others item := by
        refine ⟨hall item hitem rfl,fun other hother hfold => ?_⟩
        obtain ⟨item',hmem,hkey⟩ := mem_of_keys hsame.symm hother
        exact hkey ▸ hitem.2 item' hmem (by rw [hkey, hfold])
      exact lastOf_of_greatest hsorted' hkeys' hother

/-! ## Calls -/

theorem getD_eq_iff {a b : Option Value} (h : a.isSome = b.isSome) :
    a.getD .null = b.getD .null ↔ a = b := by
  cases a with
  | none =>
    cases b with
    | none => simp
    | some w => cases h
  | some v =>
    cases b with
    | none => cases h
    | some w => simp

/-- With the same winner on both paths, a call goes wrong only on a table that it finds. -/
theorem value_eq_own_iff (memo : MappingMemo casefold) (call : MapCall)
    (hlast : LastIsGreatest casefold call.mapping) :
    (opMapDict casefold memo call.value call.mapping true).1 = own casefold call ↔
      FoundAlike casefold memo call := by
  by_cases hvalue : call.value = .null
  · simp [opMapDict, own, hvalue, FoundAlike]
  have hwinner := (same_winner_iff call.keys).mpr hlast (casefold call.value.pyStr)
  rw [opMapDict, if_neg hvalue, if_pos rfl, own, if_neg hvalue, Fields.read,
    normalizeMappingSafe]
  by_cases hhash : call.mapping.all (fun entry => hashable entry.2) = true
  · rw [if_pos hhash]
    cases hfound : memo.stored sameItems (sortedItems call.mapping) with
    | none =>
      rw [Memo.call_none hfound, hwinner, get?_normalizeItems]
      exact iff_of_true rfl (fun _ _ entry he => by rw [hfound] at he; cases he)
    | some entry =>
      have hsame := Memo.same_of_stored hfound
      rw [Memo.call_some hfound, ← get?_normalizeItems call.mapping, ← hwinner,
        get?_normalizeItems, get?_normalizeItems, getD_eq_iff (lastOf_sameItems casefold hsame _).symm,
        lastOf_eq_iff hsame (sorted_sortedItems _) (nodup_sortedItems call.keys)]
      simp only [greatest_sortedItems]
      constructor
      · rintro h _ _ found hfound'
        rw [hfound, Option.some.injEq] at hfound'
        exact hfound' ▸ h
      · exact fun h => h hvalue hhash entry hfound
  · rw [if_neg hhash, get?_normalizeItems]
    exact iff_of_true rfl (fun _ h => absurd h hhash)

theorem right_iff (memo : MappingMemo casefold) (call : MapCall) :
    Right casefold memo call ↔
      LastIsGreatest casefold call.mapping ∧ FoundAlike casefold memo call := by
  rw [Right, same_winner_iff call.keys, and_comm]
  exact and_congr_right (value_eq_own_iff memo call)

end MapDict

open MapDict in
/-- Every call of a process gets what its own mapping holds, with the winner that the other
path would have, exactly when in every mapping the greatest of the keys that fold alike
holds the value of the last, and every table that is found holds that value too. -/
theorem cached_mapping_iff (casefold : String → String) (memo : MappingMemo casefold)
    (calls : List MapCall) :
    AllSteps (MapDict.step casefold) (Right casefold) memo calls ↔
      AllSteps (MapDict.step casefold) (fun memo call =>
        LastIsGreatest casefold call.mapping ∧ FoundAlike casefold memo call) memo calls :=
  ⟨AllSteps.mono fun memo call h => (right_iff memo call).mp h,
    AllSteps.mono fun memo call h => (right_iff memo call).mpr h⟩

namespace MapDict

def oneThenTrue : List MapCall :=
  [⟨.str "X",[("x",.int 1)],by decide⟩,⟨.str "X",[("x",.bool true)],by decide⟩]

end MapDict

open MapDict in
/-- The second call gets the `1` of the first mapping where its own holds `true`. -/
theorem true_reads_one : ¬ AllSteps (MapDict.step Text.lower) (Right Text.lower) [] oneThenTrue := by
  rintro ⟨_,h,_⟩
  have hvalue : (opMapDict Text.lower (step Text.lower [] ⟨.str "X",[("x",.int 1)],by decide⟩)
      (.str "X") [("x",.bool true)] true).1 = .int 1 := by decide
  exact absurd (hvalue.symm.trans h.1) (by decide)

end NexusEtl
