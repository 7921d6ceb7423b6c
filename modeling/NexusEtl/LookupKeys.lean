import NexusEtl.BatchLinks
import NexusEtl.JsonDumps

/-!
# Lookup keys

A record enters the identity index through the syncer and the batch index through the
resolver; a link computes the key that it looks up from its own value. Each of the three
trims the value by itself and puts it behind the key's name and a colon. For which values
the three agree, and which names and values share a key, is settled here.
-/

set_option autoImplicit false

namespace NexusEtl
open NexusEtl.Library

theorem Text.isSpace_of_inNumber {c : Char} (h : Value.inNumber c = true) : Text.isSpace c = false := by
  have hcode : 45 ≤ c.toNat ∧ c.toNat ≤ 57 := by
    simp only [Value.inNumber, Char.isDigit, Bool.or_eq_true, Bool.and_eq_true, decide_eq_true_eq,
      beq_iff_eq] at h
    rcases h with (h | rfl) | rfl
    · have hge : 48 ≤ c.toNat := UInt32.le_iff_toNat_le.mp h.1
      have hle : c.toNat ≤ 57 := UInt32.le_iff_toNat_le.mp h.2
      omega
    · decide
    · decide
  simp only [Text.isSpace, Text.inRanges, Text.spaceRanges, List.any_cons, List.any_nil,
    Bool.or_false, Bool.or_eq_false_iff, Bool.and_eq_false_iff, decide_eq_false_iff_not]
  omega

theorem Text.strip_of_not_space {s : String} (h : ∀ c ∈ s.toList, Text.isSpace c = false) :
    Text.strip s = s := by
  have hkeep : ∀ l : List Char, (∀ c ∈ l, Text.isSpace c = false) →
      l.dropWhile Text.isSpace = l := by
    intro l hl
    exact List.dropWhile_eq_self_iff.mpr fun hlen => by simp [hl _ (List.getElem_mem hlen)]
  rw [Text.strip, hkeep _ h, hkeep _ (fun c hc => h c (List.mem_reverse.mp hc)),
    List.reverse_reverse, String.ofList_toList]

theorem strip_intText (n : Int) : Text.strip (toString n) = toString n :=
  Text.strip_of_not_space fun _ hc => Text.isSpace_of_inNumber (Value.inNumber_intText hc)

/-! ## Keys of one name -/

/-- Where two keys in one text part: alike, or one name goes on behind the other's colon. -/
theorem append_cons_eq_iff {α : Type} {x : α} {a b l m : List α} :
    a ++ x :: l = b ++ x :: m ↔ (a = b ∧ l = m) ∨ (∃ w, b = a ++ x :: w ∧ l = w ++ x :: m) ∨
      ∃ w, a = b ++ x :: w ∧ m = w ++ x :: l := by
  constructor
  · intro h
    rcases List.append_eq_append_iff.mp h with ⟨w,hb,hl⟩ | ⟨w,ha,hm⟩
    · cases w with
      | nil => exact Or.inl ⟨by simpa using hb.symm,by simpa using hl⟩
      | cons y w =>
        obtain ⟨rfl,htail⟩ := List.cons.inj hl
        exact Or.inr (Or.inl ⟨w,hb,htail⟩)
    · cases w with
      | nil => exact Or.inl ⟨by simpa using ha,by simpa using hm.symm⟩
      | cons y w =>
        obtain ⟨rfl,htail⟩ := List.cons.inj hm
        exact Or.inr (Or.inr ⟨w,ha,htail⟩)
  · rintro (⟨rfl,rfl⟩ | ⟨w,rfl,rfl⟩ | ⟨w,rfl,rfl⟩)
    · rfl
    · simp
    · simp

/-- The name of one key goes on where the other has its colon, and its value begins later. -/
def Overlap (name value name' value' : String) : Prop :=
  ∃ w, name' = formatIdentityKey name w ∧ value = formatIdentityKey w value'

theorem toList_formatIdentityKey (name value : String) :
    (formatIdentityKey name value).toList = name.toList ++ ':' :: value.toList := by
  simp [formatIdentityKey]

theorem formatIdentityKey_eq_iff {name value name' value' : String} :
    formatIdentityKey name value = formatIdentityKey name' value' ↔
      (name = name' ∧ value = value') ∨ Overlap name value name' value' ∨
        Overlap name' value' name value := by
  have hoverlap (a s b t : String) : Overlap a s b t ↔
      ∃ w, b.toList = a.toList ++ ':' :: w ∧ s.toList = w ++ ':' :: t.toList := by
    constructor
    · rintro ⟨w,rfl,rfl⟩
      exact ⟨w.toList,toList_formatIdentityKey a w,toList_formatIdentityKey w t⟩
    · rintro ⟨w,hb,hs⟩
      refine ⟨String.ofList w,String.toList_inj.mp ?_,String.toList_inj.mp ?_⟩
      · rw [hb, toList_formatIdentityKey, String.toList_ofList]
      · rw [hs, toList_formatIdentityKey, String.toList_ofList]
  rw [← String.toList_inj, toList_formatIdentityKey, toList_formatIdentityKey,
    append_cons_eq_iff, hoverlap, hoverlap, String.toList_inj, String.toList_inj]

/-- The keys over a set of names are told apart exactly when no name of it goes on
behind another and a colon. -/
theorem formatIdentityKey_injective_iff (names : List String) :
    (∀ name ∈ names, ∀ name' ∈ names, ∀ value value',
      formatIdentityKey name value = formatIdentityKey name' value' →
        name = name' ∧ value = value') ↔
      ∀ name ∈ names, ∀ name' ∈ names, ∀ w, name' ≠ formatIdentityKey name w := by
  constructor
  · intro h name hname name' hname' w hext
    have hsame : formatIdentityKey name (formatIdentityKey w "") = formatIdentityKey name' "" :=
      formatIdentityKey_eq_iff.mpr (Or.inr (Or.inl ⟨w,hext,rfl⟩))
    have hvalue := (h name hname name' hname' _ _ hsame).2
    have hlist := congrArg String.toList hvalue
    simp [toList_formatIdentityKey] at hlist
  · intro h name hname name' hname' value value' hkey
    rcases formatIdentityKey_eq_iff.mp hkey with heq | ⟨w,hext,-⟩ | ⟨w,hext,-⟩
    · exact heq
    · exact absurd hext (h name hname name' hname' w)
    · exact absurd hext (h name' hname' name hname w)

/-! ## One value under one name -/

theorem normalizeValue_of_not_null {v : Value} (h : v.isNull = false) :
    IdentityIndexSyncer.normalizeValue v =
      if Text.strip v.pyStr = "" then none else some (Text.strip v.pyStr) := by
  simp [IdentityIndexSyncer.normalizeValue, h]

/-- The link's own trimming and the syncer's give one text. -/
theorem keyText_eq_normalizeValue (v : Value) :
    keyText v = IdentityIndexSyncer.normalizeValue v := by
  cases v with
  | null => rfl
  | bool b => cases b <;> decide
  | int n =>
    have hstrip : Text.strip (Value.int n).pyStr = (Value.int n).pyStr := strip_intText n
    have hne : (Value.int n).pyStr ≠ "" := fun h =>
      Value.intText_ne_nil n (congrArg String.toList h)
    simp [keyText, IdentityIndexSyncer.normalizeValue, Value.isNull, hstrip, hne]
  | _ =>
    rw [normalizeValue_of_not_null rfl]
    simp only [keyText]

/-- What a link holds under a key: the override of the source, else its own field. -/
def linkValue (desired : Fields) (overrides : Dict String String) (key : LinkKeyRule) : Value :=
  match Dict.get? overrides key.name with
  | some text => .str text
  | none => Fields.read desired key.field

/-- One turn of the loop of `_extract_key_values`. -/
def extractStep (desired : Fields) (overrides : Dict String String)
    (values : Dict String String) (key : LinkKeyRule) : Dict String String :=
  match keyText (linkValue desired overrides key) with
  | some text => Dict.set values key.name text
  | none => values

theorem get?_extractStep_of_not_mem {desired : Fields} {overrides : Dict String String}
    {keys : List LinkKeyRule} {name : String} (h : name ∉ keys.map LinkKeyRule.name)
    (values : Dict String String) :
    Dict.get? (keys.foldl (extractStep desired overrides) values) name =
      Dict.get? values name := by
  induction keys generalizing values with
  | nil => rfl
  | cons key keys ih =>
    rw [List.map_cons, List.mem_cons, not_or] at h
    rw [List.foldl_cons, ih h.2, extractStep]
    cases keyText (linkValue desired overrides key) with
    | none => rfl
    | some text => exact Dict.get?_set_ne values text (Ne.symm h.1)

theorem get?_extractKeyValues {keys : List LinkKeyRule} (h : (keys.map LinkKeyRule.name).Nodup)
    (desired : Fields) (overrides : Dict String String) {key : LinkKeyRule} (hkey : key ∈ keys) :
    Dict.get? (extractKeyValues desired keys overrides) key.name =
      keyText (linkValue desired overrides key) := by
  have hfold : ∀ values : Dict String String, key.name ∉ Dict.keys values →
      Dict.get? (keys.foldl (extractStep desired overrides) values) key.name =
        keyText (linkValue desired overrides key) := by
    intro values hfresh
    induction keys generalizing values with
    | nil => cases hkey
    | cons first keys ih =>
      rw [List.map_cons, List.nodup_cons] at h
      rw [List.foldl_cons]
      rcases List.mem_cons.mp hkey with rfl | hmem
      · rw [get?_extractStep_of_not_mem h.1, extractStep]
        cases keyText (linkValue desired overrides key) with
        | none => exact Dict.get?_eq_none hfresh
        | some text => exact Dict.get?_set_self values key.name text
      · have hne : first.name ≠ key.name := fun he =>
          h.1 (he ▸ List.mem_map_of_mem hmem)
        apply ih h.2 hmem
        rw [extractStep]
        cases keyText (linkValue desired overrides first) with
        | none => exact hfresh
        | some text =>
          rw [Dict.mem_keys_iff, Dict.get?_set_ne values text hne, ← Dict.mem_keys_iff]
          exact hfresh
  exact hfold [] List.not_mem_nil

/-- A record given to the syncer, a row of the batch and a link that hold one value under
one key name. -/
structure SameValue (name : String) (v : Value) where
  values : Fields
  values_hold : Fields.read values name = v
  row : MatchedRow
  identity_holds : ∀ text, Dict.get? row.identity.values name = some text →
    v ≠ .null ∧ Text.strip text = Text.strip v.pyStr
  desired_holds : ∀ w, Dict.get? row.desiredState name = some w → w = v
  row_holds : (Dict.get? row.identity.values name).isSome = true ∨
    (Dict.get? row.desiredState name).isSome = true
  linkDesired : Fields
  overrides : Dict String String
  keys : List LinkKeyRule
  names_nodup : (keys.map LinkKeyRule.name).Nodup
  key : LinkKeyRule
  key_mem : key ∈ keys
  key_name : key.name = name
  link_holds : linkValue linkDesired overrides key = v

namespace SameValue

variable {name : String} {v : Value} (x : SameValue name v)

/-- What `sync` writes for the record. -/
def syncKeys : List String := IdentityIndexSyncer.keysOf [name] x.values

/-- What `build_batch_index` writes for the row. -/
def batchKeysOf : List String := batchKeys [name] x.row

/-- What the link looks up. -/
def linkKeys : List String :=
  ((Dict.get? (extractKeyValues x.linkDesired x.keys x.overrides) name).map
    (formatIdentityKey name)).toList

/-- The value is not blank, or it is the empty text and stands in the identity alone. -/
def Clear : Prop :=
  v = .null ∨ Text.strip v.pyStr ≠ "" ∨
    (Dict.get? x.row.identity.values name = some "" ∧ Dict.get? x.row.desiredState name = none)

theorem linkKeys_eq :
    x.linkKeys = ((IdentityIndexSyncer.normalizeValue v).map (formatIdentityKey name)).toList := by
  have hlink := get?_extractKeyValues x.names_nodup x.linkDesired x.overrides x.key_mem
  rw [x.key_name, x.link_holds, keyText_eq_normalizeValue] at hlink
  rw [linkKeys, hlink]

theorem syncKeys_eq : x.syncKeys = x.linkKeys := by
  rw [linkKeys_eq, syncKeys, IdentityIndexSyncer.keysOf, List.filterMap_cons, List.filterMap_nil,
    x.values_hold]
  cases (IdentityIndexSyncer.normalizeValue v).map (formatIdentityKey name) <;> rfl

theorem batchKeysOf_eq :
    x.batchKeysOf = ((extractIdentityValue x.row name).map (formatIdentityKey name)).toList := by
  rw [batchKeysOf, batchKeys, List.filterMap_cons, List.filterMap_nil]
  cases (extractIdentityValue x.row name).map (formatIdentityKey name) <;> rfl

theorem extractIdentityValue_null (x : SameValue name .null) :
    extractIdentityValue x.row name = none := by
  have hidentity : Dict.get? x.row.identity.values name = none := by
    cases hget : Dict.get? x.row.identity.values name with
    | none => rfl
    | some text => exact absurd rfl (x.identity_holds text hget).1
  have hread : Fields.read x.row.desiredState name = .null := by
    rw [Fields.read]
    cases hget : Dict.get? x.row.desiredState name with
    | none => rfl
    | some w => exact x.desired_holds w hget
  simp [extractIdentityValue, hidentity, hread, Value.isNull]

/-- Only the empty text in the identity alone keeps a row out of the batch index. -/
theorem extractIdentityValue_of_ne_null (h : v ≠ .null) :
    extractIdentityValue x.row name =
      if Dict.get? x.row.identity.values name = some "" ∧
        Dict.get? x.row.desiredState name = none then none else some (Text.strip v.pyStr) := by
  have hnull : v.isNull = false := by
    cases v <;> first | rfl | exact absurd rfl h
  have hdesired : ∀ w, Dict.get? x.row.desiredState name = some w →
      Fields.read x.row.desiredState name = v := by
    intro w hget
    rw [Fields.read, hget]
    exact x.desired_holds w hget
  cases hidentity : Dict.get? x.row.identity.values name with
  | none =>
    obtain ⟨w,hget⟩ := Option.isSome_iff_exists.mp
      (x.row_holds.resolve_left (by simp [hidentity]))
    simp [extractIdentityValue, hidentity, hdesired w hget, hnull]
  | some text =>
    have htext := (x.identity_holds text hidentity).2
    by_cases hempty : text = ""
    · subst hempty
      cases hget : Dict.get? x.row.desiredState name with
      | none => simp [extractIdentityValue, hidentity, Option.filter, Fields.read, hget, Value.isNull]
      | some w => simp [extractIdentityValue, hidentity, Option.filter, hdesired w hget, hnull]
    · simp [extractIdentityValue, hidentity, Option.filter, hempty, htext]

theorem batchKeysOf_eq_linkKeys_iff : x.batchKeysOf = x.linkKeys ↔ x.Clear := by
  have hinjective : Function.Injective (formatIdentityKey name) := by
    intro value value' h
    have hlist := congrArg String.toList h
    rw [toList_formatIdentityKey, toList_formatIdentityKey] at hlist
    exact String.toList_inj.mp (List.cons.inj (List.append_cancel_left hlist)).2
  have hvalue : x.batchKeysOf = x.linkKeys ↔
      extractIdentityValue x.row name = IdentityIndexSyncer.normalizeValue v := by
    have htoList : Function.Injective fun o : Option String => o.toList := by
      intro o o' h
      cases o with
      | none => cases o' with
        | none => rfl
        | some s => cases h
      | some s => cases o' with
        | none => cases h
        | some t => rw [List.singleton_inj.mp h]
    rw [batchKeysOf_eq, linkKeys_eq, htoList.eq_iff]
    exact (Option.map_injective hinjective).eq_iff
  rw [hvalue, Clear]
  by_cases hnull : v = .null
  · subst hnull
    rw [extractIdentityValue_null]
    exact iff_of_true rfl (Or.inl rfl)
  · have hisNull : v.isNull = false := by
      cases v <;> first | rfl | exact absurd rfl hnull
    rw [x.extractIdentityValue_of_ne_null hnull, IdentityIndexSyncer.normalizeValue, hisNull]
    by_cases hblank : Text.strip v.pyStr = ""
    · simp [hnull, hblank]
    · have hidentity : Dict.get? x.row.identity.values name ≠ some "" := by
        intro hget
        have htext := (x.identity_holds "" hget).2
        exact hblank (by rw [← htext]; rfl)
      simp [hblank, hidentity]

/-- The syncer, the batch index and a link name one value alike exactly when it is not
blank, and two keys are told apart exactly when neither name goes on behind the other. -/
theorem lookup_keys_agree_iff (a s b t : String) :
    (x.syncKeys = x.linkKeys ∧ x.batchKeysOf = x.linkKeys ↔ x.Clear) ∧
      ((formatIdentityKey a s = formatIdentityKey b t → a = b ∧ s = t) ↔
        ¬Overlap a s b t ∧ ¬Overlap b t a s) := by
  constructor
  · rw [batchKeysOf_eq_linkKeys_iff]
    exact and_iff_right x.syncKeys_eq
  · have hdisjoint (a s b t : String) (h : Overlap a s b t) : ¬(a = b ∧ s = t) := by
      rintro ⟨rfl,rfl⟩
      obtain ⟨w,hname,-⟩ := h
      have hlength := congrArg (fun n => n.toList.length) hname
      simp [toList_formatIdentityKey] at hlength
    constructor
    · intro h
      refine ⟨fun hover => ?_,fun hover => ?_⟩
      · exact hdisjoint a s b t hover (h (formatIdentityKey_eq_iff.mpr (Or.inr (Or.inl hover))))
      · have heq := h (formatIdentityKey_eq_iff.mpr (Or.inr (Or.inr hover)))
        exact hdisjoint b t a s hover ⟨heq.1.symm,heq.2.symm⟩
    · intro h heq
      rcases formatIdentityKey_eq_iff.mp heq with hsame | hover | hover
      · exact hsame
      · exact absurd hover h.1
      · exact absurd hover h.2

end SameValue

def blankCode : SameValue "code" (.str " ") where
  values := [("code",.str " ")]
  values_hold := rfl
  row :=
    { rowRef := ⟨some 1,"line:1",none,none⟩
      identity := ⟨"match_key",[("match_key","k")]⟩
      desiredState := [("code",.str " ")]
      existing := none
      fingerprint := ""
      fingerprintFields := []
      matchDecision := ⟨.notFound,"",none,none,[],none,none,none,[],[]⟩
      sourceLinks := []
      targetId := .str "1" }
  identity_holds := by
    intro text h
    cases h
  desired_holds := by
    intro w h
    exact (Option.some.inj h).symm
  row_holds := Or.inr rfl
  linkDesired := [("unit_code",.str " ")]
  overrides := []
  keys := [⟨"code","unit_code"⟩]
  names_nodup := by decide
  key := ⟨"code","unit_code"⟩
  key_mem := List.mem_singleton_self _
  key_name := rfl
  link_holds := rfl

/-- A blank code is a key of the batch index that the link does not look up, and the key
of `b:c` under `a` is the key of `c` under `a:b`. -/
theorem blank_code_and_shared_key :
    blankCode.batchKeysOf = ["code:"] ∧ blankCode.linkKeys = [] ∧
      formatIdentityKey "a" "b:c" = formatIdentityKey "a:b" "c" ∧ "a" ≠ "a:b" := by
  decide

end NexusEtl
