import NexusEtl.Library.Patches
import NexusEtl.Mapper

/-!
# Key-value texts

`parse_kv_pairs` cuts a text into tokens, each token at its first key separator, and
keeps the last value of each key, trimmed and in lower case. A target then takes the
value under its source key, which is looked up as it is written. For which source keys
this reads a rendered list of pairs back is settled here.
-/

set_option autoImplicit false

namespace NexusEtl
open NexusEtl.Library

namespace Text

/-- `str.split` with a separator of any length; the number counts what is left of the
separator just met. -/
def splitSep (sep : List Char) : Nat → List Char → List (List Char)
  | _, [] => [[]]
  | k+1, _::cs => splitSep sep k cs
  | 0, c::cs =>
    if sep.isPrefixOf (c::cs) then [] :: splitSep sep (sep.length-1) cs
    else (splitSep sep 0 cs).modifyHead (List.cons c)

theorem splitSep_singleton (a : Char) (cs : List Char) : splitSep [a] 0 cs = cs.splitOn a := by
  induction cs with
  | nil => rfl
  | cons c cs ih =>
    rw [List.splitOn_cons_eq_if_modifyHead, ← ih, splitSep]
    by_cases h : c = a
    · simp [h]
    · have hne : a ≠ c := fun e => h e.symm
      simp [h, hne]

/-- The parts before and after the first separator, as `str.split(sep, 1)` gives them. -/
def cut (sep : List Char) : List Char → Option (List Char × List Char)
  | [] => none
  | c::cs =>
    if sep.isPrefixOf (c::cs) then some ([],(c::cs).drop sep.length)
    else (cut sep cs).map fun p => (c::p.1,p.2)

theorem cut_append {b : Char} {before : List Char} (h : b ∉ before) (after : List Char) :
    cut [b] (before ++ b :: after) = some (before,after) := by
  induction before with
  | nil => simp [cut]
  | cons c before ih =>
    have hne : b ≠ c := fun e => h (e ▸ List.mem_cons_self)
    have htail : b ∉ before := fun hmem => h (List.mem_cons_of_mem c hmem)
    simp [cut, hne, ih htail]

end Text

/-- What the operation relies on in `str.lower`. -/
structure LowerCase where
  lower : String → String
  lower_lower : ∀ s, lower (lower s) = lower s
  eq_empty : ∀ s, lower s = "" → s = ""

theorem Text.toLower_of_not_upper {c : Char} (h : ¬(c.val ≥ 'A'.val ∧ c.val ≤ 'Z'.val)) :
    c.toLower = c := by
  unfold Char.toLower
  rw [dif_neg h]

theorem Text.toLower_toLower (c : Char) : c.toLower.toLower = c.toLower := by
  by_cases h : c.val ≥ 'A'.val ∧ c.val ≤ 'Z'.val
  · have hlow : c.toLower.val = c.val + 32 := by
      unfold Char.toLower
      rw [dif_pos h]
      rfl
    apply toLower_of_not_upper
    rw [hlow]
    have hge : 65 ≤ c.val.toNat := UInt32.le_iff_toNat_le.mp h.1
    have hle : c.val.toNat ≤ 90 := UInt32.le_iff_toNat_le.mp h.2
    rintro ⟨-,hupper⟩
    have hsum : (c.val.toNat + 32) % 4294967296 ≤ 90 := UInt32.le_iff_toNat_le.mp hupper
    omega
  · rw [toLower_of_not_upper h, toLower_of_not_upper h]

theorem Text.lower_lower (s : String) : Text.lower (Text.lower s) = Text.lower s := by
  simp [Text.lower, List.map_map, Function.comp_def, toLower_toLower]

def asciiLowerCase : LowerCase where
  lower := Text.lower
  lower_lower := Text.lower_lower
  eq_empty := fun s h => by
    have hlist := congrArg String.toList h
    simpa [Text.lower] using hlist

namespace KvPairs

def emptySeparator : PyException := ⟨"ValueError","empty separator"⟩

section Operation
variable (lower : String → String)

/-- One turn of the loop over the tokens. -/
def readToken (kvSep : String) (token : List Char) : Option (String × String) :=
  match Text.cut kvSep.toList token with
  | none => none
  | some (key,val) =>
    let key := lower (Text.strip (String.ofList key))
    if key = "" then none else some (key,Text.strip (String.ofList val))

def readPairs (kvSep : String) (tokens : List (List Char)) : Dict String String :=
  (tokens.filterMap (readToken lower kvSep)).foldl (fun d p => Dict.set d p.1 p.2) []

/-- `dict.get` of a dictionary of texts. -/
def getText (pairs : Dict String String) (key : String) : Value :=
  (Dict.get? pairs key).elim .null .str

def selectKeys (pairs keys : Dict String String) : Fields :=
  keys.foldl (fun d entry => Dict.set d entry.1 (getText pairs entry.2)) []

/-- `op_parse_kv_pairs` -/
def opParseKvPairs (value : Value) (sep kvSep : String) (keys : Dict String String) :
    Except PyException Value :=
  if value = .null then .ok .null
  else if value.pyStr = "" then .ok .null
  else if sep = "" then .error emptySeparator
  else if kvSep = "" then .error emptySeparator
  else
    let pairs := readPairs lower kvSep (Text.splitSep sep.toList 0 value.pyStr.toList)
    if pairs = [] then .ok .null else .ok (.dict (selectKeys pairs keys))

end Operation

/-! ## Rendered pairs -/

variable {sep kvSep : Char}

/-- A pair as it stands in a text, with the blanks around its key and its value. -/
structure Pair (sep kvSep : Char) where
  key : String
  value : String
  key_sep : sep ∉ key.toList
  key_kvSep : kvSep ∉ key.toList
  key_strip : Text.strip key ≠ ""
  value_sep : sep ∉ value.toList

namespace Pair

def chars (p : Pair sep kvSep) : List Char := p.key.toList ++ kvSep :: p.value.toList

theorem sep_not_mem_chars (h : sep ≠ kvSep) (p : Pair sep kvSep) : sep ∉ p.chars := by
  simp [chars, p.key_sep, p.value_sep, h]

def render (pairs : List (Pair sep kvSep)) : String :=
  Text.join (String.singleton sep) (pairs.map fun p => String.ofList p.chars)

theorem toList_render (pairs : List (Pair sep kvSep)) :
    (render pairs).toList = [sep].intercalate (pairs.map chars) := by
  simp [render, Text.join, String.toList_intercalate, List.map_map, Function.comp_def]

theorem render_ne_empty {pairs : List (Pair sep kvSep)} (h : pairs ≠ []) : render pairs ≠ "" := by
  intro hempty
  have hlist : [sep].intercalate (pairs.map chars) = [] := by rw [← toList_render, hempty]; rfl
  cases pairs with
  | nil => exact h rfl
  | cons p pairs =>
    have hmem : kvSep ∈ [sep].intercalate ((p :: pairs).map chars) := by
      cases pairs <;> simp [chars, List.intercalate_cons_cons]
    rw [hlist] at hmem
    exact List.not_mem_nil hmem

end Pair

variable (L : LowerCase)

/-- What the loop keeps of a pair. -/
def folded (p : Pair sep kvSep) : String × String :=
  (L.lower (Text.strip p.key),Text.strip p.value)

/-- The last pair whose key equals the source key but for its case. -/
def lastPair (pairs : List (Pair sep kvSep)) (source : String) : Option (Pair sep kvSep) :=
  pairs.reverse.find? fun p => L.lower (Text.strip p.key) = L.lower source

/-- The stripped value of that pair. -/
def wanted (pairs : List (Pair sep kvSep)) (source : String) : Value :=
  (lastPair L pairs source).elim .null fun p => .str (Text.strip p.value)

/-- The source key is in lower case already, or no pair has it in any case. -/
def Found (pairs : List (Pair sep kvSep)) (source : String) : Prop :=
  L.lower source = source ∨ ∀ p ∈ pairs, L.lower (Text.strip p.key) ≠ L.lower source

theorem readToken_chars (p : Pair sep kvSep) :
    readToken L.lower (String.singleton kvSep) p.chars = some (folded L p) := by
  have hcut : Text.cut (String.singleton kvSep).toList p.chars =
      some (p.key.toList,p.value.toList) := by
    rw [String.toList_singleton]
    exact Text.cut_append p.key_kvSep p.value.toList
  have hkey : L.lower (Text.strip p.key) ≠ "" := fun h => p.key_strip (L.eq_empty _ h)
  rw [readToken, hcut]
  simp [folded, hkey]

theorem splitSep_render (hsep : sep ≠ kvSep) {pairs : List (Pair sep kvSep)} (h : pairs ≠ []) :
    Text.splitSep (String.singleton sep).toList 0 (Pair.render pairs).toList =
      pairs.map Pair.chars := by
  rw [String.toList_singleton, Text.splitSep_singleton, Pair.toList_render]
  apply List.splitOn_intercalate
  · intro l hl
    obtain ⟨p,-,rfl⟩ := List.mem_map.mp hl
    exact p.sep_not_mem_chars hsep
  · simp [h]

theorem readPairs_render (pairs : List (Pair sep kvSep)) :
    readPairs L.lower (String.singleton kvSep) (pairs.map Pair.chars) =
      pairs.foldl (fun d p => Dict.set d (folded L p).1 (folded L p).2) [] := by
  have htokens : (pairs.map Pair.chars).filterMap (readToken L.lower (String.singleton kvSep)) =
      pairs.map (folded L) := by
    rw [List.filterMap_map]
    induction pairs with
    | nil => rfl
    | cons p pairs ih => simp [readToken_chars]
  rw [readPairs, htokens, List.foldl_map]

/-- The dictionary of the loop holds the last value of each key. -/
theorem get?_readPairs (pairs : List (Pair sep kvSep)) (key : String) :
    Dict.get? (readPairs L.lower (String.singleton kvSep) (pairs.map Pair.chars)) key =
      (pairs.reverse.find? fun p => L.lower (Text.strip p.key) = key).map
        fun p => Text.strip p.value := by
  rw [readPairs_render, Patches.get?_foldl_set_value, Dict.get?_nil, Option.or_none]
  rfl

theorem readPairs_ne_nil {pairs : List (Pair sep kvSep)} (h : pairs ≠ []) :
    readPairs L.lower (String.singleton kvSep) (pairs.map Pair.chars) ≠ [] := by
  intro hnil
  obtain ⟨before,p,rfl⟩ := pairs.eq_nil_or_concat'.resolve_left h
  have hlast := get?_readPairs L (before ++ [p]) (L.lower (Text.strip p.key))
  rw [hnil] at hlast
  simp at hlast

theorem read_selectKeys {pairs keys : Dict String String} (hkeys : (Dict.keys keys).Nodup)
    {entry : String × String} (h : entry ∈ keys) :
    Fields.read (selectKeys pairs keys) entry.1 = getText pairs entry.2 := by
  have hselect : selectKeys pairs keys = keys.map fun e => (e.1,getText pairs e.2) := by
    rw [selectKeys, Dict.foldl_set_eq_append Prod.fst
      (fun e : String × String => getText pairs e.2) keys [] (by simpa [Dict.keys] using hkeys),
      List.nil_append]
  have hget := Dict.get?_map_of_mem Prod.fst (fun e : String × String => getText pairs e.2)
    hkeys h
  rw [Fields.read, hselect, hget, Option.getD_some]

/-- A key that is not in lower case equals no key of the loop's dictionary. -/
theorem get?_readPairs_of_ne {source : String} (h : L.lower source ≠ source)
    (pairs : List (Pair sep kvSep)) :
    Dict.get? (readPairs L.lower (String.singleton kvSep) (pairs.map Pair.chars)) source =
      none := by
  rw [get?_readPairs, Option.map_eq_none_iff, List.find?_eq_none]
  intro p _ heq
  exact h (by rw [← of_decide_eq_true heq, L.lower_lower])

theorem wanted_eq_null {pairs : List (Pair sep kvSep)} {source : String} :
    wanted L pairs source = .null ↔
      ∀ p ∈ pairs, L.lower (Text.strip p.key) ≠ L.lower source := by
  rw [wanted, lastPair]
  cases hfind : pairs.reverse.find? fun p => decide (L.lower (Text.strip p.key) = L.lower source) with
  | none => simpa using hfind
  | some p =>
    have hmem := List.mem_reverse.mp (List.mem_of_find?_eq_some hfind)
    have hkey : L.lower (Text.strip p.key) = L.lower source := by
      simpa using List.find?_some hfind
    exact ⟨fun h => (Value.noConfusion h), fun h => absurd hkey (h p hmem)⟩

/-- What a source key finds is the wanted value, or the key is in another case. -/
theorem read_iff (pairs : List (Pair sep kvSep)) (source : String) :
    getText (readPairs L.lower (String.singleton kvSep) (pairs.map Pair.chars)) source =
      wanted L pairs source ↔ Found L pairs source := by
  rw [getText]
  by_cases h : L.lower source = source
  · have hgives : (Dict.get? (readPairs L.lower (String.singleton kvSep)
        (pairs.map Pair.chars)) source).elim .null .str = wanted L pairs source := by
      rw [get?_readPairs, wanted, lastPair, h]
      cases pairs.reverse.find? fun p => decide (L.lower (Text.strip p.key) = source) <;> rfl
    exact ⟨fun _ => Or.inl h, fun _ => hgives⟩
  · rw [get?_readPairs_of_ne L h, Option.elim_none, eq_comm, wanted_eq_null]
    exact ⟨Or.inr, fun hfound => hfound.resolve_left h⟩

/-- Each target reads the stripped value of the last pair under its source key, in any
case, exactly when no pair is under a source key that is not in lower case. -/
theorem parse_render_iff (hsep : sep ≠ kvSep) (pairs : List (Pair sep kvSep))
    {keys : Dict String String} (hkeys : (Dict.keys keys).Nodup) :
    (∃ result, opParseKvPairs L.lower (.str (Pair.render pairs)) (String.singleton sep)
        (String.singleton kvSep) keys = .ok result ∧
      ∀ entry ∈ keys, ∀ index,
        MapperCore.targetValue result index entry.1 = wanted L pairs entry.2) ↔
      ∀ entry ∈ keys, Found L pairs entry.2 := by
  by_cases hpairs : pairs = []
  · subst hpairs
    have hnull : opParseKvPairs L.lower (.str (Pair.render ([] : List (Pair sep kvSep))))
        (String.singleton sep) (String.singleton kvSep) keys = .ok .null := by
      simp [opParseKvPairs, Pair.render, Text.join]
    refine ⟨fun _ _ _ => Or.inr fun p hp => absurd hp List.not_mem_nil,fun _ => ?_⟩
    exact ⟨.null,hnull,fun _ _ _ => rfl⟩
  · let found := readPairs L.lower (String.singleton kvSep) (pairs.map Pair.chars)
    have hresult : opParseKvPairs L.lower (.str (Pair.render pairs)) (String.singleton sep)
        (String.singleton kvSep) keys = .ok (.dict (selectKeys found keys)) := by
      have hne := readPairs_ne_nil L hpairs
      rw [opParseKvPairs, Value.pyStr_str, splitSep_render hsep hpairs]
      simp [Pair.render_ne_empty hpairs, hne, found]
    have hread : ∀ entry ∈ keys, ∀ index,
        MapperCore.targetValue (.dict (selectKeys found keys)) index entry.1 =
          getText found entry.2 :=
      fun _ hentry _ => read_selectKeys hkeys hentry
    rw [hresult]
    constructor
    · rintro ⟨result,hok,hall⟩ entry hentry
      cases hok
      rw [← read_iff, ← hall entry hentry 0]
      exact (hread entry hentry 0).symm
    · intro hall
      refine ⟨_,rfl,fun entry hentry index => ?_⟩
      rw [hread entry hentry index]
      exact (read_iff L pairs entry.2).mpr (hall entry hentry)

def telPair : Pair ';' '=' where
  key := "Tel"
  value := " 1 "
  key_sep := by decide
  key_kvSep := by decide
  key_strip := by decide
  value_sep := by decide

theorem parse_render_iff_lower_key :
    (';' ≠ '=' ∧ (Dict.keys [("phone","tel")]).Nodup) ∧
      ((∃ result, opParseKvPairs asciiLowerCase.lower (.str (Pair.render [telPair]))
          (String.singleton ';') (String.singleton '=') [("phone","tel")] = .ok result ∧
        ∀ entry ∈ [("phone","tel")], ∀ index, MapperCore.targetValue result index entry.1 =
          wanted asciiLowerCase [telPair] entry.2) ↔
        ∀ entry ∈ [("phone","tel")], Found asciiLowerCase [telPair] entry.2) :=
  ⟨⟨by decide,by decide⟩,parse_render_iff asciiLowerCase (by decide) [telPair] (by decide)⟩

/-- `Tel= 1 ` with the source key `Tel`: the target gets nothing, though the pair is there. -/
theorem upper_key_missed :
    ¬∃ result, opParseKvPairs asciiLowerCase.lower (.str (Pair.render [telPair]))
        (String.singleton ';') (String.singleton '=') [("phone","Tel")] = .ok result ∧
      ∀ entry ∈ [("phone","Tel")], ∀ index, MapperCore.targetValue result index entry.1 =
        wanted asciiLowerCase [telPair] entry.2 := by
  rintro ⟨result,hok,hall⟩
  have hresult : opParseKvPairs asciiLowerCase.lower (.str (Pair.render [telPair]))
      (String.singleton ';') (String.singleton '=') [("phone","Tel")] =
        .ok (.dict [("phone",.null)]) := by decide
  rw [hresult] at hok
  cases hok
  have hphone := hall ("phone","Tel") (List.mem_singleton_self _) 0
  exact absurd hphone (by decide)

end KvPairs
end NexusEtl
