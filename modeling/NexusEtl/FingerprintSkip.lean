import NexusEtl.History
import NexusEtl.JsonDumps
import NexusEtl.ResolveDiff

/-!
# Skipping a row by its fingerprint

A row of which the compared fields have one fingerprint with the stored record
is skipped without a diff. The fingerprint is taken from the JSON text of the
fields with sorted keys, where an object that JSON cannot write stands as its
text and a tuple as a list. The diff compares with `==`, over all the fields.
-/

set_option autoImplicit false

namespace NexusEtl
open NexusEtl.Library

namespace Value

/-- The entries of a dictionary in the order of their keys. -/
def byKey (entries : List (String × Value)) : List (String × Value) :=
  entries.insertionSort fun a b => a.1 ≤ b.1

mutual
/-- The value with the keys of every dictionary inside in order, as `sort_keys=True` writes it. -/
def sortKeys : Value → Value
  | .list items => .list (sortItems items)
  | .dict entries => .dict (byKey (sortFields entries))
  | v => v

def sortItems : List Value → List Value
  | [] => []
  | v::vs => sortKeys v::sortItems vs

def sortFields : List (String × Value) → List (String × Value)
  | [] => []
  | (k,v)::kvs => (k,sortKeys v)::sortFields kvs
end

mutual
/-- Every dictionary inside has distinct keys. -/
def DistinctKeys : Value → Prop
  | .list items => DistinctItems items
  | .dict entries => (entries.map Prod.fst).Nodup ∧ DistinctFields entries
  | _ => True

def DistinctItems : List Value → Prop
  | [] => True
  | v::vs => DistinctKeys v ∧ DistinctItems vs

def DistinctFields : List (String × Value) → Prop
  | [] => True
  | (_,v)::kvs => DistinctKeys v ∧ DistinctFields kvs
end

theorem distinctKeys_of_mem {entries : List (String × Value)} (h : DistinctFields entries)
    {k : String} {v : Value} (hmem : (k,v) ∈ entries) : v.DistinctKeys := by
  induction entries with
  | nil => cases hmem
  | cons e entries ih =>
    rcases List.mem_cons.mp hmem with rfl | hmem
    · exact h.1
    · exact ih h.2 hmem

theorem sortFields_eq_map (entries : List (String × Value)) :
    sortFields entries = entries.map fun e => (e.1,sortKeys e.2) := by
  induction entries with
  | nil => rfl
  | cons e entries ih => exact congrArg _ ih

/-- Dictionaries that sort alike have the same entries up to the order of inner keys. -/
theorem exists_of_byKey_eq {a b : List (String × Value)}
    (h : byKey (sortFields a) = byKey (sortFields b)) {k : String} {v : Value}
    (hmem : (k,v) ∈ a) : ∃ w, (k,w) ∈ b ∧ sortKeys v = sortKeys w := by
  have hperm : (sortFields a).Perm (sortFields b) :=
    (List.perm_insertionSort _ _).symm.trans ((List.Perm.of_eq h).trans
      (List.perm_insertionSort _ _))
  have hin : (k,sortKeys v) ∈ sortFields b := by
    apply hperm.mem_iff.mp
    rw [sortFields_eq_map]
    exact List.mem_map.mpr ⟨_,hmem,rfl⟩
  rw [sortFields_eq_map] at hin
  obtain ⟨⟨l,w⟩,hw,heq⟩ := List.mem_map.mp hin
  obtain ⟨hkey,hval⟩ := Prod.mk.inj heq
  have hl : l = k := hkey
  subst hl
  exact ⟨w,hw,hval.symm⟩

theorem length_of_byKey_eq {a b : List (String × Value)}
    (h : byKey (sortFields a) = byKey (sortFields b)) : a.length = b.length := by
  have hlen := congrArg List.length h
  simpa [byKey, List.length_insertionSort, sortFields_eq_map] using hlen

mutual
/-- Values with one sorted form are equal. -/
theorem pyEq_of_sorted : ∀ (v : Value) {w : Value}, v.DistinctKeys → w.DistinctKeys →
    sortKeys v = sortKeys w → pyEq v w = true
  | .null, w, _, _, h => by cases w <;> simp_all [sortKeys, pyEq]
  | .bool a, w, _, _, h => by cases w <;> simp_all [sortKeys, pyEq, number?]
  | .int a, w, _, _, h => by cases w <;> simp_all [sortKeys, pyEq, number?]
  | .float a, w, _, _, h => by cases w <;> simp_all [sortKeys, pyEq, number?]
  | .str a, w, _, _, h => by cases w <;> simp_all [sortKeys, pyEq]
  | .list a, w, hv, hw, h => by
    cases w with
    | list b => exact pyEqList_of_sorted a hv hw (by simpa [sortKeys] using h)
    | _ => simp [sortKeys] at h
  | .dict a, w, hv, hw, h => by
    cases w with
    | dict b =>
      have heq : byKey (sortFields a) = byKey (sortFields b) := by simpa [sortKeys] using h
      simp only [pyEq, Bool.and_eq_true, beq_iff_eq]
      exact ⟨length_of_byKey_eq heq,pyEqFields_of_sorted a hv.2 hw.1 hw.2
        fun _ _ hmem => exists_of_byKey_eq heq hmem⟩
    | _ => simp [sortKeys] at h

theorem pyEqList_of_sorted : ∀ (a : List Value) {b : List Value}, DistinctItems a →
    DistinctItems b → sortItems a = sortItems b → pyEqList a b = true
  | [], b, _, _, h => by cases b <;> simp_all [sortItems, pyEqList]
  | v::a, b, hv, hw, h => by
    cases b with
    | nil => simp [sortItems] at h
    | cons w b =>
      obtain ⟨hhead,htail⟩ := List.cons.inj h
      simp only [pyEqList, Bool.and_eq_true]
      exact ⟨pyEq_of_sorted v hv.1 hw.1 hhead,pyEqList_of_sorted a hv.2 hw.2 htail⟩

theorem pyEqFields_of_sorted : ∀ (a : List (String × Value)) {b : List (String × Value)},
    DistinctFields a → (b.map Prod.fst).Nodup → DistinctFields b →
      (∀ k v, (k,v) ∈ a → ∃ w, (k,w) ∈ b ∧ sortKeys v = sortKeys w) → pyEqFields a b = true
  | [], _, _, _, _, _ => rfl
  | (k,v)::a, b, ha, hkeys, hb, h => by
    obtain ⟨w,hmem,hsorted⟩ := h k v List.mem_cons_self
    have hget : Dict.get? (b : Fields) k = some w := (Dict.mem_iff_get? hkeys).mp hmem
    have hw := distinctKeys_of_mem hb hmem
    simp only [pyEqFields, hget, Bool.and_eq_true]
    exact ⟨pyEq_of_sorted v ha.1 hw hsorted,pyEqFields_of_sorted a ha.2 hkeys hb
      fun k v hkv => h k v (List.mem_cons_of_mem _ hkv)⟩
end

end Value
/-- Runtime values with tuples and with objects that JSON cannot write, such as dates. -/
inductive PyObject (ω : Type) where
  | null
  | bool (b : Bool)
  | int (n : Int)
  | float (q : Rat)
  | str (s : String)
  | list (items : List (PyObject ω))
  | tuple (items : List (PyObject ω))
  | dict (entries : List (String × PyObject ω))
  | other (obj : ω)

abbrev PyRecord (ω : Type) := Dict String (PyObject ω)

namespace PyObject

variable {ω : Type}

mutual
def ofValue : Value → PyObject ω
  | .null => .null
  | .bool b => .bool b
  | .int n => .int n
  | .float q => .float q
  | .str s => .str s
  | .list items => .list (ofItems items)
  | .dict entries => .dict (ofFields entries)

def ofItems : List Value → List (PyObject ω)
  | [] => []
  | v::vs => ofValue v::ofItems vs

def ofFields : List (String × Value) → List (String × PyObject ω)
  | [] => []
  | (k,v)::kvs => (k,ofValue v)::ofFields kvs
end

def number? : PyObject ω → Option Rat
  | .bool b => some (if b then 1 else 0)
  | .int n => some n
  | .float q => some q
  | _ => none

section Equality
variable (same : ω → PyObject ω → Bool)

mutual
/-- The `==` of the runtime; an object of another type compares by its own method. -/
def pyEq : PyObject ω → PyObject ω → Bool
  | .other o, b => same o b
  | a, .other o => same o a
  | .null, .null => true
  | .str a, .str b => a == b
  | .list a, .list b => pyEqList a b
  | .tuple a, .tuple b => pyEqList a b
  | .dict a, .dict b => a.length == b.length && pyEqFields a b
  | a, b => match number? a, number? b with
    | some p, some q => p == q
    | _, _ => false

def pyEqList : List (PyObject ω) → List (PyObject ω) → Bool
  | [], [] => true
  | a::as, b::bs => pyEq a b && pyEqList as bs
  | _, _ => false

def pyEqFields : List (String × PyObject ω) → PyRecord ω → Bool
  | [], _ => true
  | (k,a)::as, b => (match Dict.get? b k with
    | some v => pyEq a v
    | none => false) && pyEqFields as b
end

end Equality

section Json
variable (str : ω → String)

mutual
/-- What JSON writes: a tuple as a list, and through `default=str` an object as its text. -/
def jsonView : PyObject ω → Value
  | .null => .null
  | .bool b => .bool b
  | .int n => .int n
  | .float q => .float q
  | .str s => .str s
  | .list items => .list (viewItems items)
  | .tuple items => .list (viewItems items)
  | .dict entries => .dict (viewFields entries)
  | .other obj => .str (str obj)

def viewItems : List (PyObject ω) → List Value
  | [] => []
  | v::vs => jsonView v::viewItems vs

def viewFields : List (String × PyObject ω) → List (String × Value)
  | [] => []
  | (k,v)::kvs => (k,jsonView v)::viewFields kvs
end

end Json

/-- A value that JSON writes as it is. -/
def Native (o : PyObject ω) : Prop := ∃ v, o = ofValue v

theorem ofFields_eq_map (entries : List (String × Value)) :
    (ofFields entries : PyRecord ω) = entries.map fun e => (e.1,ofValue e.2) := by
  induction entries with
  | nil => rfl
  | cons e entries ih => exact congrArg _ ih

mutual
theorem jsonView_ofValue (str : ω → String) : ∀ v : Value, jsonView str (ofValue v) = v
  | .null | .bool _ | .int _ | .float _ | .str _ => rfl
  | .list items => congrArg Value.list (viewItems_ofItems str items)
  | .dict entries => congrArg Value.dict (viewFields_ofFields str entries)

theorem viewItems_ofItems (str : ω → String) :
    ∀ items : List Value, viewItems str (ofItems items) = items
  | [] => rfl
  | v::vs => congrArg₂ List.cons (jsonView_ofValue str v) (viewItems_ofItems str vs)

theorem viewFields_ofFields (str : ω → String) :
    ∀ entries : List (String × Value), viewFields str (ofFields entries) = entries
  | [] => rfl
  | (k,v)::kvs => congrArg₂ (fun v kvs => (k,v)::kvs) (jsonView_ofValue str v)
      (viewFields_ofFields str kvs)
end

mutual
/-- Native values compare as the values that they are. -/
theorem pyEq_ofValue (same : ω → PyObject ω → Bool) : ∀ v w : Value,
    pyEq same (ofValue v) (ofValue w) = Value.pyEq v w
  | .null, w => by cases w <;> simp [ofValue, pyEq, Value.pyEq, number?, Value.number?]
  | .bool a, w => by cases w <;> simp [ofValue, pyEq, Value.pyEq, number?, Value.number?]
  | .int a, w => by cases w <;> simp [ofValue, pyEq, Value.pyEq, number?, Value.number?]
  | .float a, w => by cases w <;> simp [ofValue, pyEq, Value.pyEq, number?, Value.number?]
  | .str a, w => by cases w <;> simp [ofValue, pyEq, Value.pyEq, number?, Value.number?]
  | .list a, w => by
    cases w with
    | list b => simpa [ofValue, pyEq, Value.pyEq] using pyEqList_ofItems same a b
    | _ => simp [ofValue, pyEq, Value.pyEq, number?, Value.number?]
  | .dict a, w => by
    cases w with
    | dict b =>
      have hlen (l : List (String × Value)) : (ofFields l : PyRecord ω).length = l.length := by
        rw [ofFields_eq_map, List.length_map]
      simp only [ofValue, pyEq, Value.pyEq, hlen, pyEqFields_ofFields same a b]
    | _ => simp [ofValue, pyEq, Value.pyEq, number?, Value.number?]

theorem pyEqList_ofItems (same : ω → PyObject ω → Bool) : ∀ a b : List Value,
    pyEqList same (ofItems a) (ofItems b) = Value.pyEqList a b
  | [], [] => rfl
  | [], _::_ => rfl
  | _::_, [] => rfl
  | v::a, w::b => congrArg₂ and (pyEq_ofValue same v w) (pyEqList_ofItems same a b)

theorem pyEqFields_ofFields (same : ω → PyObject ω → Bool) : ∀ a b : List (String × Value),
    pyEqFields same (ofFields a) (ofFields b) = Value.pyEqFields a b
  | [], _ => rfl
  | (k,v)::a, b => by
    have hget : Dict.get? (ofFields b : PyRecord ω) k = (Dict.get? (b : Fields) k).map ofValue := by
      rw [ofFields_eq_map]
      exact Dict.get?_mapValues b ofValue k
    have hrest := pyEqFields_ofFields same a b
    simp only [ofFields, pyEqFields, Value.pyEqFields, hget, hrest]
    cases Dict.get? (b : Fields) k with
    | none => rfl
    | some w => simp only [Option.map_some, pyEq_ofValue same v w]
end

end PyObject
namespace Value

theorem decimalFields_iff {entries : List (String × Value)} :
    DecimalFields entries ↔ ∀ e ∈ entries, Decimal e.2 := by
  induction entries with
  | nil => simp [DecimalFields]
  | cons e entries ih => simp [DecimalFields, ih]

theorem decimalFields_byKey {entries : List (String × Value)} (h : DecimalFields entries) :
    DecimalFields (byKey entries) := by
  rw [decimalFields_iff] at h ⊢
  intro e he
  exact h e ((List.perm_insertionSort _ entries).mem_iff.mp he)

mutual
theorem decimal_sortKeys : ∀ {v : Value}, v.Decimal → (sortKeys v).Decimal
  | .null, _ | .bool _, _ | .int _, _ | .str _, _ => trivial
  | .float _, h => h
  | .list _, h => decimalItems_sortItems h
  | .dict _, h => decimalFields_byKey (decimalFields_sortFields h)

theorem decimalItems_sortItems : ∀ {items : List Value}, DecimalItems items →
    DecimalItems (sortItems items)
  | [], _ => trivial
  | _::_, h => ⟨decimal_sortKeys h.1,decimalItems_sortItems h.2⟩

theorem decimalFields_sortFields : ∀ {entries : List (String × Value)}, DecimalFields entries →
    DecimalFields (sortFields entries)
  | [], _ => trivial
  | (_,_)::_, h => ⟨decimal_sortKeys h.1,decimalFields_sortFields h.2⟩
end

end Value

/-- `_hash_payload`: the digest of the JSON text with sorted keys. -/
def hashPayload (digest : String → String) (payload : Fields) : String :=
  digest (Value.sortKeys (.dict payload)).dumps

/-- The digest tells JSON texts apart. -/
def TellsTexts (digest : String → String) : Prop :=
  ∀ v w : Value, digest v.dumps = digest w.dumps → v.dumps = w.dumps

/-- Payloads with one fingerprint have alike entries under every key. -/
theorem sorted_of_hash_eq {digest : String → String} (hdigest : TellsTexts digest)
    {a b : Fields} (ha : Value.DecimalFields a) (hb : Value.DecimalFields b)
    (h : hashPayload digest a = hashPayload digest b) {k : String} {v : Value}
    (hmem : (k,v) ∈ a) : ∃ w, (k,w) ∈ b ∧ Value.sortKeys v = Value.sortKeys w := by
  have htext := Value.dumps_injective (Value.decimal_sortKeys (v := .dict a) ha)
    (Value.decimal_sortKeys (v := .dict b) hb) (hdigest _ _ h)
  exact Value.exists_of_byKey_eq (Value.dict.inj htext) hmem

namespace PyRecord

variable {ω : Type}

def read (record : PyRecord ω) (name : String) : PyObject ω :=
  (Dict.get? record name).getD .null

/-- What a matched row gives to the decision. -/
structure Matched (ω : Type) where
  status : MatchDecisionStatus
  existing : Option (PyRecord ω)
  fingerprintFields : List String

section Skip
variable (digest : String → String) (str : ω → String)

def buildFingerprintForKeys (payload : PyRecord ω) (keys : List String) : String :=
  hashPayload digest (keys.map fun k => (k,(read payload k).jsonView str))

/-- `_can_skip_with_fingerprint` -/
def canSkipWithFingerprint (matched : Matched ω) (mergePolicy diffPolicy : Bool)
    (desired : PyRecord ω) : Bool :=
  match matched.existing with
  | none => false
  | some existing =>
    matched.status == .matched && matched.fingerprintFields ≠ [] && !mergePolicy && !diffPolicy &&
      buildFingerprintForKeys digest str desired matched.fingerprintFields ==
        buildFingerprintForKeys digest str existing matched.fingerprintFields

end Skip

/-- `_default_diff` -/
def defaultDiff (same : ω → PyObject ω → Bool) (existing : Option (PyRecord ω))
    (desired : PyRecord ω) : PyRecord ω :=
  match existing with
  | none => []
  | some record =>
    if record.isEmpty then []
    else desired.filter fun kv => !Text.hasPrefix "__" kv.1 &&
      !PyObject.pyEq same (read record kv.1) kv.2

/-- Distinct keys, inside the values as well, and only finite floats. -/
structure Proper (str : ω → String) (record : PyRecord ω) : Prop where
  keys : (Dict.keys record).Nodup
  decimal : ∀ e ∈ record, (e.2.jsonView str).Decimal
  distinct : ∀ e ∈ record, (e.2.jsonView str).DistinctKeys

variable {digest : String → String} {str : ω → String} {same : ω → PyObject ω → Bool}

theorem Proper.read {record : PyRecord ω} (h : Proper str record) (name : String) :
    ((record.read name).jsonView str).Decimal ∧
      ((record.read name).jsonView str).DistinctKeys := by
  unfold PyRecord.read
  cases hget : Dict.get? record name with
  | none => exact ⟨trivial,trivial⟩
  | some v =>
    have hmem := Dict.mem_of_get? hget
    exact ⟨h.decimal _ hmem,h.distinct _ hmem⟩

/-- Under a key of the fingerprint, values that JSON writes as they are do not differ. -/
theorem pyEq_of_fingerprint (hdigest : TellsTexts digest) {existing desired : PyRecord ω}
    (hexisting : Proper str existing) (hdesired : Proper str desired) {keys : List String}
    (h : buildFingerprintForKeys digest str desired keys =
      buildFingerprintForKeys digest str existing keys) {key : String} (hkey : key ∈ keys)
    (hnative : (desired.read key).Native) (hstored : (existing.read key).Native) :
    PyObject.pyEq same (existing.read key) (desired.read key) = true := by
  have hdecimal (record : PyRecord ω) (hr : Proper str record) :
      Value.DecimalFields (keys.map fun k => (k,(record.read k).jsonView str)) := by
    apply Value.decimalFields_iff.mpr
    intro e he
    obtain ⟨k,-,rfl⟩ := List.mem_map.mp he
    exact (hr.read k).1
  obtain ⟨w,hw,hsorted⟩ := sorted_of_hash_eq hdigest (hdecimal _ hexisting) (hdecimal _ hdesired)
    h.symm (List.mem_map.mpr ⟨key,hkey,rfl⟩)
  obtain ⟨k,-,heq⟩ := List.mem_map.mp hw
  obtain ⟨rfl,rfl⟩ := Prod.mk.inj heq
  have hsame := Value.pyEq_of_sorted _ (hexisting.read k).2 (hdesired.read k).2 hsorted
  obtain ⟨v,hv⟩ := hnative
  obtain ⟨u,hu⟩ := hstored
  rw [hv, hu] at hsame ⊢
  rw [PyObject.jsonView_ofValue, PyObject.jsonView_ofValue] at hsame
  rw [PyObject.pyEq_ofValue, hsame]

theorem fingerprints_of_skip {matched : Matched ω} {mergePolicy diffPolicy : Bool}
    {desired : PyRecord ω}
    (h : canSkipWithFingerprint digest str matched mergePolicy diffPolicy desired = true) :
    ∃ existing, matched.existing = some existing ∧
      buildFingerprintForKeys digest str desired matched.fingerprintFields =
        buildFingerprintForKeys digest str existing matched.fingerprintFields := by
  unfold canSkipWithFingerprint at h
  cases hexisting : matched.existing with
  | none =>
    rw [hexisting] at h
    cases h
  | some existing =>
    rw [hexisting] at h
    simp only [Bool.and_eq_true, beq_iff_eq] at h
    exact ⟨existing,rfl,h.2⟩

theorem read_of_mem {record : PyRecord ω} (hkeys : (Dict.keys record).Nodup)
    {e : String × PyObject ω} (he : e ∈ record) : read record e.1 = e.2 := by
  have hget : Dict.get? record e.1 = some e.2 := (Dict.mem_iff_get? hkeys).mp he
  rw [read, hget, Option.getD_some]

theorem of_mem_defaultDiff {existing : Option (PyRecord ω)} {desired : PyRecord ω}
    {e : String × PyObject ω} (he : e ∈ defaultDiff same existing desired) :
    e ∈ desired ∧ Text.hasPrefix "__" e.1 = false ∧
      PyObject.pyEq same (read (existing.getD []) e.1) e.2 = false := by
  cases existing with
  | none => cases he
  | some record =>
    rw [defaultDiff] at he
    split at he
    · cases he
    · simpa using he

section Skipped
variable {matched : Matched ω} {mergePolicy diffPolicy : Bool} {desired : PyRecord ω}

/-- A change under a field of the fingerprint is one of values that JSON does not write as they
are. -/
theorem not_native_of_skip (hdigest : TellsTexts digest)
    (hexisting : ∀ existing ∈ matched.existing, Proper str existing)
    (hdesired : Proper str desired)
    (hskip : canSkipWithFingerprint digest str matched mergePolicy diffPolicy desired = true)
    {e : String × PyObject ω} (he : e ∈ defaultDiff same matched.existing desired)
    (hfield : e.1 ∈ matched.fingerprintFields) :
    ¬ (e.2.Native ∧ (read (matched.existing.getD []) e.1).Native) := by
  rintro ⟨hnative,hstored⟩
  obtain ⟨existing,hmatched,hprint⟩ := fingerprints_of_skip hskip
  obtain ⟨hmem,-,hdiffers⟩ := of_mem_defaultDiff he
  have hread := read_of_mem hdesired.keys hmem
  rw [hmatched] at hstored hdiffers
  rw [← hread] at hnative hdiffers
  have hsame : PyObject.pyEq same (read existing e.1) (read desired e.1) = true :=
    pyEq_of_fingerprint hdigest (hexisting _ hmatched) hdesired hprint hfield hnative hstored
  exact Bool.noConfusion (hsame.symm.trans hdiffers)

theorem defaultDiff_of_skip (hdigest : TellsTexts digest)
    (hexisting : ∀ existing ∈ matched.existing, Proper str existing)
    (hdesired : Proper str desired)
    (hskip : canSkipWithFingerprint digest str matched mergePolicy diffPolicy desired = true)
    (hall : ∀ key ∈ Dict.keys desired, Text.hasPrefix "__" key = false →
      key ∈ matched.fingerprintFields ∧ (read desired key).Native ∧
        (read (matched.existing.getD []) key).Native) :
    defaultDiff same matched.existing desired = [] := by
  apply List.eq_nil_iff_forall_not_mem.mpr
  intro e he
  obtain ⟨hmem,hservice,-⟩ := of_mem_defaultDiff he
  obtain ⟨hfield,hnative,hstored⟩ := hall e.1 (List.mem_map.mpr ⟨e,hmem,rfl⟩) hservice
  rw [read_of_mem hdesired.keys hmem] at hnative
  exact not_native_of_skip hdigest hexisting hdesired hskip he hfield ⟨hnative,hstored⟩

/-- What a skip by fingerprint can hide: a field that is no field of the fingerprint, or a value
that JSON does not write as it is. A row without such fields and values has an empty diff. -/
theorem skip_agrees_with_diff (hdigest : TellsTexts digest)
    (hexisting : ∀ existing ∈ matched.existing, Proper str existing)
    (hdesired : Proper str desired)
    (hskip : canSkipWithFingerprint digest str matched mergePolicy diffPolicy desired = true) :
    (∀ e ∈ defaultDiff same matched.existing desired, e.1 ∈ matched.fingerprintFields →
      ¬ (e.2.Native ∧ (read (matched.existing.getD []) e.1).Native)) ∧
    ((∀ key ∈ Dict.keys desired, Text.hasPrefix "__" key = false →
        key ∈ matched.fingerprintFields ∧ (read desired key).Native ∧
          (read (matched.existing.getD []) key).Native) →
      defaultDiff same matched.existing desired = []) :=
  ⟨fun _ he hfield => not_native_of_skip hdigest hexisting hdesired hskip he hfield,
    defaultDiff_of_skip hdigest hexisting hdesired hskip⟩

end Skipped
end PyRecord

/-- Dates as their texts. -/
def sameDate (date : String) : PyObject String → Bool
  | .other d => d == date
  | _ => false

theorem tellsTexts_id : TellsTexts id := fun _ _ h => h

theorem proper_pair {a b : String} (h : a ≠ b) (s : String) (n : Int) :
    PyRecord.Proper (id : String → String) [(a,.str s),(b,.int n)] := by
  constructor
  · simpa [Dict.keys] using h
  · intro e he
    rcases List.mem_cons.mp he with rfl | he
    · trivial
    · rw [List.mem_singleton.mp he]
      trivial
  · intro e he
    rcases List.mem_cons.mp he with rfl | he
    · trivial
    · rw [List.mem_singleton.mp he]
      trivial

/-- The stored record has the same name, and the service field is not compared. -/
theorem skip_agrees_with_diff_renumbered :
    PyRecord.canSkipWithFingerprint id id
        ⟨.matched,some [("name",.str "Ann"),("grade",.int 3)],["name"]⟩ false false
        [("name",.str "Ann"),("__row",.int 7)] = true ∧
      PyRecord.defaultDiff sameDate (some [("name",.str "Ann"),("grade",.int 3)])
        [("name",.str "Ann"),("__row",.int 7)] = [] := by
  have hskip : PyRecord.canSkipWithFingerprint id id
      ⟨.matched,some [("name",.str "Ann"),("grade",.int 3)],["name"]⟩ false false
      [("name",.str "Ann"),("__row",.int 7)] = true := by decide
  refine ⟨hskip,(PyRecord.skip_agrees_with_diff tellsTexts_id ?_
    (proper_pair (by decide) "Ann" 7) hskip).2 ?_⟩
  · rintro existing ⟨⟩
    exact proper_pair (by decide) "Ann" 3
  · intro key hkey hservice
    rcases List.mem_cons.mp hkey with rfl | hkey
    · exact ⟨by decide,⟨.str "Ann",rfl⟩,⟨.str "Ann",rfl⟩⟩
    · rw [List.mem_singleton.mp hkey] at hservice
      exact absurd hservice (by decide)

/-! ## The resolver's decision -/

namespace ResolveCore

variable {ω : Type}

/-- The row with its record as the runtime holds it. -/
def runtimeRow (matched : MatchedRow) : PyRecord.Matched ω where
  status := resolveDecisionStatus matched
  existing := matched.existing.map PyObject.ofFields
  fingerprintFields := matched.fingerprintFields

theorem read_ofFields (record : Fields) (name : String) :
    PyRecord.read (PyObject.ofFields record : PyRecord ω) name =
      PyObject.ofValue (Fields.read record name) := by
  have hget : Dict.get? (PyObject.ofFields record : PyRecord ω) name =
      (Dict.get? record name).map PyObject.ofValue := by
    rw [PyObject.ofFields_eq_map]
    exact Dict.get?_mapValues record PyObject.ofValue name
  rw [PyRecord.read, Fields.read, hget]
  cases Dict.get? record name <;> rfl

/-- On JSON values the resolver's test is the test of the runtime. -/
theorem canSkip_eq_runtime (core : ResolveCore) {digest : String → String} (str : ω → String)
    (hhash : core.hash = hashPayload digest) (matched : MatchedRow) (desired : Fields) :
    core.canSkipWithFingerprint matched desired =
      PyRecord.canSkipWithFingerprint digest str (runtimeRow matched)
        core.resolveRules.mergePolicy.isSome core.resolveRules.diffPolicy.isSome
        (PyObject.ofFields desired) := by
  have hprint (record : Fields) (keys : List String) :
      PyRecord.buildFingerprintForKeys digest str (PyObject.ofFields record) keys =
        NexusEtl.buildFingerprintForKeys core.hash record keys := by
    rw [PyRecord.buildFingerprintForKeys, NexusEtl.buildFingerprintForKeys, hhash]
    congr 1
    apply List.map_congr_left
    intro k _
    rw [read_ofFields, PyObject.jsonView_ofValue]
  unfold canSkipWithFingerprint PyRecord.canSkipWithFingerprint runtimeRow
  cases matched.existing with
  | none => rfl
  | some existing =>
    simp only [Option.map_some, hprint]
    cases core.resolveRules.mergePolicy <;> cases core.resolveRules.diffPolicy <;> rfl

theorem filter_ofFields {p : String × PyObject ω → Bool} {q : String × Value → Bool}
    (h : ∀ e, p (e.1,PyObject.ofValue e.2) = q e) (entries : Fields) :
    (PyObject.ofFields entries : PyRecord ω).filter p = PyObject.ofFields (entries.filter q) := by
  rw [PyObject.ofFields_eq_map, PyObject.ofFields_eq_map, List.filter_map]
  congr 2
  funext e
  exact h e

theorem defaultDiff_eq_runtime (same : ω → PyObject ω → Bool) (existing : Option Fields)
    (desired : Fields) :
    PyRecord.defaultDiff same (existing.map PyObject.ofFields) (PyObject.ofFields desired) =
      PyObject.ofFields (defaultDiff existing desired) := by
  cases existing with
  | none => rfl
  | some record =>
    have hempty : (PyObject.ofFields record : PyRecord ω).isEmpty = decide (record = []) := by
      cases record <;> rfl
    simp only [PyRecord.defaultDiff, Option.map_some, defaultDiff, hempty, decide_eq_true_eq]
    split
    · rfl
    · apply filter_ofFields
      intro e
      rw [read_ofFields, PyObject.pyEq_ofValue]

theorem native_of_stored (existing : Option Fields) (name : String) :
    PyRecord.read ((existing.map PyObject.ofFields).getD [] : PyRecord ω) name =
      PyObject.ofValue (Fields.read (existing.getD []) name) := by
  cases existing with
  | none => rfl
  | some record => exact read_ofFields record name

/-- Where every compared field is a field of the fingerprint, the test changes no decision. -/
theorem decideOp_eq_diff {core : ResolveCore} {digest : String → String}
    (hdigest : TellsTexts digest) (hhash : core.hash = hashPayload digest)
    {matched : MatchedRow} {desired : Fields}
    (hdesired : PyRecord.Proper id (PyObject.ofFields desired))
    (hexisting : ∀ existing ∈ matched.existing, PyRecord.Proper id (PyObject.ofFields existing))
    (hfields : ∀ key ∈ Dict.keys desired, Text.hasPrefix "__" key = false →
      key ∈ matched.fingerprintFields) :
    core.decideOp matched desired =
      if resolveDecisionStatus matched = .notFound then .ok (.create,[])
      else (core.diffOf matched desired).map fun changes =>
        if changes = [] then (.skip,[]) else (.update,changes) := by
  unfold decideOp
  split
  · rfl
  · cases hfast : core.canSkipWithFingerprint matched desired with
    | false =>
      simp only [Bool.false_eq_true, if_false]
      cases core.diffOf matched desired <;> rfl
    | true =>
      have hskip := hfast
      rw [canSkip_eq_runtime core id hhash] at hskip
      have hobjects : PyRecord.defaultDiff (fun _ _ => false) (runtimeRow matched).existing
          (PyObject.ofFields desired : PyRecord String) = [] := by
        apply PyRecord.defaultDiff_of_skip hdigest _ hdesired hskip
        · intro key hkey hservice
          have hkeys : Dict.keys (PyObject.ofFields desired : PyRecord String) =
              Dict.keys desired := by simp [PyObject.ofFields_eq_map, Dict.keys]
          rw [hkeys] at hkey
          refine ⟨hfields key hkey hservice,⟨_,read_ofFields desired key⟩,?_⟩
          exact ⟨_,native_of_stored matched.existing key⟩
        · intro existing hin
          obtain ⟨record,hrecord,rfl⟩ := Option.map_eq_some_iff.mp hin
          exact hexisting record hrecord
      have hempty : defaultDiff matched.existing desired = [] := by
        rw [runtimeRow, defaultDiff_eq_runtime, PyObject.ofFields_eq_map] at hobjects
        exact List.map_eq_nil_iff.mp hobjects
      have hnone : core.resolveRules.diffPolicy = none := by
        unfold canSkipWithFingerprint at hfast
        split at hfast
        · cases hfast
        · simp only [Bool.and_eq_true, Option.isNone_iff_eq_none] at hfast
          exact hfast.1.2
      rw [diffOf, hnone, hempty]
      rfl

/-- The salary is no field of the fingerprint: the row is skipped, while its salary changes. -/
theorem skip_hides_ignored_field :
    let core := { plainCore [] with hash := hashPayload id }
    let matched := { newRow 1 "line:1" "E1" (.str "emp-1") [] with
      existing := some [("name",.str "Ann"),("salary",.int 10)]
      fingerprintFields := ["name"]
      matchDecision := { (newRow 1 "line:1" "E1" (.str "emp-1") []).matchDecision with
        status := .matched } }
    let desired : Fields := [("name",.str "Ann"),("salary",.int 12)]
    core.canSkipWithFingerprint matched desired = true ∧
      core.decideOp matched desired = .ok (.skip,[]) ∧
      defaultDiff matched.existing desired = [("salary",.int 12)] := by decide

end ResolveCore
end NexusEtl
